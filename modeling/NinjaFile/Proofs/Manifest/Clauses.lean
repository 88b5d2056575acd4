import NinjaFile.Proofs.Manifest.Documents
import NinjaFile.Proofs.Manifest.Telling

/-!
# What the records of clauses tell

Under a relation that is telling, related records are those of clauses with one text:
the record of a rule tells its text (`Rule.text_of_telling`), that of a binding the
binding (`Binding.eq_of_telling`), and that of an edge everything but its bindings
(`Edge.eq_of_telling`). The bindings of an edge have a record of their own. It tells
them up to their order (`Edge.bindings_perm`), and with their order if it is the same
in order (`Edge.bindings_eq`).
-/

namespace NinjaFile

open Value (Telling)

variable {R : Value → Value → Prop}

/-! ## Parts of a record -/

namespace Value.Telling

theorem text (hR : Telling R) {s t : String} (h : R (.text s) (.text t)) : s = t :=
  Scalar.text.inj (hR.scalar (s := .text s) (t := .text t) h)

theorem texts (hR : Telling R) {xs ys : List String} (h : R (.texts xs) (.texts ys)) : xs = ys := by
  have hItems := hR.items h
  rw [List.forall₂_map_left_iff, List.forall₂_map_right_iff] at hItems
  exact List.forall₂_eq_eq_eq ▸ hItems.imp fun _ _ => hR.text

theorem optional {α : Type} {f : α → Value} (hTold : ∀ a b, R (f a) (f b) → a = b) {x y : Option α}
    (h : Option.Rel R (x.map f) (y.map f)) : x = y := by
  cases x with
  | none =>
      cases y with
      | none => rfl
      | some b => cases h
  | some a =>
      cases y with
      | none => cases h
      | some b =>
          cases h with
          | some hValue => rw [hTold a b hValue]

theorem optionalText (hR : Telling R) {x y : Option String}
    (h : Option.Rel R (x.map Value.text) (y.map Value.text)) : x = y :=
  optional (fun _ _ => hR.text) h

theorem optionalTexts (hR : Telling R) {x y : Option (List String)}
    (h : Option.Rel R (x.map Value.texts) (y.map Value.texts)) : x = y :=
  optional (fun _ _ => hR.texts) h

theorem flagLine (hR : Telling R) (name : String) {x y : Option Flag}
    (h : Option.Rel R (x.map Flag.toValue) (y.map Flag.toValue)) :
    Rule.flagLine name x = Rule.flagLine name y := by
  cases x with
  | none =>
      cases y with
      | none => rfl
      | some g => cases h
  | some f =>
      cases y with
      | none => cases h
      | some g =>
          cases h with
          | some hValue => rw [Rule.flagLine, Rule.flagLine, hR.flag hValue]

end Value.Telling

/-! ## Clauses -/

theorem Rule.text_of_telling (hR : Telling R) {r s : Rule}
    (h : R (.record r.fields) (.record s.fields)) : r.text = s.text := by
  have hField (name : String) := hR.field r.nodup_names s.nodup_names h name
  simp only [fields, Value.named_append, Value.field?_append, Value.field?_optionalField] at hField
  have hName : r.name = s.name :=
    hR.text (by simpa [Value.named, Value.field?] using hField "name")
  have hCommand : r.command = s.command :=
    hR.text (by simpa [Value.named, Value.field?] using hField "command")
  have hDescription : r.description = s.description :=
    hR.optionalText (by simpa [Value.named, Value.field?] using hField "description")
  have hRestat : flagLine "restat" r.restat = flagLine "restat" s.restat :=
    hR.flagLine _ (by simpa [Value.named, Value.field?] using hField "restat")
  have hGenerator : flagLine "generator" r.generator = flagLine "generator" s.generator :=
    hR.flagLine _ (by simpa [Value.named, Value.field?] using hField "generator")
  have hPool : r.pool = s.pool :=
    hR.optionalText (by simpa [Value.named, Value.field?] using hField "pool")
  have hDepfile : r.depfile = s.depfile :=
    hR.optionalText (by simpa [Value.named, Value.field?] using hField "depfile")
  rw [text, text, hName, hCommand, hDescription, hRestat, hGenerator, hPool, hDepfile]

/-- The record of an edge tells the edge but for its bindings, and has these in a record. -/
theorem Edge.eq_of_telling (hR : Telling R) {e f : Edge}
    (h : R (.record e.fields) (.record f.fields)) :
    f = { e with bindings := f.bindings } ∧
      Option.Rel R (bindingsValue? e.bindings) (bindingsValue? f.bindings) := by
  have hField (name : String) := hR.field e.nodup_names f.nodup_names h name
  simp only [fields, Value.named_append, Value.field?_append, Value.field?_optionalField] at hField
  have hTargets : e.targets = f.targets :=
    hR.texts (by simpa [Value.named, Value.field?] using hField "targets")
  have hRule : e.rule = f.rule :=
    hR.text (by simpa [Value.named, Value.field?] using hField "rule")
  have hSources : e.sources = f.sources :=
    hR.optionalTexts (by simpa [Value.named, Value.field?] using hField "sources")
  have hDependencies : e.dependencies = f.dependencies :=
    hR.optionalTexts (by simpa [Value.named, Value.field?] using hField "dependencies")
  have hOrderOnly : e.orderOnly = f.orderOnly :=
    hR.optionalTexts (by simpa [Value.named, Value.field?] using hField "order_deps")
  have hPool : e.pool = f.pool :=
    hR.optionalText (by simpa [Value.named, Value.field?] using hField "pool")
  refine ⟨?_, by simpa [Value.named, Value.field?] using hField "assigns"⟩
  rw [hTargets, hRule, hSources, hDependencies, hOrderOnly, hPool]

theorem Binding.eq_of_telling (hR : Telling R) {b c : Binding}
    (h : R (.record b.fields) (.record c.fields)) : b = c := by
  have hNames (b : Binding) : (b.fields.map Prod.fst).Nodup := by simp [fields]
  have hField (name : String) := hR.field (hNames b) (hNames c) h name
  have hName : b.name = c.name :=
    hR.scalar (by simpa [fields, Value.named, Value.field?] using hField "name")
  have hValue : b.value = c.value :=
    hR.scalar (by simpa [fields, Value.named, Value.field?] using hField "value")
  cases b
  cases c
  cases hName
  cases hValue
  rfl

/-! ## Bindings of edges -/

namespace Edge

theorem of_bindingsValue? {bs cs : List (String × Scalar)}
    (h : Option.Rel R (bindingsValue? bs) (bindingsValue? cs)) :
    bs = [] ∧ cs = [] ∨ R (.record (bs.map fun b => (b.1, b.2.toValue)))
      (.record (cs.map fun b => (b.1, b.2.toValue))) := by
  unfold bindingsValue? at h
  cases bs with
  | nil =>
      cases cs with
      | nil => exact Or.inl ⟨rfl, rfl⟩
      | cons c cs => cases h
  | cons b bs =>
      cases cs with
      | nil => cases h
      | cons c cs =>
          cases h with
          | some hRecord => exact Or.inr hRecord

theorem bindings_eq {bs cs : List (String × Scalar)}
    (h : Option.Rel Value.SameInOrder (bindingsValue? bs) (bindingsValue? cs)) : bs = cs := by
  rcases of_bindingsValue? h with ⟨rfl, rfl⟩ | hRecord
  · rfl
  · have hEntries := hRecord.entries
    simp only [Value.named, List.map_map, List.forall₂_map_left_iff, List.forall₂_map_right_iff]
      at hEntries
    refine List.forall₂_eq_eq_eq ▸ hEntries.imp ?_
    rintro ⟨name, s⟩ ⟨name', t⟩ ⟨hName, hValue⟩
    cases hName
    exact congrArg (Prod.mk name) (Value.SameInOrder.scalar hValue)

theorem field?_bindings (name : String) (bs : List (String × Scalar)) :
    Value.field? name (Value.named (bs.map fun b => (b.1, b.2.toValue))) =
      (Entries.find? (· == ·) name bs).map Scalar.toValue := by
  induction bs with
  | nil => rfl
  | cons b bs ih =>
      obtain ⟨other, s⟩ := b
      by_cases hName : other = name
      · subst hName
        simp [Value.named, Value.field?, Entries.find?]
      · simp only [Value.named, List.map_cons, Value.field?, Entries.find?, if_neg hName,
          beq_iff_eq] at ih ⊢
        exact ih

theorem bindings_perm (hR : Telling R) {bs cs : List (String × Scalar)}
    (hb : (bs.map Prod.fst).Nodup) (hc : (cs.map Prod.fst).Nodup)
    (h : Option.Rel R (bindingsValue? bs) (bindingsValue? cs)) : bs.Perm cs := by
  rcases of_bindingsValue? h with ⟨rfl, rfl⟩ | hRecord
  · exact .refl _
  · have hNames {bs : List (String × Scalar)} (hb : (bs.map Prod.fst).Nodup) :
        ((bs.map fun b => (b.1, b.2.toValue)).map Prod.fst).Nodup := by
      rwa [List.map_map]
    have hFind (name : String) :
        Entries.find? (· == ·) name bs = Entries.find? (· == ·) name cs := by
      have hField := hR.field (hNames hb) (hNames hc) hRecord name
      rw [field?_bindings, field?_bindings] at hField
      exact Telling.optional (fun _ _ => hR.scalar) hField
    refine (List.perm_ext_iff_of_nodup hb.of_map hc.of_map).2 ?_
    rintro ⟨name, s⟩
    rw [← Entries.find?_eq_some hb, ← Entries.find?_eq_some hc, hFind]

end Edge

end NinjaFile
