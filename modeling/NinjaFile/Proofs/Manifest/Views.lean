import NinjaFile.Proofs.Manifest.Clauses
import NinjaFile.Proofs.Manifest.Json
import NinjaFile.Proofs.Manifest.Written

/-!
# Texts and manifests are views of the same declarations

The digest of a manifest says no more than its other fields: documents whose manifests
are alike but for the digest have one text, and so have documents whose manifests have
one export without the digest, up to the order of the bindings of edges
(`render_of_views`). The manifests are compared under a relation that is `Telling`, which
leaves open only how flags were given and in which order edges bind
(`render_of_alike`).

Nothing more can be said of the exports: documents that differ in the order of the
bindings of edges have one export without the digest (`undigestedJson_of_reordered`).
-/

namespace NinjaFile

open Value (Telling)

variable {R : Value → Value → Prop}

/-! ## Documents -/

structure Edge.Reordered (e f : Edge) : Prop where
  others : f = { e with bindings := f.bindings }
  bindings : e.bindings.Perm f.bindings

structure Document.Reordered (d c : Document) : Prop where
  others : c = { d with edges := c.edges }
  edges : List.Forall₂ Edge.Reordered d.edges c.edges

theorem Document.render_congr {d c : Document} (hHeader : d.header = c.header)
    (hVersion : d.version = c.version) (hBuildDir : d.buildDir = c.buildDir)
    (hDefault : d.defaultTarget = c.defaultTarget)
    (hRules : List.Forall₂ (fun r s => r.text = s.text) d.rules c.rules)
    (hEdges : d.edges = c.edges) (hBindings : d.bindings = c.bindings) : d.render = c.render := by
  have hTexts : d.rules.map (fun r => (.ok r.text : Piece)) = c.rules.map fun r => .ok r.text := by
    rw [← List.forall₂_eq_eq_eq, List.forall₂_map_left_iff, List.forall₂_map_right_iff]
    exact hRules.imp fun _ _ h => congrArg Except.ok h
  rw [render, render, pieces, pieces, hHeader, hVersion, hBuildDir, hDefault, hTexts, hEdges,
    hBindings]

namespace Manifest

/-- Two manifests that are alike in every field but the digest. -/
structure Alike (R : Value → Value → Prop) (m n : Manifest) : Prop where
  schemaVersion : R m.schemaVersion n.schemaVersion
  requiredVersion : m.requiredVersion = n.requiredVersion
  buildDir : m.buildDir = n.buildDir
  header : m.header = n.header
  defaultTarget : m.defaultTarget = n.defaultTarget
  rules : R (records m.rules) (records n.rules)
  edges : R (records m.edges) (records n.edges)
  bindings : R (records m.bindings) (records n.bindings)

theorem forall₂_records (hR : Telling R) {α : Type} {f : α → List (String × Value)} {xs ys : List α}
    (h : R (records (xs.map fun x => Value.named (f x)))
      (records (ys.map fun x => Value.named (f x)))) :
    List.Forall₂ (fun x y => R (.record (f x)) (.record (f y))) xs ys := by
  have hItems := hR.items h
  rw [List.map_map, List.map_map, List.forall₂_map_left_iff, List.forall₂_map_right_iff] at hItems
  exact hItems

/-- What alike manifests tell of their documents: everything but how flags were given and in which
order edges bind. -/
theorem render_of_alike (hR : Telling R) {d d' : Document} {m m' : Manifest}
    (h : ofDocument d = .ok m) (h' : ofDocument d' = .ok m') (hAlike : m.Alike R m') :
    List.Forall₂ (fun e f => R (.record e.fields) (.record f.fields)) d.edges d'.edges ∧
      ({ d with edges := d'.edges } : Document).render = d'.render := by
  obtain ⟨_, -, hm⟩ := Outcome.bind_eq_ok.1 h
  obtain ⟨_, -, hm'⟩ := Outcome.bind_eq_ok.1 h'
  cases hm
  cases hm'
  have hRules := forall₂_records hR hAlike.rules
  have hBindings := forall₂_records hR hAlike.bindings
  refine ⟨forall₂_records hR hAlike.edges, ?_⟩
  refine Document.render_congr hAlike.header hAlike.requiredVersion hAlike.buildDir
    hAlike.defaultTarget (hRules.imp fun _ _ => Rule.text_of_telling hR) rfl ?_
  exact List.forall₂_eq_eq_eq ▸ hBindings.imp fun _ _ => Binding.eq_of_telling hR

/-! ## Without the digest -/

def undigested (m : Manifest) : Value :=
  .record (m.fields.filter (·.1 != "digest"))

/-- The JSON export without the digest. -/
def undigestedJson (m : Manifest) : Except Fault String := do
  let text ← Fault.ofUnwritable (m.undigested.jsonText .indented true)
  return text ++ "\n"

theorem field?_filter {name other : String} (h : name ≠ other) (fs : List (String × Value)) :
    Value.field? name (Value.named (fs.filter (·.1 != other))) =
      Value.field? name (Value.named fs) := by
  induction fs with
  | nil => rfl
  | cons f fs ih =>
      obtain ⟨first, v⟩ := f
      by_cases hDropped : first = other
      · have hFirst : Value.text first ≠ .text name := by
          rw [hDropped]
          exact fun hText => h (Value.text.inj hText).symm
        rw [List.filter_cons_of_neg (by simpa using hDropped), ih]
        exact (Value.field?_cons_of_ne hFirst v _).symm
      · rw [List.filter_cons_of_pos (by simpa using hDropped)]
        simp only [Value.named, List.map_cons, Value.field?] at ih ⊢
        rw [ih]

theorem alike_of_undigested (hR : Telling R) {m n : Manifest} (h : R m.undigested n.undigested) :
    m.Alike R n := by
  have hNames (m : Manifest) : ((m.fields.filter (·.1 != "digest")).map Prod.fst).Nodup :=
    m.nodup_names.sublist (List.filter_sublist.map Prod.fst)
  have hField {name : String} (hName : name ≠ "digest") :
      Option.Rel R (Value.field? name (Value.named m.fields))
        (Value.field? name (Value.named n.fields)) := by
    rw [← field?_filter hName m.fields, ← field?_filter hName n.fields]
    exact hR.field (hNames m) (hNames n) h name
  have value {name : String} (hName : name ≠ "digest") {v w : Value}
      (hv : Value.field? name (Value.named m.fields) = some v)
      (hw : Value.field? name (Value.named n.fields) = some w) : R v w := by
    have hRel := hField hName
    rw [hv, hw] at hRel
    cases hRel with
    | some hRel => exact hRel
  have text {name : String} (hName : name ≠ "digest") {s t : Option String}
      (hs : Value.field? name (Value.named m.fields) = s.map .text)
      (ht : Value.field? name (Value.named n.fields) = t.map .text) : s = t := by
    have hRel := hField hName
    rw [hs, ht] at hRel
    exact hR.optionalText hRel
  have hm := m.carries_fields
  have hn := n.carries_fields
  exact ⟨value (by decide) hm.schemaVersion hn.schemaVersion,
    text (by decide) hm.requiredVersion hn.requiredVersion,
    text (by decide) hm.buildDir hn.buildDir, text (by decide) hm.header hn.header,
    text (by decide) hm.defaultTarget hn.defaultTarget, value (by decide) hm.rules hn.rules,
    value (by decide) hm.edges hn.edges, value (by decide) hm.bindings hn.bindings⟩

theorem writtenAlike_of_undigestedJson {m n : Manifest} {exported : String}
    (hm : m.undigestedJson = .ok exported) (hn : n.undigestedJson = .ok exported) :
    Value.WrittenAlike m.undigested n.undigested := by
  have form {m : Manifest} (h : m.undigestedJson = .ok exported) :
      ∃ j, m.undigested.toJson true = .ok j ∧ exported = j.toText .indented ++ "\n" := by
    obtain ⟨text, hText, hExported⟩ := Outcome.bind_eq_ok.1 h
    obtain ⟨j, hForm, hPrinted⟩ := Outcome.bind_eq_ok.1 (Fault.ofUnwritable_eq_ok.1 hText)
    cases hExported
    cases hPrinted
    exact ⟨j, hForm, rfl⟩
  obtain ⟨j, hj, hText⟩ := form hm
  obtain ⟨k, hk, hText'⟩ := form hn
  have hSame : j.toText .indented = k.toText .indented :=
    (String.append_left_inj _).1 (hText.symm.trans hText')
  exact ⟨j, k, hj, hk, Json.spelled_of_toText Json.Layout.blank_indented hSame⟩

/-- **Texts and manifests are views of the same declarations.** Reachable documents whose manifests
agree in every field but the digest have one text. If only the JSON exports without the digest
agree, their texts differ at most in the order of the bindings inside each edge. -/
theorem render_of_views {d d' : Document} (hd : d.Reachable) (hd' : d'.Reachable) {m m' : Manifest}
    (h : ofDocument d = .ok m) (h' : ofDocument d' = .ok m') :
    (m.Alike Value.SameInOrder m' → ∃ text, d.render = .ok text ∧ d'.render = .ok text) ∧
      ∀ exported, m.undigestedJson = .ok exported → m'.undigestedJson = .ok exported →
        ∃ c, d.Reordered c ∧ ∃ text, c.render = .ok text ∧ d'.render = .ok text := by
  obtain ⟨text, hText⟩ : ∃ text, d'.render = .ok text := by
    obtain ⟨_, hDigest, -⟩ := Outcome.bind_eq_ok.1 h'
    obtain ⟨text, hText, -⟩ := Outcome.bind_eq_ok.1 hDigest
    exact ⟨text, hText⟩
  constructor
  · intro hAlike
    obtain ⟨hEdges, hRender⟩ := render_of_alike Value.telling_sameInOrder h h' hAlike
    -- in records that are the same in order the bindings come in one order
    have hSame : d.edges = d'.edges := by
      refine List.forall₂_eq_eq_eq ▸ hEdges.imp ?_
      intro e f hRecord
      obtain ⟨hOthers, hBindings⟩ := Edge.eq_of_telling Value.telling_sameInOrder hRecord
      rw [hOthers, ← Edge.bindings_eq hBindings]
    rw [← hSame] at hRender
    exact ⟨text, hRender.trans hText, hText⟩
  · intro exported hExported hExported'
    have hAlike := alike_of_undigested Value.telling_writtenAlike
      (writtenAlike_of_undigestedJson hExported hExported')
    obtain ⟨hEdges, hRender⟩ := render_of_alike Value.telling_writtenAlike h h' hAlike
    obtain ⟨hLength, hRecords⟩ := List.forall₂_iff_zip.1 hEdges
    -- names in a record tell the bindings of an edge, since no name is bound twice
    have hReordered : List.Forall₂ Edge.Reordered d.edges d'.edges := by
      refine List.forall₂_iff_zip.2 ⟨hLength, ?_⟩
      intro e f hPair
      obtain ⟨he, hf⟩ := List.of_mem_zip hPair
      obtain ⟨hOthers, hBindings⟩ :=
        Edge.eq_of_telling Value.telling_writtenAlike (hRecords hPair)
      exact ⟨hOthers, Edge.bindings_perm Value.telling_writtenAlike (hd.sound e he).names
        (hd'.sound f hf).names hBindings⟩
    exact ⟨{ d with edges := d'.edges }, ⟨rfl, hReordered⟩, text, hRender.trans hText, hText⟩

/-! ## What the export hides -/

theorem toJson_of_reordered {e f : Edge} (h : e.Reordered f)
    (hNames : (e.bindings.map Prod.fst).Nodup) :
    Value.toJson true (.record e.fields) = Value.toJson true (.record f.fields) := by
  have refl (fs : List (String × Value)) :
      List.Forall₂ (fun f g => f.1 = g.1 ∧ Value.toJson true f.2 = Value.toJson true g.2) fs fs :=
    List.forall₂_same.2 fun _ _ => ⟨rfl, rfl⟩
  have hAssigns : List.Forall₂
      (fun f g => f.1 = g.1 ∧ Value.toJson true f.2 = Value.toJson true g.2)
      (Value.optionalField "assigns" (Edge.bindingsValue? e.bindings))
      (Value.optionalField "assigns" (Edge.bindingsValue? f.bindings)) := by
    unfold Edge.bindingsValue?
    rw [h.bindings.isEmpty_eq]
    split
    · exact .nil
    · refine .cons ⟨rfl, Value.toJson_record_of_perm ?_ (h.bindings.map _)⟩ .nil
      rwa [List.map_map]
  refine Value.toJson_record_congr ?_
  rw [h.others]
  unfold Edge.fields
  exact List.rel_append (List.rel_append (refl _) hAssigns) (refl _)

/-- Two fields of one name that are the digest or have one form. -/
def SameForm (f g : String × Value) : Prop :=
  f.1 = g.1 ∧ (f.1 ≠ "digest" → f.2.toJson true = g.2.toJson true)

theorem undigestedJson_of_alike {m n : Manifest}
    (h : m.Alike (fun v w => v.toJson true = w.toJson true) n) :
    m.undigestedJson = n.undigestedJson := by
  have hFields : List.Forall₂ SameForm m.fields n.fields := by
    have refl (fs : List (String × Value)) : List.Forall₂ SameForm fs fs :=
      List.forall₂_same.2 fun _ _ => ⟨rfl, fun _ => rfl⟩
    rw [fields, fields, h.requiredVersion, h.buildDir, h.header, h.defaultTarget]
    refine List.rel_append (List.rel_append (List.rel_append (List.rel_append ?_ (refl _))
      (refl _)) (refl _)) (refl _)
    exact .cons ⟨rfl, fun _ => h.schemaVersion⟩ (.cons ⟨rfl, fun hDigest => absurd rfl hDigest⟩
      (.cons ⟨rfl, fun _ => h.rules⟩ (.cons ⟨rfl, fun _ => h.edges⟩
        (.cons ⟨rfl, fun _ => h.bindings⟩ .nil))))
  have hKept (f g : String × Value) (hSame : SameForm f g) :
      (f.1 != "digest") = true ↔ (g.1 != "digest") = true := by
    rw [hSame.1]
  have hFiltered : List.Forall₂ SameForm (m.fields.filter (·.1 != "digest"))
      (n.fields.filter (·.1 != "digest")) :=
    List.rel_filter hKept hFields
  have hForm : m.undigested.toJson true = n.undigested.toJson true := by
    obtain ⟨hLength, hEach⟩ := List.forall₂_iff_zip.1 hFiltered
    refine Value.toJson_record_congr (List.forall₂_iff_zip.2 ⟨hLength, ?_⟩)
    intro f g hPair
    have hOther : f.1 ≠ "digest" :=
      bne_iff_ne.1 (List.mem_filter.1 (List.of_mem_zip hPair).1).2
    exact ⟨(hEach hPair).1, (hEach hPair).2 hOther⟩
  rw [undigestedJson, undigestedJson, Value.jsonText, Value.jsonText, hForm]

/-- **The export hides the order of bindings inside edges.** Documents that differ only in it have
one export without the digest. -/
theorem undigestedJson_of_reordered {d c : Document} (hd : d.Reachable) (h : d.Reordered c)
    {m n : Manifest} (hm : ofDocument d = .ok m) (hn : ofDocument c = .ok n) :
    m.undigestedJson = n.undigestedJson := by
  obtain ⟨_, -, hm⟩ := Outcome.bind_eq_ok.1 hm
  obtain ⟨_, -, hn⟩ := Outcome.bind_eq_ok.1 hn
  cases hm
  cases hn
  have hEdges : Value.toJson true (records (d.edges.map fun e => Value.named e.fields)) =
      Value.toJson true (records (c.edges.map fun e => Value.named e.fields)) := by
    refine Value.toJson_array_congr ?_
    rw [List.map_map, List.map_map, List.forall₂_map_left_iff, List.forall₂_map_right_iff]
    obtain ⟨hLength, hEach⟩ := List.forall₂_iff_zip.1 h.edges
    refine List.forall₂_iff_zip.2 ⟨hLength, ?_⟩
    intro e f hPair
    exact toJson_of_reordered (hEach hPair) (hd.sound e (List.of_mem_zip hPair).1).names
  apply undigestedJson_of_alike
  rw [h.others]
  exact ⟨rfl, rfl, rfl, rfl, rfl, rfl, hEdges, rfl⟩

theorem Data.exists_undigestedJson {m : Manifest}
    (h : m.Data (Value.isShort Numeral.limit) Value.isText) :
    ∃ exported, m.undigestedJson = .ok exported := by
  have hSuits : Value.Suits (Value.isShort Numeral.limit) Value.isText :=
    Value.suits_isShort (by decide)
  obtain ⟨-, -, hValues⟩ := (h.data_toValue hSuits).of_map
  have hUndigested : m.undigested.Data (Value.isShort Numeral.limit) Value.isText := by
    refine Value.data_record hSuits (m.nodup_names.sublist (List.filter_sublist.map _)) ?_
    intro f hf
    exact hValues (.text f.1, f.2) (List.mem_map_of_mem (List.mem_filter.1 hf).1)
  rw [undigestedJson, hUndigested.jsonText_eq]
  exact ⟨_, rfl⟩

end Manifest

namespace Document

/-- A document with one rule and one edge, which has two bindings. -/
def bound (flag : Flag) (first second : String × Int) : Document where
  rules := [{ name := "cc", restat := some flag }]
  edges := [{ targets := ["a.o"], rule := "cc",
              bindings := [(first.1, .int first.2), (second.1, .int second.2)] }]

theorem reachable_bound (flag : Flag) {first second : String × Int} (h : first.1 ≠ second.1) :
    (bound flag first second).Reachable := by
  refine Reachable.start.edits [.rule "cc", .editRule 0 (.restat (some flag)), .edge (.one "a.o"),
    .editEdge 0 (.rule "cc"), .editEdge 0 (.bind (.text first.1) (.int first.2)),
    .editEdge 0 (.bind (.text second.1) (.int second.2))] ?_
  show Except.ok _ = Except.ok _
  simp [bound, addRule, Rule.edit, Names.toList, Entries.put, h]

end Document

namespace Manifest

open Document in
/-- A zero and its negative for a flag give one text. Two bindings in either order give two texts,
which differ in that order only. -/
theorem render_of_views_small :
    (∃ text, (bound (.float ⟨0⟩) ("opt", 2) ("std", 11)).render = .ok text ∧
      (bound (.float ⟨9223372036854775808⟩) ("opt", 2) ("std", 11)).render = .ok text) ∧
    (bound (.bool true) ("opt", 2) ("std", 11)).render ≠
      (bound (.bool true) ("std", 11) ("opt", 2)).render ∧
    ∃ c, (bound (.bool true) ("opt", 2) ("std", 11)).Reordered c ∧
      ∃ text, c.render = .ok text ∧
        (bound (.bool true) ("std", 11) ("opt", 2)).render = .ok text := by
  have reachable (flag : Flag) : (bound flag ("opt", 2) ("std", 11)).Reachable :=
    reachable_bound flag (by decide)
  refine ⟨?_, ?_, ?_⟩
  · obtain ⟨m, hm⟩ : ∃ m, ofDocument (bound (.float ⟨0⟩) ("opt", 2) ("std", 11)) = .ok m :=
      ⟨_, rfl⟩
    obtain ⟨n, hn⟩ : ∃ n, ofDocument
        (bound (.float ⟨9223372036854775808⟩) ("opt", 2) ("std", 11)) = .ok n := ⟨_, rfl⟩
    refine (render_of_views (reachable _) (reachable _) hm hn).1 ?_
    obtain ⟨_, -, hm⟩ := Outcome.bind_eq_ok.1 hm
    obtain ⟨_, -, hn⟩ := Outcome.bind_eq_ok.1 hn
    cases hm
    cases hn
    have hZeros : Value.SameInOrder (Flag.float ⟨0⟩).toValue
        (Flag.float ⟨9223372036854775808⟩).toValue := .float (by decide)
    exact ⟨.refl _, rfl, rfl, rfl, rfl, .array (.cons (.map rfl (.cons (.refl _) (.cons (.refl _)
      (.cons hZeros .nil)))) .nil), .refl _, .refl _⟩
  · intro h
    exact absurd (Except.ok.inj h) (by decide)
  · obtain ⟨m, hm⟩ : ∃ m, ofDocument (bound (.bool true) ("opt", 2) ("std", 11)) = .ok m :=
      ⟨_, rfl⟩
    obtain ⟨n, hn⟩ : ∃ n, ofDocument (bound (.bool true) ("std", 11) ("opt", 2)) = .ok n :=
      ⟨_, rfl⟩
    have hReordered : (bound (.bool true) ("opt", 2) ("std", 11)).Reordered
        (bound (.bool true) ("std", 11) ("opt", 2)) :=
      ⟨rfl, .cons ⟨rfl, .swap _ _ _⟩ .nil⟩
    have hFlags : ∀ r ∈ (bound (.bool true) ("opt", 2) ("std", 11)).rules, ∀ f ∈ r.flags,
        f.toValue.isShort Numeral.limit = true := by
      intro r hr f hf
      cases List.mem_singleton.1 hr
      cases List.mem_singleton.1 hf
      rfl
    obtain ⟨exported, hExported⟩ :=
      (JsonSource.built (reachable _) hFlags hm).data.exists_undigestedJson
    have hExported' : n.undigestedJson = .ok exported :=
      (undigestedJson_of_reordered (reachable _) hReordered hm hn).symm.trans hExported
    exact (render_of_views (reachable _) (reachable_bound _ (by decide)) hm hn).2 exported
      hExported hExported'

end Manifest

end NinjaFile
