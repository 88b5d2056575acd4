import NinjaFile.Proofs.Layout.Documents
import NinjaFile.Proofs.Manifest.Same
import NinjaFile.Proofs.Text.Octets

/-!
# Manifests of documents

The manifest of a reachable document is a manifest of data
(`data_ofDocument`): its records have every name once, and its digest is not
empty. The atoms are those of the scalars that can be written and of the flags,
whichever these are.
-/

namespace NinjaFile

variable {atom key : Value → Bool}

/-! ## Records of clauses -/

theorem Value.data_texts (hSuits : Suits atom key) (names : List String) :
    (Value.texts names).Data atom key := by
  refine .array ?_
  intro v hv
  obtain ⟨s, -, rfl⟩ := List.mem_map.1 hv
  exact data_text hSuits s

def Value.HasScalars (atom : Value → Bool) : Prop :=
  ∀ (s : Scalar) (written : String), s.text? = .ok written → atom s.toValue = true

theorem Scalar.data_toValue (hScalars : Value.HasScalars atom) {s : Scalar} {written : String}
    (h : s.text? = .ok written) : s.toValue.Data atom key := by
  refine .atom ?_ (hScalars s written h)
  cases s <;> rfl

def Rule.flags (r : Rule) : List Flag :=
  r.restat.toList ++ r.generator.toList

theorem Flag.isAtom_toValue (f : Flag) : f.toValue.isAtom = true := by
  cases f with
  | float x =>
      rw [toValue, Value.ofFloat]
      split <;> rfl
  | _ => rfl

theorem Rule.forall_fields {P : Value → Prop} (r : Rule) (hText : ∀ s, P (.text s))
    (hFlags : ∀ f ∈ r.flags, P f.toValue) : ∀ f ∈ r.fields, P f.2 := by
  have hOptional := Value.forall_optionalText hText
  have hFlag (flag : Option Flag) (hMem : ∀ f ∈ flag, f ∈ r.flags) :
      ∀ v ∈ flag.map Flag.toValue, P v := by
    intro v hv
    obtain ⟨f, hf, rfl⟩ := Option.map_eq_some_iff.1 hv
    exact hFlags f (hMem f hf)
  have hRestat := hFlag r.restat fun f hf => List.mem_append_left _ (Option.mem_toList.2 hf)
  have hGenerator := hFlag r.generator fun f hf => List.mem_append_right _ (Option.mem_toList.2 hf)
  have hBase : ∀ f ∈ [("name", Value.text r.name), ("command", Value.text r.command)], P f.2 := by
    simp only [List.forall_mem_cons, List.not_mem_nil, false_implies, implies_true, and_true]
    exact ⟨hText _, hText _⟩
  exact Value.forall_optional (Value.forall_optional (Value.forall_optional (Value.forall_optional
    (Value.forall_optional hBase _ (hOptional _)) _ hRestat) _ hGenerator) _ (hOptional _)) _
    (hOptional _)

theorem Rule.nodup_names (r : Rule) : (r.fields.map Prod.fst).Nodup := by
  have hNames : (r.fields.map Prod.fst).Sublist
      ["name", "command", "description", "restat", "generator", "pool", "depfile"] :=
    Value.names_optional (Value.names_optional (Value.names_optional (Value.names_optional
      (Value.names_optional (List.Sublist.refl _) "description" _) "restat" _) "generator" _)
      "pool" _) "depfile" _
  exact hNames.nodup (by decide)

theorem Rule.data_record (hSuits : Value.Suits atom key) {r : Rule}
    (hFlags : ∀ f ∈ r.flags, atom f.toValue = true) : (Value.record r.fields).Data atom key := by
  exact Value.data_record hSuits r.nodup_names
    (r.forall_fields (Value.data_text hSuits) fun f hf => .atom f.isAtom_toValue (hFlags f hf))

theorem Edge.forall_fields {P : Value → Prop} (e : Edge) (hText : ∀ s, P (.text s))
    (hTexts : ∀ names, P (.texts names)) (hBindings : ∀ v ∈ bindingsValue? e.bindings, P v) :
    ∀ f ∈ e.fields, P f.2 := by
  have hOptional (names : Option (List String)) : ∀ v ∈ names.map Value.texts, P v := by
    intro v hv
    obtain ⟨ns, -, rfl⟩ := Option.map_eq_some_iff.1 hv
    exact hTexts ns
  have hBase : ∀ f ∈ [("targets", Value.texts e.targets), ("rule", Value.text e.rule)], P f.2 := by
    simp only [List.forall_mem_cons, List.not_mem_nil, false_implies, implies_true, and_true]
    exact ⟨hTexts _, hText _⟩
  exact Value.forall_optional (Value.forall_optional (Value.forall_optional (Value.forall_optional
    (Value.forall_optional hBase _ (hOptional _)) _ (hOptional _)) _ (hOptional _)) _ hBindings) _
    (Value.forall_optionalText hText _)

theorem Edge.mem_bindingsValue? {bindings : List (String × Scalar)} {v : Value}
    (h : v ∈ bindingsValue? bindings) : v = .record (bindings.map fun b => (b.1, b.2.toValue)) := by
  unfold bindingsValue? at h
  split at h
  · cases h
  · cases h
    rfl

theorem Edge.nodup_names (e : Edge) : (e.fields.map Prod.fst).Nodup := by
  have hNames : (e.fields.map Prod.fst).Sublist
      ["targets", "rule", "sources", "dependencies", "order_deps", "assigns", "pool"] :=
    Value.names_optional (Value.names_optional (Value.names_optional (Value.names_optional
      (Value.names_optional (List.Sublist.refl _) "sources" _) "dependencies" _) "order_deps" _)
      "assigns" _) "pool" _
  exact hNames.nodup (by decide)

theorem Edge.data_record (hSuits : Value.Suits atom key) (hScalars : Value.HasScalars atom)
    {e : Edge} (hSound : e.Sound) (hWritten : e.Written) :
    (Value.record e.fields).Data atom key := by
  have hBindings : ∀ v ∈ bindingsValue? e.bindings, v.Data atom key := by
    intro v hv
    rw [mem_bindingsValue? hv]
    apply Value.data_record hSuits
    · rw [List.map_map]
      exact hSound.names
    · intro f hf
      obtain ⟨b, hb, rfl⟩ := List.mem_map.1 hf
      exact Scalar.data_toValue hScalars (hWritten b hb)
  exact Value.data_record hSuits e.nodup_names
    (e.forall_fields (Value.data_text hSuits) (Value.data_texts hSuits) hBindings)

theorem Binding.data_record (hSuits : Value.Suits atom key) (hScalars : Value.HasScalars atom)
    {b : Binding} (h : b.Written) : (Value.record b.fields).Data atom key := by
  refine Value.data_record hSuits (by simp [fields]) ?_
  simp only [fields, List.forall_mem_cons, List.not_mem_nil, false_implies, implies_true, and_true]
  exact ⟨Scalar.data_toValue hScalars h.name, Scalar.data_toValue hScalars h.value⟩

/-! ## Documents -/

namespace Manifest

/-- **The manifest of a reachable document is one of data.** -/
theorem data_ofDocument (hSuits : Value.Suits atom key) (hScalars : Value.HasScalars atom)
    {d : Document} (hReachable : d.Reachable)
    (hFlags : ∀ r ∈ d.rules, ∀ f ∈ r.flags, atom f.toValue = true) {m : Manifest}
    (h : ofDocument d = .ok m) : m.Data atom key := by
  obtain ⟨digest, hDigest, hManifest⟩ := Outcome.bind_eq_ok.1 h
  obtain ⟨text, hText, hHex⟩ := Outcome.bind_eq_ok.1 hDigest
  obtain ⟨hWritten, -⟩ := Document.toList_of_render hText
  cases hManifest
  -- a digest has sixty-four digits
  have hNonempty : digest ≠ "" := by
    rintro rfl
    have hLength := Sha256.length_hex (Octets.ofText text)
    rw [Except.ok.inj hHex] at hLength
    cases hLength
  have records {α : Type} {xs : List α} {f : α → List (String × Value)}
      (hRecords : ∀ x ∈ xs, (Value.record (f x)).Data atom key) :
      (records (xs.map fun x => Value.named (f x))).Data atom key := by
    refine .array ?_
    intro v hv
    obtain ⟨x, hx, rfl⟩ := exists_of_mem_records hv
    exact hRecords x hx
  refine ⟨Or.inl rfl, hNonempty, ?_, ?_, ?_⟩
  · exact records fun r hr => Rule.data_record hSuits (hFlags r hr)
  · exact records fun e he =>
      Edge.data_record hSuits hScalars (hReachable.sound e he) (hWritten.edges e he)
  · exact records fun b hb => Binding.data_record hSuits hScalars (hWritten.bindings b hb)

/-- The manifest of a small document tells its flag. -/
theorem flag_of_same_small {flag flag' : Flag} {dependencies : Option (List String)}
    {level : Scalar} {m n : Manifest}
    (hm : ofDocument (Document.small flag dependencies level) = .ok m)
    (hn : ofDocument (Document.small flag' dependencies level) = .ok n) (h : m.Same n) :
    Value.Same flag.toValue flag'.toValue := by
  obtain ⟨_, -, hManifest⟩ := Outcome.bind_eq_ok.1 hm
  obtain ⟨_, -, hManifest'⟩ := Outcome.bind_eq_ok.1 hn
  cases hManifest
  cases hManifest'
  have hRule : Value.Same
      (.record [("name", .text "cc"), ("command", .text "gcc -c $in"), ("restat", flag.toValue)])
      (.record
        [("name", .text "cc"), ("command", .text "gcc -c $in"), ("restat", flag'.toValue)]) :=
    h.rules.of_array (i := 0) rfl rfl
  exact hRule.of_map (k := .text "restat") (Value.nodup_keys_named (by simp))
    (by simp [Value.named]) (by simp [Value.named])

end Manifest

end NinjaFile
