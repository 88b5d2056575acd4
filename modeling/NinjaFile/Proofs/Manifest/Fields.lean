import NinjaFile.Manifest.Basic
import NinjaFile.Proofs.Value.Same

/-!
# The fields of manifests

A manifest and a map agree on the fields if the map has under each name what the
manifest has there (`Carries`). The value of a manifest carries it, to carry it
does not depend on the order of entries, and what is carried is read
(`Carries.ofEntries`). So a manifest whose value is put in order is read back as
the manifest with its records in order (`ofValue_inOrder`).

The other way, everything in a manifest that was read was an entry of the map, or
is the empty list in place of one that was not there (`readFrom_of_ofEntries`).
-/

namespace NinjaFile

namespace Value

/-! ## Looking up a name -/

theorem field?_cons_self (name : String) (v : Value) (es : List (Value × Value)) :
    field? name ((.text name, v) :: es) = some v := by
  rw [field?, if_pos rfl]

theorem field?_cons_of_ne {name : String} {k : Value} (h : k ≠ .text name) (v : Value)
    (es : List (Value × Value)) : field? name ((k, v) :: es) = field? name es := by
  cases k with
  | text s => rw [field?, if_neg fun hName => h (congrArg Value.text hName)]
  | _ => rfl

theorem mem_of_field? {name : String} {es : List (Value × Value)} {v : Value}
    (h : field? name es = some v) : (.text name, v) ∈ es := by
  induction es with
  | nil => cases h
  | cons e es ih =>
      obtain ⟨k, w⟩ := e
      by_cases hKey : k = .text name
      · subst hKey
        rw [field?_cons_self] at h
        cases h
        exact List.mem_cons_self
      · rw [field?_cons_of_ne hKey] at h
        exact List.mem_cons_of_mem _ (ih h)

theorem field?_ne_none {name : String} {es : List (Value × Value)} {v : Value}
    (h : (.text name, v) ∈ es) : field? name es ≠ none := by
  induction es with
  | nil => cases h
  | cons e es ih =>
      obtain ⟨k, w⟩ := e
      by_cases hKey : k = .text name
      · subst hKey
        rw [field?_cons_self]
        exact Option.some_ne_none w
      · rw [field?_cons_of_ne hKey]
        rcases List.mem_cons.1 h with hEq | h
        · exact absurd (congrArg Prod.fst hEq).symm hKey
        · exact ih h

theorem field?_eq_some {name : String} {es : List (Value × Value)} (h : (es.map Prod.fst).Nodup)
    {v : Value} : field? name es = some v ↔ (.text name, v) ∈ es := by
  constructor
  · exact mem_of_field?
  · intro hMem
    cases hField : field? name es with
    | none => exact absurd hField (field?_ne_none hMem)
    | some w => rw [eq_of_mem_of_mem h hMem (mem_of_field? hField)]

theorem field?_append (name : String) (es fs : List (Value × Value)) :
    field? name (es ++ fs) = (field? name es).or (field? name fs) := by
  induction es with
  | nil => rfl
  | cons e es ih =>
      obtain ⟨k, v⟩ := e
      rw [List.cons_append]
      by_cases hKey : k = .text name
      · subst hKey
        rw [field?_cons_self, field?_cons_self, Option.some_or]
      · rw [field?_cons_of_ne hKey, field?_cons_of_ne hKey, ih]

theorem field?_arranged (le : Value → Value → Bool) {name : String} {es : List (Value × Value)}
    (h : (es.map Prod.fst).Nodup) :
    field? name (arranged le es) = (field? name es).map (inOrder le) := by
  have hArranged := (keys_arranged_perm le es).nodup_iff.2 h
  cases hField : field? name es with
  | none =>
      cases hAfter : field? name (arranged le es) with
      | none => rfl
      | some w =>
          obtain ⟨v, hv, -⟩ := (mem_arranged le).1 (mem_of_field? hAfter)
          exact absurd hField (field?_ne_none hv)
  | some v =>
      rw [Option.map_some, field?_eq_some hArranged]
      exact (mem_arranged le).2 ⟨v, mem_of_field? hField, rfl⟩

theorem named_append (fs gs : List (String × Value)) :
    named (fs ++ gs) = named fs ++ named gs :=
  List.map_append

theorem keys_named (fs : List (String × Value)) :
    (named fs).map Prod.fst = (fs.map Prod.fst).map Value.text := by
  rw [named, List.map_map, List.map_map]
  rfl

theorem nodup_keys_named {fs : List (String × Value)} (h : (fs.map Prod.fst).Nodup) :
    ((named fs).map Prod.fst).Nodup := by
  rw [keys_named]
  exact h.map fun s t hst => Value.text.inj hst

theorem field?_optionalField (name other : String) (value : Option Value) :
    field? name (named (optionalField other value)) = if other = name then value else none := by
  cases value with
  | none => simp [optionalField, named, field?]
  | some v => rfl

theorem names_optional {fs : List (String × Value)} {names : List String}
    (h : (fs.map Prod.fst).Sublist names) (name : String) (value : Option Value) :
    ((fs ++ optionalField name value).map Prod.fst).Sublist (names ++ [name]) := by
  rw [List.map_append]
  refine h.append ?_
  cases value with
  | none => exact List.nil_sublist _
  | some v => exact List.Sublist.refl _

theorem forall_optional {P : Value → Prop} {fs : List (String × Value)} (h : ∀ f ∈ fs, P f.2)
    (name : String) {value : Option Value} (hValue : ∀ v ∈ value, P v) :
    ∀ f ∈ fs ++ optionalField name value, P f.2 := by
  intro f hf
  rcases List.mem_append.1 hf with hf | hf
  · exact h f hf
  · cases value with
    | none => cases hf
    | some v =>
        cases List.mem_singleton.1 hf
        exact hValue v rfl

theorem forall_optionalText {P : Value → Prop} (h : ∀ s, P (.text s)) (text : Option String) :
    ∀ v ∈ text.map Value.text, P v := by
  intro v hv
  obtain ⟨s, -, rfl⟩ := Option.map_eq_some_iff.1 hv
  exact h s

end Value

namespace Manifest

theorem forall_fields {P : Value → Prop} (m : Manifest) (hVersion : P m.schemaVersion)
    (hText : ∀ s, P (.text s)) (hRules : P (records m.rules)) (hEdges : P (records m.edges))
    (hBindings : P (records m.bindings)) : ∀ f ∈ m.fields, P f.2 := by
  have hBase : ∀ f ∈ [("schema_version", m.schemaVersion), ("digest", .text m.digest),
      ("rules", records m.rules), ("edges", records m.edges), ("bindings", records m.bindings)],
      P f.2 := by
    simp only [List.forall_mem_cons, List.not_mem_nil, false_implies, implies_true, and_true]
    exact ⟨hVersion, hText _, hRules, hEdges, hBindings⟩
  have hOptional := Value.forall_optionalText hText
  exact Value.forall_optional (Value.forall_optional (Value.forall_optional
    (Value.forall_optional hBase _ (hOptional _)) _ (hOptional _)) _ (hOptional _)) _ (hOptional _)

/-! ## Fields that a map carries -/

/-- A map has the fields of a manifest under their names. -/
structure Carries (es : List (Value × Value)) (m : Manifest) : Prop where
  schemaVersion : Value.field? "schema_version" es = some m.schemaVersion
  digest : Value.field? "digest" es = some (.text m.digest)
  requiredVersion : Value.field? "required_version" es = m.requiredVersion.map .text
  buildDir : Value.field? "build_dir" es = m.buildDir.map .text
  header : Value.field? "header" es = m.header.map .text
  defaultTarget : Value.field? "default" es = m.defaultTarget.map .text
  rules : Value.field? "rules" es = some (records m.rules)
  edges : Value.field? "edges" es = some (records m.edges)
  bindings : Value.field? "bindings" es = some (records m.bindings)

theorem carries_fields (m : Manifest) : Carries (Value.named m.fields) m := by
  constructor <;>
    simp only [fields, Value.named_append, Value.field?_append, Value.field?_optionalField] <;>
    simp [Value.named, Value.field?]

theorem nodup_names (m : Manifest) : (m.fields.map Prod.fst).Nodup := by
  have hNames : (m.fields.map Prod.fst).Sublist ["schema_version", "digest", "rules", "edges",
      "bindings", "required_version", "build_dir", "header", "default"] :=
    Value.names_optional (Value.names_optional (Value.names_optional (Value.names_optional
      (List.Sublist.refl _) "required_version" _) "build_dir" _) "header" _) "default" _
  exact hNames.nodup (by decide)

/-! ## Order -/

def inOrder (le : Value → Value → Bool) (m : Manifest) : Manifest :=
  { m with
    rules := m.rules.map (Value.arranged le)
    edges := m.edges.map (Value.arranged le)
    bindings := m.bindings.map (Value.arranged le) }

theorem records_inOrder (le : Value → Value → Bool) (rs : List (List (Value × Value))) :
    (records rs).inOrder le = records (rs.map (Value.arranged le)) := by
  rw [records, Value.inOrder_array, records, List.map_map, List.map_map]
  congr 1
  exact List.map_congr_left fun es _ => Value.inOrder_map le es

theorem Carries.arranged {es : List (Value × Value)} {m : Manifest} (h : Carries es m)
    (hDistinct : (es.map Prod.fst).Nodup) (hVersion : m.schemaVersion.isAtom = true)
    (le : Value → Value → Bool) : Carries (Value.arranged le es) (m.inOrder le) := by
  have text (s : Option String) : (s.map Value.text).map (Value.inOrder le) = s.map .text := by
    cases s <;> rfl
  constructor <;> rw [Value.field?_arranged le hDistinct]
  · rw [h.schemaVersion, Option.map_some, Value.inOrder_of_isAtom le hVersion]
    rfl
  · rw [h.digest]
    rfl
  · rw [h.requiredVersion]
    exact text _
  · rw [h.buildDir]
    exact text _
  · rw [h.header]
    exact text _
  · rw [h.defaultTarget]
    exact text _
  · rw [h.rules, Option.map_some, records_inOrder]
    rfl
  · rw [h.edges, Option.map_some, records_inOrder]
    rfl
  · rw [h.bindings, Option.map_some, records_inOrder]
    rfl

theorem exists_of_mem_records {α : Type} {xs : List α} {f : α → List (String × Value)} {v : Value}
    (h : v ∈ (xs.map fun x => Value.named (f x)).map Value.map) : ∃ x ∈ xs, v = .record (f x) := by
  obtain ⟨es, hes, rfl⟩ := List.mem_map.1 h
  obtain ⟨x, hx, rfl⟩ := List.mem_map.1 hes
  exact ⟨x, hx, rfl⟩

/-! ## Reading -/

theorem asRecords?_map (rs : List (List (Value × Value))) :
    asRecords? (rs.map .map) = some rs := by
  induction rs with
  | nil => rfl
  | cons es rs ih => rw [List.map_cons, asRecords?, ih, Option.map_some]

theorem textField_eq {name : String} {es : List (Value × Value)} {text : Option String}
    (h : Value.field? name es = text.map .text) : textField name es = .ok text := by
  rw [textField, h]
  cases text <;> rfl

theorem recordsField_eq {name : String} {es : List (Value × Value)}
    {rs : List (List (Value × Value))} (h : Value.field? name es = some (records rs)) :
    recordsField name es = .ok rs := by
  rw [recordsField, h, records]
  simp only [asRecords?_map]

theorem Carries.ofEntries {es : List (Value × Value)} {m : Manifest} (h : Carries es m)
    (hVersion : m.schemaVersion.agrees (.int schema) = true) (hDigest : m.digest ≠ "") :
    ofEntries es = .ok m := by
  have hDigestField : digestField es = .ok m.digest := by
    rw [digestField, h.digest]
    simp only [if_neg hDigest]
  rw [Manifest.ofEntries, h.schemaVersion]
  simp only [Option.getD_some, hVersion, if_true, hDigestField, textField_eq h.requiredVersion,
    textField_eq h.buildDir, textField_eq h.header, textField_eq h.defaultTarget,
    recordsField_eq h.rules, recordsField_eq h.edges, recordsField_eq h.bindings]
  rfl

/-- **A value in order is read as the manifest in order.** -/
theorem ofValue_inOrder (le : Value → Value → Bool) {m : Manifest}
    (hAtom : m.schemaVersion.isAtom = true)
    (hVersion : m.schemaVersion.agrees (.int schema) = true) (hDigest : m.digest ≠ "") :
    ofValue (m.toValue.inOrder le) = .ok (m.inOrder le) := by
  rw [toValue, Value.record, Value.inOrder_map]
  exact (m.carries_fields.arranged (Value.nodup_keys_named m.nodup_names) hAtom le).ofEntries
    hVersion hDigest

/-! ## What was read -/

/-- A value that is among the entries of a map, or the empty array in its place. -/
def Found (es : List (Value × Value)) (v : Value) : Prop :=
  v = .array [] ∨ ∃ k, (k, v) ∈ es

structure ReadFrom (es : List (Value × Value)) (m : Manifest) : Prop where
  version : m.schemaVersion.agrees (.int schema) = true
  digest : m.digest ≠ ""
  rules : Found es (records m.rules)
  edges : Found es (records m.edges)
  bindings : Found es (records m.bindings)

theorem records_of_asRecords? {vs : List Value} {rs : List (List (Value × Value))}
    (h : asRecords? vs = some rs) : records rs = .array vs := by
  induction vs generalizing rs with
  | nil =>
      cases h
      rfl
  | cons v vs ih =>
      cases v with
      | map es =>
          obtain ⟨others, hOthers, rfl⟩ := Option.map_eq_some_iff.1 h
          have hRecords := Value.array.inj (ih hOthers)
          rw [records, List.map_cons, hRecords]
      | _ => cases h

theorem found_of_recordsField {name : String} {es : List (Value × Value)}
    {rs : List (List (Value × Value))} (h : recordsField name es = .ok rs) :
    Found es (records rs) := by
  unfold recordsField at h
  split at h
  · cases h
    exact Or.inl rfl
  · rename_i items hField
    split at h
    · rename_i found hFound
      cases h
      rw [records_of_asRecords? hFound]
      exact Or.inr ⟨_, Value.mem_of_field? hField⟩
    · cases h
  · cases h

theorem ne_of_digestField {es : List (Value × Value)} {digest : String}
    (h : digestField es = .ok digest) : digest ≠ "" := by
  unfold digestField at h
  split at h
  · split at h
    · cases h
    · cases h
      assumption
  · cases h

structure Parsed (es : List (Value × Value)) (m : Manifest) : Prop where
  current : m.schemaVersion.agrees (.int schema) = true
  schemaVersion : (Value.field? "schema_version" es).getD .null = m.schemaVersion
  digest : digestField es = .ok m.digest
  requiredVersion : textField "required_version" es = .ok m.requiredVersion
  buildDir : textField "build_dir" es = .ok m.buildDir
  header : textField "header" es = .ok m.header
  defaultTarget : textField "default" es = .ok m.defaultTarget
  rules : recordsField "rules" es = .ok m.rules
  edges : recordsField "edges" es = .ok m.edges
  bindings : recordsField "bindings" es = .ok m.bindings

theorem parsed_of_ofEntries {es : List (Value × Value)} {m : Manifest}
    (h : ofEntries es = .ok m) : Parsed es m := by
  simp only [ofEntries] at h
  split at h
  · rename_i hVersion
    obtain ⟨digest, hDigest, h⟩ := Outcome.bind_eq_ok.1 h
    obtain ⟨requiredVersion, hRequiredVersion, h⟩ := Outcome.bind_eq_ok.1 h
    obtain ⟨buildDir, hBuildDir, h⟩ := Outcome.bind_eq_ok.1 h
    obtain ⟨header, hHeader, h⟩ := Outcome.bind_eq_ok.1 h
    obtain ⟨defaultTarget, hDefault, h⟩ := Outcome.bind_eq_ok.1 h
    obtain ⟨rules, hRules, h⟩ := Outcome.bind_eq_ok.1 h
    obtain ⟨edges, hEdges, h⟩ := Outcome.bind_eq_ok.1 h
    obtain ⟨bindings, hBindings, h⟩ := Outcome.bind_eq_ok.1 h
    cases h
    exact ⟨hVersion, rfl, hDigest, hRequiredVersion, hBuildDir, hHeader, hDefault, hRules, hEdges,
      hBindings⟩
  · obtain ⟨shown, -, h⟩ := Outcome.bind_eq_ok.1 h
    cases h

/-- **What was read was there.** -/
theorem readFrom_of_ofEntries {es : List (Value × Value)} {m : Manifest}
    (h : ofEntries es = .ok m) : ReadFrom es m :=
  let parsed := parsed_of_ofEntries h
  ⟨parsed.current, ne_of_digestField parsed.digest, found_of_recordsField parsed.rules,
    found_of_recordsField parsed.edges, found_of_recordsField parsed.bindings⟩

theorem exists_of_ofValue {v : Value} {m : Manifest} (h : ofValue v = .ok m) :
    ∃ es, v = .map es ∧ ReadFrom es m := by
  cases v with
  | map es => exact ⟨es, rfl, readFrom_of_ofEntries h⟩
  | _ => cases h

end Manifest

end NinjaFile
