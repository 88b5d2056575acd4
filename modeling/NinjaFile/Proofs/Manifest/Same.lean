import NinjaFile.Proofs.Manifest.Fields

/-!
# Manifests of data

Sameness of manifests is equality of their texts and sameness of the rest, which
also tells the versions `1` and `true` apart. A manifest whose records are data is
the same as its records in order (`Data.same_inOrder`), and two such manifests are
the same exactly when their values have one form in order
(`Data.same_iff_toValue_inOrder`).
-/

namespace NinjaFile

/-- The atoms and keys that every manifest needs. -/
structure Value.Suits (atom key : Value → Bool) : Prop where
  key : ∀ s, key (.text s) = true
  text : ∀ s, atom (.text s) = true
  bool : ∀ b, atom (.bool b) = true
  version : atom (.int Manifest.schema) = true

namespace Value

variable {atom key : Value → Bool}

theorem data_record (hSuits : Suits atom key) {fs : List (String × Value)}
    (hNames : (fs.map Prod.fst).Nodup) (hValues : ∀ f ∈ fs, f.2.Data atom key) :
    (record fs).Data atom key := by
  refine .map ?_ (nodup_keys_named hNames) ?_
  · intro e he
    obtain ⟨f, -, rfl⟩ := List.mem_map.1 he
    exact hSuits.key f.1
  · intro e he
    obtain ⟨f, hf, rfl⟩ := List.mem_map.1 he
    exact hValues f hf

theorem data_text (hSuits : Suits atom key) (s : String) : (Value.text s).Data atom key :=
  .atom rfl (hSuits.text s)

end Value

namespace Manifest

/-! ## Sameness -/

/-- Two manifests that differ at most in the order of entries. -/
structure Same (m n : Manifest) : Prop where
  schemaVersion : m.schemaVersion = n.schemaVersion
  digest : m.digest = n.digest
  requiredVersion : m.requiredVersion = n.requiredVersion
  buildDir : m.buildDir = n.buildDir
  header : m.header = n.header
  defaultTarget : m.defaultTarget = n.defaultTarget
  rules : Value.Same (records m.rules) (records n.rules)
  edges : Value.Same (records m.edges) (records n.edges)
  bindings : Value.Same (records m.bindings) (records n.bindings)

theorem Same.symm {m n : Manifest} (h : Same m n) : Same n m :=
  ⟨h.schemaVersion.symm, h.digest.symm, h.requiredVersion.symm, h.buildDir.symm, h.header.symm,
    h.defaultTarget.symm, h.rules.symm, h.edges.symm, h.bindings.symm⟩

theorem Same.trans {l m n : Manifest} (h : Same l m) (h' : Same m n) : Same l n :=
  ⟨h.schemaVersion.trans h'.schemaVersion, h.digest.trans h'.digest,
    h.requiredVersion.trans h'.requiredVersion, h.buildDir.trans h'.buildDir,
    h.header.trans h'.header, h.defaultTarget.trans h'.defaultTarget, h.rules.trans h'.rules,
    h.edges.trans h'.edges, h.bindings.trans h'.bindings⟩

/-! ## Data -/

structure MadeOf (atom key : Value → Bool) (m : Manifest) : Prop where
  version : atom m.schemaVersion = true
  rules : (records m.rules).MadeOf atom key
  edges : (records m.edges).MadeOf atom key
  bindings : (records m.bindings).MadeOf atom key

/-- A manifest that can be read again, with data for its records. -/
structure Data (atom key : Value → Bool) (m : Manifest) : Prop where
  version : m.schemaVersion = .int schema ∨ m.schemaVersion = .bool true
  digest : m.digest ≠ ""
  rules : (records m.rules).Data atom key
  edges : (records m.edges).Data atom key
  bindings : (records m.bindings).Data atom key

variable {atom key : Value → Bool} {m n : Manifest}

theorem Data.isAtom (h : m.Data atom key) : m.schemaVersion.isAtom = true := by
  rcases h.version with hVersion | hVersion <;> rw [hVersion] <;> rfl

theorem Data.agrees (h : m.Data atom key) : m.schemaVersion.agrees (.int schema) = true := by
  rcases h.version with hVersion | hVersion <;> rw [hVersion] <;> decide

theorem Data.ofValue_inOrder (h : m.Data atom key) (le : Value → Value → Bool) :
    ofValue (m.toValue.inOrder le) = .ok (m.inOrder le) :=
  Manifest.ofValue_inOrder le h.isAtom h.agrees h.digest

/-- **Order does not change a manifest of data.** -/
theorem Data.same_inOrder (h : m.Data atom key) (le : Value → Value → Bool) :
    Same (m.inOrder le) m := by
  refine ⟨rfl, rfl, rfl, rfl, rfl, rfl, ?_, ?_, ?_⟩
  · rw [inOrder, ← records_inOrder]
    exact h.rules.same_inOrder le
  · rw [inOrder, ← records_inOrder]
    exact h.edges.same_inOrder le
  · rw [inOrder, ← records_inOrder]
    exact h.bindings.same_inOrder le

theorem records_injective {rs ts : List (List (Value × Value))} (h : records rs = records ts) :
    rs = ts :=
  List.map_injective_iff.2 (fun _ _ h => Value.map.inj h) (Value.array.inj h)

theorem Data.data_toValue (hSuits : Value.Suits atom key) (h : m.Data atom key) :
    m.toValue.Data atom key := by
  have hVersion : m.schemaVersion.Data atom key := by
    refine .atom h.isAtom ?_
    rcases h.version with hVersion | hVersion <;> rw [hVersion]
    · exact hSuits.version
    · exact hSuits.bool true
  exact Value.data_record hSuits m.nodup_names
    (m.forall_fields hVersion (Value.data_text hSuits) h.rules h.edges h.bindings)

/-! ## One form -/

section

variable {le : Value → Value → Bool}
  (hTrans : ∀ a b c, le a b = true → le b c = true → le a c = true)
  (hTotal : ∀ a b, (le a b || le b a) = true)
  (hAntisymm : ∀ a b, key a = true → key b = true → le a b = true → le b a = true → a = b)

include hTrans hTotal hAntisymm

theorem Data.inOrder_eq_of_same (hm : m.Data atom key) (hn : n.Data atom key) (h : Same m n) :
    m.inOrder le = n.inOrder le := by
  have same {rs ts : List (List (Value × Value))} (hRs : (records rs).Data atom key)
      (hTs : (records ts).Data atom key) (hSame : Value.Same (records rs) (records ts)) :
      rs.map (Value.arranged le) = ts.map (Value.arranged le) := by
    have hOrder := hRs.inOrder_eq_of_same hTrans hTotal hAntisymm hTs hSame
    rw [records_inOrder, records_inOrder] at hOrder
    exact records_injective hOrder
  rw [inOrder, inOrder, h.schemaVersion, h.digest, h.requiredVersion, h.buildDir, h.header,
    h.defaultTarget, same hm.rules hn.rules h.rules, same hm.edges hn.edges h.edges,
    same hm.bindings hn.bindings h.bindings]

/-- **Sameness by value.** Manifests of data are the same exactly when their values have one form in
order. -/
theorem Data.same_iff_toValue_inOrder (hm : m.Data atom key) (hn : n.Data atom key) :
    Same m n ↔ m.toValue.inOrder le = n.toValue.inOrder le := by
  constructor
  · intro h
    have fieldsInOrder {m : Manifest} (hm : m.Data atom key) :
        Value.entriesInOrder le (Value.named m.fields) = Value.named (m.inOrder le).fields := by
      have optional (name : String) (text : Option String) :
          (Value.named (Value.optionalField name (text.map .text))).map
            (fun e => (e.1, e.2.inOrder le)) =
            Value.named (Value.optionalField name (text.map .text)) := by
        cases text <;> rfl
      rw [Value.entriesInOrder_eq_map]
      simp only [fields, Value.named_append, List.map_append, optional]
      simp only [Value.named, List.map_cons, List.map_nil, records_inOrder,
        Value.inOrder_of_isAtom le hm.isAtom]
      rfl
    rw [toValue, Value.record, Value.inOrder, toValue, Value.record, Value.inOrder,
      fieldsInOrder hm, fieldsInOrder hn, hm.inOrder_eq_of_same hTrans hTotal hAntisymm hn h]
  · intro h
    have hRead := (hm.ofValue_inOrder le).symm.trans ((congrArg ofValue h).trans
      (hn.ofValue_inOrder le))
    have hOrder : m.inOrder le = n.inOrder le := Except.ok.inj hRead
    exact (hm.same_inOrder le).symm.trans (hOrder ▸ hn.same_inOrder le)

end

/-! ## Manifests that were read -/

theorem version_of_agrees {v : Value} (hDatum : v.isDatum = true)
    (h : v.agrees (.int schema) = true) : v = .int schema ∨ v = .bool true := by
  cases v with
  | int n =>
      left
      simpa [Value.agrees, Value.sameNumber, Value.compareNumbers?, Value.whole?] using h
  | bool b =>
      right
      cases b with
      | true => rfl
      | false => cases h
  | null | text | bytes => cases h
  | _ => cases hDatum

theorem MadeOf.data {es : List (Value × Value)} {atom' key' : Value → Bool} (h : m.MadeOf atom key)
    (hDatum : ∀ v, atom v = true → v.isDatum = true) (hRead : ReadFrom es m)
    (hData : ∀ k v, (k, v) ∈ es → v.MadeOf atom key → v.Data atom' key') : m.Data atom' key' := by
  have found {rs : List (List (Value × Value))} (hFound : Found es (records rs))
      (hMade : (records rs).MadeOf atom key) : (records rs).Data atom' key' := by
    rcases hFound with hNone | ⟨k, hMem⟩
    · rw [hNone]
      exact .array (by simp)
    · exact hData k _ hMem hMade
  exact ⟨version_of_agrees (hDatum _ h.version) hRead.version, hRead.digest,
    found hRead.rules h.rules, found hRead.edges h.edges, found hRead.bindings h.bindings⟩

end Manifest

end NinjaFile
