import NinjaFile.Manifest.Exchange
import NinjaFile.Proofs.Manifest.Documents
import NinjaFile.Proofs.Value.Json

/-!
# Manifests through JSON

A manifest that comes from a document or from a JSON text can be exported, and its
export is read as the same manifest (`ofJson_toJson`). The export is the text of
the value of the manifest in order, so this is the way of data through JSON
together with the way of fields through a map.
-/

namespace NinjaFile

namespace Value

theorem suits_isShort {limit : Nat} (h : 0 < limit) : Suits (isShort limit) isText where
  key _ := rfl
  text _ := rfl
  bool _ := rfl
  version := decide_eq_true (show (Numeral.digits 1).length ≤ limit from h)

theorem hasScalars_isShort : HasScalars (isShort Numeral.limit) := by
  intro s written h
  cases s with
  | int n =>
      obtain ⟨cs, hDigits, -⟩ := Outcome.map_eq_ok.1 h
      unfold Numeral.ofInt? at hDigits
      split at hDigits
      · rename_i hShort
        exact decide_eq_true hShort
      · cases hDigits
  | text | bool => rfl

end Value

namespace Manifest

/-- A manifest of a document or of a JSON text, without fractional numbers and without integers that
have no numeral. An integer that was read has one. -/
inductive JsonSource (m : Manifest) : Prop where
  | built {d : Document} (reachable : d.Reachable)
      (flags : ∀ r ∈ d.rules, ∀ f ∈ r.flags, f.toValue.isShort Numeral.limit = true)
      (taken : ofDocument d = .ok m)
  | read {text : String} (accepted : ofJson text = .ok m)
      (whole : m.MadeOf Value.isPlain Value.isText)

theorem exists_of_ofJson {text : String} {m : Manifest} (h : ofJson text = .ok m) :
    ∃ ms : List (String × Json), (∀ f ∈ ms, Json.Tidy Numeral.limit true f.2) ∧
      ReadFrom (ms.map fun f => (.text f.1, .ofJson f.2)) m := by
  unfold ofJson at h
  split at h
  · cases h
  · cases h
  · rename_i j hRead
    obtain ⟨es, hMap, hFrom⟩ := exists_of_ofValue h
    cases Json.tidy_of_read hRead with
    | @object ms _ tidy =>
        rw [Value.ofJson, Value.ofJsonMembers_eq_map] at hMap
        cases hMap
        exact ⟨ms, tidy, hFrom⟩
    | float _ x =>
        rw [Value.ofJson, Value.ofFloat] at hMap
        split at hMap <;> cases hMap
    | _ => cases hMap

theorem JsonSource.data {m : Manifest} (h : m.JsonSource) :
    m.Data (Value.isShort Numeral.limit) Value.isText := by
  cases h with
  | built reachable flags taken =>
      exact data_ofDocument (Value.suits_isShort (by decide)) Value.hasScalars_isShort reachable
        flags taken
  | read accepted whole =>
      obtain ⟨ms, hTidy, hFrom⟩ := exists_of_ofJson accepted
      have hDatum : ∀ v : Value, v.isPlain = true → v.isDatum = true := by
        intro v hv
        cases v <;> first | rfl | cases hv
      refine whole.data hDatum hFrom ?_
      intro k v hMem hMade
      obtain ⟨f, hf, hEq⟩ := List.mem_map.1 hMem
      cases hEq
      exact Value.data_ofJson (hTidy f hf) hMade

theorem Data.toJson_eq {m : Manifest} (h : m.Data (Value.isShort Numeral.limit) Value.isText) :
    m.toJson = .ok ((m.toValue.inOrder Value.nameLe).asJson.toText .indented ++ "\n") := by
  have hValue := h.data_toValue (Value.suits_isShort (by decide))
  rw [toJson, hValue.jsonText_eq]
  rfl

theorem Data.ofJson_eq {m : Manifest} (h : m.Data (Value.isShort Numeral.limit) Value.isText) :
    ofJson ((m.toValue.inOrder Value.nameLe).asJson.toText .indented ++ "\n") =
      .ok (m.inOrder Value.nameLe) := by
  have hValue := (h.data_toValue (Value.suits_isShort (by decide))).inOrder Value.nameLe
  have hBlanks : ∀ c ∈ "\n".toList, Json.isBlank c = true := by
    intro c hc
    cases List.mem_singleton.1 hc
    decide
  have hRead := hValue.read_toText Json.Layout.blank_indented hBlanks
  rw [← String.toList_append] at hRead
  rw [ofJson, hRead]
  show ofValue (Value.ofJson _) = _
  rw [hValue.ofJson_asJson, h.ofValue_inOrder]

/-- **JSON keeps manifests.** The export of a manifest of a document or of a JSON text is accepted
again, as the same manifest. -/
theorem ofJson_toJson {m : Manifest} (h : m.JsonSource) :
    ∃ text back, m.toJson = .ok text ∧ ofJson text = .ok back ∧ back.Same m :=
  ⟨_, _, h.data.toJson_eq, h.data.ofJson_eq, h.data.same_inOrder Value.nameLe⟩

/-- The manifest of a small document with an integer for a flag and a truth value in a binding. -/
theorem ofJson_toJson_small :
    ∃ m, ofDocument (Document.small (.int (-7)) (some ["a", "b"]) (.bool true)) = .ok m ∧
      ∃ text back, m.toJson = .ok text ∧ ofJson text = .ok back ∧ back.Same m := by
  have hReachable := Document.reachable_small (.int (-7)) ["a", "b"] (.bool true)
  refine ⟨_, rfl, ofJson_toJson (.built hReachable ?_ rfl)⟩
  intro r hr f hf
  cases List.mem_singleton.1 hr
  cases List.mem_singleton.1 hf
  decide

end Manifest

end NinjaFile
