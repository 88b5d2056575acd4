import NinjaFile.Proofs.Cbor.Cuts
import NinjaFile.Proofs.Json.Cuts
import NinjaFile.Proofs.Manifest.Canonical

/-!
# Truncated exports are refused

An export that is cut short is never accepted as a manifest, wherever the cut falls
(`refused_of_cut`). Both forms are refused as what they are, JSON or CBOR, and never
for what fields are in them: no front of an export is the whole text of a value, or
holds a whole item. The JSON export has a line feed behind its value, which it may
lose.
-/

namespace NinjaFile.Manifest

variable {m : Manifest}

theorem exists_asJson_toValue (m : Manifest) :
    ∃ members, (m.toValue.inOrder Value.nameLe).asJson = .object members := by
  rw [toValue, Value.record, Value.inOrder_map, Value.asJson]
  exact ⟨_, rfl⟩

theorem ofJson_of_malformed {text : String}
    (h : Json.Malformed (Json.read Numeral.limit text.toList)) :
    ∃ hint, ofJson text = refuse (.notJson hint) := by
  obtain ⟨defect, rest, hRead⟩ := h
  exact ⟨_, by rw [ofJson, hRead]⟩

theorem Data.ofJson_of_cut (h : m.Data (Value.isShort Numeral.limit) Value.isText)
    {text front back : String} (hText : m.toJson = .ok text) (hCut : front ++ back = text)
    (hBack : back ≠ "") (hLine : back ≠ "\n") :
    ∃ hint, ofJson front = refuse (.notJson hint) := by
  have hValue := (h.data_toValue (Value.suits_isShort (by decide))).inOrder Value.nameLe
  have hExact : Json.Exact Numeral.limit (m.toValue.inOrder Value.nameLe).asJson :=
    hValue.exact_asJson
  rw [h.toJson_eq] at hText
  have hChars := congrArg String.toList (hCut.trans (Except.ok.inj hText).symm)
  obtain ⟨members, hObject⟩ := m.exists_asJson_toValue
  rw [String.toList_append, String.toList_append, Json.toText, String.toList_ofList,
    hObject] at hChars
  rw [hObject] at hExact
  have hNil : back.toList ≠ [] := fun hNil => hBack (String.toList_eq_nil_iff.1 hNil)
  apply ofJson_of_malformed
  apply Json.malformed_read Json.Layout.blank_indented hExact
  rcases Json.cut_append ⟨back.toList, hNil, hChars⟩ with hInside | ⟨front', hFront, hBehind⟩
  · exact hInside
  · -- behind the object there is only the line feed
    exfalso
    rcases Json.cut_cons hBehind with rfl | ⟨_, _, hEnd⟩
    · rw [List.append_nil] at hFront
      rw [hFront] at hChars
      exact hLine (String.toList_inj.1 (List.append_cancel_left hChars))
    · exact Json.not_cut_nil _ hEnd

theorem Data.ofCbor_of_cut (h : m.Data (Value.isShort Numeral.limit) Value.isText)
    (hLength : m.toCbor.length < 0x10000000000000000) {front back : List UInt8}
    (hCut : front ++ back = m.toCbor) (hBack : back ≠ []) :
    ∃ hint, ofCbor front = refuse (.notCbor hint) := by
  have hValue := (h.data_toValue (Value.suits_isShort (by decide))).mono Value.isDatum_of_isShort
    Value.isKey_of_isText
  obtain ⟨defect, hDecode⟩ := Cbor.exists_decode_eq_error hValue hLength hCut hBack
  exact ⟨_, by rw [ofCbor, hDecode]⟩

/-- **Truncated exports are refused.** Of a manifest of a document or of a JSON text no front of the
JSON export is accepted, but for the whole of it without its line feed, and no front of the CBOR
export. -/
theorem refused_of_cut (h : m.JsonSource) :
    (∃ text, m.toJson = .ok text ∧
      ∀ front back, front ++ back = text → back ≠ "" → back ≠ "\n" →
        ∃ hint, ofJson front = .error (.diagnostic
          { code := .manifest, message := "Invalid manifest JSON.", hint := some hint })) ∧
      (m.toCbor.length < 0x10000000000000000 →
        ∀ front back, front ++ back = m.toCbor → back ≠ [] →
          ∃ hint, ofCbor front = .error (.diagnostic
            { code := .manifest, message := "Invalid manifest CBOR.", hint := some hint })) := by
  constructor
  · refine ⟨_, h.data.toJson_eq, ?_⟩
    intro front back hCut hBack hLine
    exact h.data.ofJson_of_cut h.data.toJson_eq hCut hBack hLine
  · intro hLength front back hCut hBack
    exact h.data.ofCbor_of_cut hLength hCut hBack

/-- No front of an export of a small document is accepted. -/
theorem refused_of_cut_small :
    ∃ m, ofDocument (Document.small (.int (-7)) (some ["a", "b"]) (.bool true)) = .ok m ∧
      (∃ text, m.toJson = .ok text ∧
        ∀ front back, front ++ back = text → back ≠ "" → back ≠ "\n" →
          ∃ hint, ofJson front = .error (.diagnostic
            { code := .manifest, message := "Invalid manifest JSON.", hint := some hint })) ∧
      ∀ front back, front ++ back = m.toCbor → back ≠ [] →
        ∃ hint, ofCbor front = .error (.diagnostic
          { code := .manifest, message := "Invalid manifest CBOR.", hint := some hint }) := by
  refine ⟨_, rfl, ?_⟩
  have hSource : JsonSource _ :=
    .built (Document.reachable_small (.int (-7)) ["a", "b"] (.bool true)) ?_ rfl
  · obtain ⟨hJson, hCbor⟩ := refused_of_cut hSource
    refine ⟨hJson, hCbor ?_⟩
    rw [toCbor, Cbor.length_encode]
    decide +kernel
  · intro r hr f hf
    cases List.mem_singleton.1 hr
    cases List.mem_singleton.1 hf
    decide

end NinjaFile.Manifest
