import NinjaFile.Manifest.Exchange
import NinjaFile.Proofs.Json.Documents
import NinjaFile.Proofs.Manifest.Payloads

/-!
# Texts that are manifests

Whatever text is offered as a manifest, what comes of it is a manifest or a diagnostic
with the code of manifests (`outcome_of_text`). A text that is no JSON document is refused
as such, with a hint; and for the document of a value the outcome is that of the value.
The two do not overlap, since a value that is no manifest is refused with other messages.
-/

namespace NinjaFile.Manifest

/-! ## What is wrong with a value -/

theorem Defect.code_diagnostic (defect : Defect) : defect.diagnostic.code = .manifest := by
  cases defect <;> rfl

theorem message_field_ne (name : String) :
    (Defect.field name).diagnostic.message ≠ "Invalid manifest JSON." := by
  intro h
  have hChars := congrArg String.toList h
  simp only [Defect.diagnostic, String.toList_append] at hChars
  -- the name of a field stands behind a mark that the other message does not have
  have hMark := congrArg (fun s => (s.drop 17).head?) hChars
  simp at hMark

theorem message_defect_ne (r : Requirement) (payload : Json) :
    (r.defect payload).diagnostic.message ≠ "Invalid manifest JSON." := by
  cases r with
  | object | version => simp [Requirement.defect, Defect.diagnostic]
  | digest | text | records => exact message_field_ne _

theorem exists_requirement_of_ofValue {payload : Json} (hTidy : payload.Tidy Numeral.limit true)
    {fault : Fault} (h : ofValue (.ofJson payload) = .error fault) :
    ∃ r : Requirement, fault = .diagnostic (r.defect payload).diagnostic := by
  have hForget := forget_ofValue (.ofJson payload)
  rw [h] at hForget
  obtain ⟨r, -, hFails⟩ := Outcome.exists_of_forM_eq_error hForget.symm
  refine ⟨r, ?_⟩
  rcases check_cases hTidy r with hMet | hRefused
  · rw [hMet] at hFails
    cases hFails
  · rw [hRefused] at hFails
    exact (Except.error.inj hFails).symm

/-! ## What is wrong with a text -/

theorem ofJson_of_no_document {raw : String} (hShort : Json.ShortRuns Numeral.limit raw.toList)
    (h : ¬∃ j, Json.Document raw.toList j) :
    ∃ hint, hint ≠ "" ∧ ofJson raw = refuse (.notJson hint) := by
  have hEnds := Json.ends_read hShort
  cases hRead : Json.read Numeral.limit raw.toList with
  | ok j =>
      rw [hRead] at hEnds
      exact absurd ⟨j, hEnds⟩ h
  | error refusal =>
      rw [hRead] at hEnds
      obtain ⟨defect, rest, rfl⟩ := hEnds
      refine ⟨defect.message raw.toList rest, ?_, by rw [ofJson, hRead]⟩
      simp [Json.Defect.message]

theorem ofJson_of_document {raw : String} (hShort : Json.ShortRuns Numeral.limit raw.toList)
    {j : Json} (h : Json.Document raw.toList j) : ofJson raw = ofValue (.ofJson j) := by
  rw [ofJson, Json.read_of_document hShort h]

theorem exists_requirement_of_ofJson {raw : String}
    (hShort : Json.ShortRuns Numeral.limit raw.toList) {j : Json}
    (hj : Json.Document raw.toList j) {fault : Fault} (h : ofJson raw = .error fault) :
    ∃ r : Requirement, fault = .diagnostic (r.defect j).diagnostic := by
  rw [ofJson_of_document hShort hj] at h
  exact exists_requirement_of_ofValue (Json.tidy_of_read (Json.read_of_document hShort hj)) h

/-- **A text is a manifest, or it is refused with the code of manifests.** If it is no JSON document
it is refused as such, with a hint. For the document of a value there is the manifest or the refusal
of that value, which is never refused as a text that is no document. -/
theorem outcome_of_text {raw : String} (hShort : Json.ShortRuns Numeral.limit raw.toList) :
    ((∃ m, ofJson raw = .ok m) ∨
        ∃ d, ofJson raw = .error (.diagnostic d) ∧ d.code = .manifest) ∧
      ((¬∃ j, Json.Document raw.toList j) →
        ∃ hint, hint ≠ "" ∧ ofJson raw = .error (.diagnostic
          { code := .manifest, message := "Invalid manifest JSON.", hint := some hint })) ∧
      (∀ d, ofJson raw = .error (.diagnostic d) → d.message = "Invalid manifest JSON." →
        ¬∃ j, Json.Document raw.toList j) ∧
      ∀ j, Json.Document raw.toList j → ofJson raw = ofValue (.ofJson j) := by
  refine ⟨?_, ofJson_of_no_document hShort, ?_, fun j => ofJson_of_document hShort⟩
  · by_cases hDocument : ∃ j, Json.Document raw.toList j
    · obtain ⟨j, hj⟩ := hDocument
      cases h : ofJson raw with
      | ok m => exact Or.inl ⟨m, rfl⟩
      | error fault =>
          obtain ⟨r, rfl⟩ := exists_requirement_of_ofJson hShort hj h
          exact Or.inr ⟨_, rfl, Defect.code_diagnostic _⟩
    · obtain ⟨hint, -, h⟩ := ofJson_of_no_document hShort hDocument
      exact Or.inr ⟨_, h, rfl⟩
  · rintro d h hMessage ⟨j, hj⟩
    obtain ⟨r, hDefect⟩ := exists_requirement_of_ofJson hShort hj h
    cases hDefect
    exact message_defect_ne r j hMessage

/-- A manifest, a document of a number between blanks, and an object that is not closed. -/
theorem outcome_of_text_small :
    (∃ m, ofJson "\x7b\"schema_version\": true, \"digest\": \"d\"\x7d" = .ok m ∧ m.digest = "d") ∧
      ofJson " NaN\n" = .error (.diagnostic
        { code := .manifest, message := "Invalid manifest payload type." }) ∧
      ∃ hint, hint ≠ "" ∧ ofJson "\x7b" = .error (.diagnostic
        { code := .manifest, message := "Invalid manifest JSON.", hint := some hint }) := by
  refine ⟨?_, ?_, ?_⟩
  · have hShort : Json.ShortRuns Numeral.limit
        "\x7b\"schema_version\": true, \"digest\": \"d\"\x7d".toList :=
      Json.shortRuns_of_length (by decide)
    have hExact : Json.Exact Numeral.limit
        (.object [("schema_version", .bool true), ("digest", .text "d")]) := by
      refine .object (by decide) ?_
      simp only [List.forall_mem_cons, List.not_mem_nil, false_implies, implies_true, and_true]
      exact ⟨.bool _, .text _⟩
    have hDocument := (Json.read_eq_ok_iff hShort).1
      (Json.read_print Json.Layout.blank_inline hExact (List.forall_mem_nil _))
    exact ⟨_, (outcome_of_text hShort).2.2.2 _ hDocument, rfl⟩
  · have hWord : Json.TextOf (.value (.float .nan)) "NaN".toList :=
      .word (by simp [Json.constants])
    have hDocument : Json.Document " NaN\n".toList (.float .nan) :=
      ⟨[' '], "NaN".toList, ['\n'], List.forall_mem_singleton.2 rfl, hWord,
        List.forall_mem_singleton.2 rfl, rfl⟩
    exact (outcome_of_text (Json.shortRuns_of_length (by decide))).2.2.2 _ hDocument
  · have hShort : Json.ShortRuns Numeral.limit "\x7b".toList :=
      Json.shortRuns_of_length (by decide)
    refine (outcome_of_text hShort).2.1 ?_
    rintro ⟨j, hj⟩
    have hRead := Json.read_of_document hShort hj
    simp [Json.read, Json.skipBlanks, Json.isBlank, Json.readValue_brace, Json.container] at hRead

end NinjaFile.Manifest
