import NinjaFile.Proofs.Manifest.Canonical
import NinjaFile.Proofs.Manifest.Cbor
import NinjaFile.Proofs.Value.Respelled

/-!
# Manifests from CBOR to JSON

CBOR keeps integers as keys of maps, and nothing looks inside the records of a
manifest that is read from it. So its export as JSON is where such keys are met: it is
refused if a map has both integers and texts for keys, and else every integer key comes
back as its numeral, with no entry lost or merged (`export_of_cbor`).
-/

namespace NinjaFile

namespace Value

theorem isKey_of_isShortKey {limit : Nat} (k : Value) (h : k.isShortKey limit = true) :
    k.isKey = true := by
  rcases isShortKey_cases h with ⟨s, rfl⟩ | ⟨n, rfl, -⟩ <;> rfl

theorem suits_isShortKey {limit : Nat} (h : 0 < limit) :
    Suits (isShort limit) (isShortKey limit) where
  key _ := rfl
  text _ := rfl
  bool _ := rfl
  version := (suits_isShort h).version

theorem field?_entriesRespelled (name : String) {es : List (Value × Value)}
    (h : ∀ e ∈ es, e.1.isText = true) :
    field? name (entriesRespelled es) = (field? name es).map respelled := by
  induction es with
  | nil => rfl
  | cons e es ih =>
      obtain ⟨hKey, hRest⟩ := List.forall_mem_cons.1 h
      obtain ⟨k, v⟩ := e
      cases k with
      | text s =>
          show field? name ((.text s, respelled v) :: entriesRespelled es) = _
          rw [field?, field?, ih hRest]
          split <;> rfl
      | _ => cases hKey

end Value

namespace Manifest

variable {m : Manifest}

/-! ## Records with spelled keys -/

def respelled (m : Manifest) : Manifest :=
  { m with
    rules := m.rules.map Value.entriesRespelled
    edges := m.edges.map Value.entriesRespelled
    bindings := m.bindings.map Value.entriesRespelled }

theorem records_respelled (rs : List (List (Value × Value))) :
    (records rs).respelled = records (rs.map Value.entriesRespelled) := by
  rw [records, Value.respelled, Value.itemsRespelled_eq_map, records, List.map_map, List.map_map]
  rfl

theorem Carries.respelled {es : List (Value × Value)} (h : Carries es m)
    (hNames : ∀ e ∈ es, e.1.isText = true) (hVersion : m.schemaVersion.isAtom = true) :
    Carries (Value.entriesRespelled es) m.respelled := by
  have text (s : Option String) : (s.map Value.text).map Value.respelled = s.map .text := by
    cases s <;> rfl
  constructor <;> rw [Value.field?_entriesRespelled _ hNames]
  · rw [h.schemaVersion, Option.map_some, Value.respelled_of_isAtom hVersion]
    rfl
  · rw [h.digest]
    rfl
  · rw [h.requiredVersion]
    exact text _
  · rw [h.buildDir]
    exact text _
  · rw [h.header]
    exact text _
  · rw [h.defaultTarget]
    exact text _
  · rw [h.rules, Option.map_some, records_respelled]
    rfl
  · rw [h.edges, Option.map_some, records_respelled]
    rfl
  · rw [h.bindings, Option.map_some, records_respelled]
    rfl

/-- The form of the value of a manifest is read as its records in order, with spelled keys. -/
theorem Data.ofValue_exported {atom key : Value → Bool} (h : m.Data atom key) :
    ofValue m.toValue.exported = .ok (m.inOrder Value.keyLe).respelled := by
  rw [toValue, Value.record, Value.exported, Value.inOrder_map, Value.respelled]
  have hCarries := m.carries_fields.arranged (Value.nodup_keys_named m.nodup_names) h.isAtom
    Value.keyLe
  have hNames : ∀ e ∈ Value.arranged Value.keyLe (Value.named m.fields), e.1.isText = true := by
    rintro ⟨k, w⟩ he
    obtain ⟨v, hv, -⟩ := (Value.mem_arranged _).1 he
    obtain ⟨f, -, hEq⟩ := List.mem_map.1 hv
    cases hEq
    rfl
  exact (hCarries.respelled hNames h.isAtom).ofEntries h.agrees h.digest

theorem records_exported (rs : List (List (Value × Value))) :
    (records rs).exported =
      records ((rs.map (Value.arranged Value.keyLe)).map Value.entriesRespelled) := by
  rw [Value.exported, records_inOrder, records_respelled]

/-! ## Exports -/

/-- Two manifests that differ at most in the spelling of keys and the order of entries. -/
structure Respelled (m n : Manifest) : Prop where
  schemaVersion : n.schemaVersion = m.schemaVersion
  digest : n.digest = m.digest
  requiredVersion : n.requiredVersion = m.requiredVersion
  buildDir : n.buildDir = m.buildDir
  header : n.header = m.header
  defaultTarget : n.defaultTarget = m.defaultTarget
  rules : (records m.rules).Respelled (records n.rules)
  edges : (records m.edges).Respelled (records n.edges)
  bindings : (records m.bindings).Respelled (records n.bindings)

theorem mixes_toValue {name : String} {v : Value} (hField : (name, v) ∈ m.fields)
    (h : v.Mixes) : m.toValue.Mixes :=
  .value (List.mem_map_of_mem (f := fun field : String × Value => (Value.text field.1, field.2))
    hField) h

theorem Data.respelled (h : m.Data (Value.isShort Numeral.limit) (Value.isShortKey Numeral.limit))
    (hMixes : ¬m.toValue.Mixes) : m.Respelled (m.inOrder Value.keyLe).respelled := by
  have hField (name : String) {v : Value} (hMem : (name, v) ∈ m.fields) : ¬v.Mixes :=
    fun hInside => hMixes (mixes_toValue hMem hInside)
  refine ⟨rfl, rfl, rfl, rfl, rfl, rfl, ?_, ?_, ?_⟩
  · have hRules := h.rules.respelled (hField "rules" (by simp [fields]))
    exact records_exported m.rules ▸ hRules.2
  · have hEdges := h.edges.respelled (hField "edges" (by simp [fields]))
    exact records_exported m.edges ▸ hEdges.2
  · have hBindings := h.bindings.respelled (hField "bindings" (by simp [fields]))
    exact records_exported m.bindings ▸ hBindings.2

theorem Data.ofJson_exported
    (h : m.Data (Value.isShort Numeral.limit) (Value.isShortKey Numeral.limit))
    (hMixes : ¬m.toValue.Mixes) :
    ofJson (m.toValue.exported.asJson.toText .indented ++ "\n") =
      .ok (m.inOrder Value.keyLe).respelled := by
  have hValue := ((h.data_toValue (Value.suits_isShortKey (by decide))).respelled hMixes).1
  have hBlanks : ∀ c ∈ "\n".toList, Json.isBlank c = true := by
    intro c hc
    cases List.mem_singleton.1 hc
    decide
  have hRead := hValue.read_toText Json.Layout.blank_indented hBlanks
  rw [← String.toList_append] at hRead
  rw [ofJson, hRead]
  show ofValue (Value.ofJson _) = _
  rw [hValue.ofJson_asJson, h.ofValue_exported]

theorem data_of_ofCbor {octets : List UInt8} (accepted : ofCbor octets = .ok m)
    (whole : m.MadeOf (Value.isShort Numeral.limit) (Value.isShortKey Numeral.limit)) :
    m.Data (Value.isShort Numeral.limit) (Value.isShortKey Numeral.limit) := by
  obtain ⟨es, hSound, hFrom⟩ := exists_of_ofCbor accepted
  refine whole.data Value.isDatum_of_isShort hFrom ?_
  intro k v hMem hMade
  cases hSound.keyed with
  | atom isAtom => cases isAtom
  | map distinct values => exact (values (k, v) hMem).data Value.isKey_of_isShortKey hMade

/-- **From CBOR to JSON.** A manifest that was read from CBOR, with integers and texts for keys and
no atoms but those that JSON has too, can be exported as JSON exactly if no map in it has both an
integer and a text for keys; else it is refused to compare these. The export is accepted as the same
manifest with every integer key spelled, and no map has more entries or fewer. -/
theorem export_of_cbor {octets : List UInt8} (accepted : ofCbor octets = .ok m)
    (whole : m.MadeOf (Value.isShort Numeral.limit) (Value.isShortKey Numeral.limit)) :
    ((∃ text, m.toJson = .ok text) ↔ ¬m.toValue.Mixes) ∧
      (m.toValue.Mixes → ∃ pair ∈ Value.crossed, m.toJson = .error (.unordered pair)) ∧
      ∀ text, m.toJson = .ok text → ∃ back, ofJson text = .ok back ∧ m.Respelled back := by
  have hData := data_of_ofCbor accepted whole
  have hEnds := (hData.data_toValue (Value.suits_isShortKey (by decide))).ends_toJson
  rw [toJson, Value.jsonText]
  cases hForm : m.toValue.toJson true with
  | error u =>
      rw [hForm] at hEnds
      obtain ⟨hMixes, pair, hPair, rfl⟩ := hEnds
      refine ⟨⟨?_, fun hClean => absurd hMixes hClean⟩, fun _ => ⟨pair, hPair, rfl⟩, ?_⟩
      · rintro ⟨text, hText⟩
        cases hText
      · intro text hText
        cases hText
  | ok j =>
      rw [hForm] at hEnds
      obtain ⟨hClean, rfl⟩ := hEnds
      refine ⟨⟨fun _ => hClean, fun _ => ⟨_, rfl⟩⟩, fun hMixes => absurd hMixes hClean, ?_⟩
      intro text hText
      cases hText
      exact ⟨_, hData.ofJson_exported hClean, hData.respelled hClean⟩

/-- A manifest with integers for the keys of a rule. Their codes put two before ten, and their texts
put it behind. -/
def numbered : Manifest :=
  { digest := "d", rules := [[(.int 2, .text "a"), (.int 10, .map [(.text "a", .int (-1))])]] }

theorem not_mixes_numbered : ¬numbered.toValue.Mixes := by
  have int (n : Int) : ¬(Value.int n).Mixes := Value.not_mixes_of_isAtom rfl
  have text (s : String) : ¬(Value.text s).Mixes := Value.not_mixes_of_isAtom rfl
  simp [numbered, toValue, Value.record, Value.named, fields, records, Value.optionalField,
    Value.mixes_map, Value.mixes_array, Value.MixedKeys, int, text]

theorem data_numbered :
    numbered.Data (Value.isShort Numeral.limit) (Value.isShortKey Numeral.limit) where
  version := Or.inl rfl
  digest := by decide
  rules := by
    refine .array ?_
    intro v hv
    cases List.mem_singleton.1 hv
    refine .map (by decide) (by simp) ?_
    simp only [List.forall_mem_cons, List.not_mem_nil, false_implies, implies_true, and_true]
    refine ⟨.atom rfl rfl, .map (by decide) (by simp) ?_⟩
    intro e he
    cases List.mem_singleton.1 he
    exact .atom rfl (by decide)
  edges := .array (by simp [numbered])
  bindings := .array (by simp [numbered])

theorem numbered_inOrder : numbered.inOrder Cbor.codeLe = numbered := by
  have hRule : Value.arranged Cbor.codeLe
      [(.int 2, .text "a"), (.int 10, .map [(.text "a", .int (-1))])] =
      [(.int 2, .text "a"), (.int 10, .map [(.text "a", .int (-1))])] := by
    rw [Value.arranged, List.mergeSort_of_pairwise (by decide +kernel)]
    simp [Value.inOrder, Value.entriesInOrder]
  rw [inOrder, numbered, List.map_singleton, hRule]
  rfl

/-- Integers that are keys come back as texts. -/
theorem export_of_cbor_numbered :
    ∃ octets text back, ofCbor octets = .ok numbered ∧ numbered.toJson = .ok text ∧
      ofJson text = .ok back ∧ numbered.Respelled back := by
  have hData := data_numbered
  have hOctets : numbered.Data Value.isDatum Value.isKey :=
    ⟨hData.version, hData.digest, hData.rules.mono Value.isDatum_of_isShort Value.isKey_of_isShortKey,
      .array (by simp [numbered]), .array (by simp [numbered])⟩
  have hRead : ofCbor numbered.toCbor = .ok numbered := by
    rw [hOctets.ofCbor_eq (by decide) (by rw [toCbor, Cbor.length_encode]; decide +kernel),
      numbered_inOrder]
  obtain ⟨hExport, -, hBack⟩ := export_of_cbor hRead
    ⟨by decide, hData.rules.madeOf, hData.edges.madeOf, hData.bindings.madeOf⟩
  obtain ⟨text, hText⟩ := hExport.2 not_mixes_numbered
  obtain ⟨back, hOf, hSame⟩ := hBack text hText
  exact ⟨_, text, back, hRead, hText, hOf, hSame⟩

end Manifest

end NinjaFile
