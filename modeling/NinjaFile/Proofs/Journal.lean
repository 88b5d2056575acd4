import NinjaFile.Journal
import NinjaFile.Proofs.Json.Visible
import NinjaFile.Proofs.Layout.Blocks
import NinjaFile.Proofs.Manifest.Json
import NinjaFile.Proofs.Text.Octets

/-!
# Exported journals

The export of a journal has a line for each record, and a reader who takes it apart at
the line breaks and reads each line by itself has the records again, in their order
(`Journal.exported_of_writable`). The line of a record is visible ASCII, so line breaks
stand behind lines only; and what a line holds is the record but for the order of its
entries.
-/

namespace NinjaFile

/-! ## Lines -/

theorem intercalate_append_break {lines : List (List Char)} (h : lines ≠ []) :
    ['\n'].intercalate lines ++ ['\n'] = unlines lines := by
  induction lines with
  | nil => exact absurd rfl h
  | cons line lines ih =>
      by_cases hLines : lines = []
      · subst hLines
        simp
      · rw [List.intercalate_cons_of_ne_nil hLines, List.append_assoc, ih hLines, unlines_cons,
          List.append_assoc, List.singleton_append]

/-- A text with a break behind every line is split into the lines, with nothing behind the last. -/
theorem splitOn_unlines {lines : List (List Char)} (h : ∀ line ∈ lines, '\n' ∉ line) :
    (unlines lines).splitOn '\n' = lines ++ [[]] := by
  have hText : unlines lines = ['\n'].intercalate (lines ++ [[]]) := by
    induction lines with
    | nil => rfl
    | cons line lines ih =>
        rw [unlines_cons, ih (List.forall_mem_cons.1 h).2, List.cons_append,
          List.intercalate_cons_of_ne_nil (by simp), List.append_assoc, List.singleton_append]
  have hBreaks : ∀ line ∈ lines ++ [[]], '\n' ∉ line := by
    rw [List.forall_mem_append]
    exact ⟨h, by simp⟩
  rw [hText, List.splitOn_intercalate '\n' hBreaks (by simp)]

theorem count_unlines {lines : List (List Char)} (h : ∀ line ∈ lines, '\n' ∉ line) :
    (unlines lines).count '\n' = lines.length := by
  induction lines with
  | nil => rfl
  | cons line lines ih =>
      obtain ⟨hLine, hLines⟩ := List.forall_mem_cons.1 h
      rw [unlines_cons, List.count_append, List.count_cons_self, List.count_eq_zero.2 hLine,
        ih hLines, List.length_cons, Nat.zero_add]

/-! ## Records -/

namespace Record

/-- What is added to the record, if anything is, is an object that JSON has: without fractional
numbers, and without integers that have no numeral. -/
def Exportable (r : Record) : Prop :=
  ∀ v ∈ r.extra, ∃ es, v = .map es ∧ v.Data (Value.isShort Numeral.limit) Value.isText

theorem nodup_names (r : Record) : (r.fields.map Prod.fst).Nodup := by
  have hNames : (r.fields.map Prod.fst).Sublist ["level", "operation", "path", "message", "extra"] :=
    Value.names_optional (List.Sublist.refl _) "extra" _
  exact hNames.nodup (by decide)

theorem data_record {r : Record} (h : r.Exportable) :
    (Value.record r.fields).Data (Value.isShort Numeral.limit) Value.isText := by
  have hSuits : Value.Suits (Value.isShort Numeral.limit) Value.isText :=
    Value.suits_isShort (by decide)
  have hPath : (Value.ofText? r.path).Data (Value.isShort Numeral.limit) Value.isText := by
    rcases r.path with - | path
    · exact .atom rfl rfl
    · exact Value.data_text hSuits path
  refine Value.data_record hSuits r.nodup_names (Value.forall_optional ?_ "extra" ?_)
  · simp only [List.forall_mem_cons, List.not_mem_nil, false_implies, implies_true, and_true]
    exact ⟨Value.data_text hSuits _, Value.data_text hSuits _, hPath, Value.data_text hSuits _⟩
  · intro v hv
    obtain ⟨es, -, hData⟩ := h v hv
    exact hData

def sortedFields (r : Record) : List (String × Value) :=
  Value.optionalField "extra" r.extra ++
    [("level", .text r.level), ("message", .text r.message), ("operation", .text r.operation),
      ("path", .ofText? r.path)]

theorem fields_perm (r : Record) : r.fields.Perm r.sortedFields := by
  refine List.perm_append_comm.trans (List.Perm.append_left _ ?_)
  exact (((List.Perm.swap _ _ _).cons _).trans (List.Perm.swap _ _ _)).cons _

theorem arranged_fields (r : Record) :
    Value.arranged Value.nameLe (Value.named r.fields) =
      Value.named (r.sortedFields.map fun f => (f.1, f.2.inOrder Value.nameLe)) := by
  have hText : ∀ e ∈ Value.named r.fields, e.1.isText = true := by
    intro e he
    obtain ⟨f, -, rfl⟩ := List.mem_map.1 he
    rfl
  have hNames : ((Value.named r.sortedFields).map Prod.fst).Pairwise
      fun k l => Value.nameLe k l = true := by
    rw [Value.keys_named, sortedFields]
    cases r.extra with
    | none =>
        show (["level", "message", "operation", "path"].map Value.text).Pairwise _
        decide
    | some v =>
        show (["extra", "level", "message", "operation", "path"].map Value.text).Pairwise _
        decide
  have hSorted : (Value.named r.sortedFields).Pairwise fun e f => Value.nameLe e.1 f.1 = true :=
    List.pairwise_map.1 hNames
  rw [Value.arranged, Value.mergeSort_eq_of_perm Value.nameLe_trans Value.nameLe_total
    Value.nameLe_antisymm hText (Value.nodup_keys_named r.nodup_names) (r.fields_perm.map _)]
  show ((Value.named r.sortedFields).mergeSort _).map _ = _
  rw [List.mergeSort_of_pairwise hSorted, Value.named, Value.named, List.map_map, List.map_map]
  rfl

def lineText (r : Record) : String :=
  ((Value.record r.fields).inOrder Value.nameLe).asJson.toText .inline

end Record

namespace Journal

variable {j : Journal}

theorem line_eq {r : Record} (h : r.Exportable) : line r = .ok r.lineText := by
  rw [line, (Record.data_record h).jsonText_eq]
  rfl

theorem isVisible_lineText {r : Record} (h : r.Exportable) :
    ∀ c ∈ r.lineText.toList, Json.isVisible c = true := by
  rw [Record.lineText, Json.toText, String.toList_ofList]
  exact Json.isVisible_print ((Record.data_record h).inOrder Value.nameLe).exact_asJson 0

/-! ## Reading an export -/

/-- The lines of a text, each of which has a line break at its end. -/
def linesOf (text : String) : List (List Char) :=
  (text.toList.splitOn '\n').dropLast

def parseLine (line : List Char) : Except Json.Refusal Value :=
  (Json.read Numeral.limit line).map .ofJson

def parse (text : String) : Except Json.Refusal (List Value) :=
  (linesOf text).mapM parseLine

def isOf (operation : String) : Value → Bool
  | .map es =>
    match Value.field? "operation" es with
    | some (.text s) => s == operation
    | _ => false
  | _ => false

/-- Entries hold what was logged, in whatever order: one entry for each name and none for any other,
and something added if and only if something was. -/
structure Holds (es : List (Value × Value)) (r : Record) : Prop where
  names : (es.map Prod.fst).Perm
    ((["level", "operation", "path", "message"] ++ if r.extra.isSome then ["extra"] else []).map
      .text)
  level : Value.field? "level" es = some (.text r.level)
  operation : Value.field? "operation" es = some (.text r.operation)
  path : Value.field? "path" es = some (r.path.elim .null .text)
  message : Value.field? "message" es = some (.text r.message)
  extra : Option.Rel Value.Same (Value.field? "extra" es) r.extra

def Recorded (v : Value) (r : Record) : Prop :=
  ∃ es, v = .map es ∧ Holds es r

theorem parseLine_eq {r : Record} (h : r.Exportable) :
    parseLine r.lineText.toList = .ok ((Value.record r.fields).inOrder Value.nameLe) := by
  have hData := (Record.data_record h).inOrder Value.nameLe
  have hRead := hData.read_toText Json.Layout.blank_inline (List.forall_mem_nil _)
  rw [List.append_nil] at hRead
  rw [parseLine, Record.lineText, hRead]
  show Except.ok _ = _
  rw [hData.ofJson_asJson]

theorem isOf_of_recorded {v : Value} {r : Record} (h : Recorded v r) (operation : String) :
    isOf operation v = (r.operation == operation) := by
  obtain ⟨es, rfl, hHolds⟩ := h
  rw [isOf, hHolds.operation]

/-- **The fields of a record in order** are what was logged. -/
theorem recorded_inOrder {r : Record} (h : r.Exportable) (le : Value → Value → Bool) :
    Recorded ((Value.record r.fields).inOrder le) r := by
  have hDistinct := Value.nodup_keys_named r.nodup_names
  have hAtom {name : String} {v : Value} (hField : Value.field? name (Value.named r.fields) = some v)
      (hv : v.isAtom = true) :
      Value.field? name (Value.arranged le (Value.named r.fields)) = some v := by
    rw [Value.field?_arranged le hDistinct, hField, Option.map_some, Value.inOrder_of_isAtom le hv]
  refine ⟨_, Value.inOrder_map le (Value.named r.fields), ?_⟩
  constructor
  case names =>
    refine (Value.keys_arranged_perm le _).trans (List.Perm.of_eq ?_)
    rw [Value.keys_named, Record.fields]
    cases r.extra <;> rfl
  case level => exact hAtom rfl rfl
  case operation => exact hAtom rfl rfl
  case path =>
    cases hPath : r.path with
    | none => exact hAtom (by rw [Record.fields, hPath]; rfl) rfl
    | some path => exact hAtom (by rw [Record.fields, hPath]; rfl) rfl
  case message => exact hAtom rfl rfl
  case extra =>
    have hField : Value.field? "extra" (Value.named r.fields) = r.extra := by
      rw [Record.fields]
      cases r.extra <;> rfl
    rw [Value.field?_arranged le hDistinct, hField]
    cases hExtra : r.extra with
    | none => exact .none
    | some v =>
        obtain ⟨es, -, hData⟩ := h v hExtra
        exact .some (hData.same_inOrder le)

/-! ## The export -/

theorem lines_eq (hRecords : j.records ≠ []) (h : ∀ r ∈ j.records, r.Exportable) :
    ∃ text, j.lines = .ok text ∧
      text.toList = unlines (j.records.map fun r => r.lineText.toList) := by
  have hLines : j.records.mapM line = .ok (j.records.map Record.lineText) :=
    Outcome.mapM_eq_ok fun r hr => line_eq (h r hr)
  refine ⟨"\n".intercalate (j.records.map Record.lineText) ++ "\n", ?_, ?_⟩
  · rw [lines, hLines]
    rfl
  · rw [String.toList_append, String.toList_intercalate, List.map_map]
    exact intercalate_append_break (by simpa using hRecords)

structure Exported (j : Journal) (text : String) (values : List Value) : Prop where
  /-- The text is in ASCII. -/
  ascii : ∀ octet ∈ Octets.ofText text, octet < 0x80
  /-- There are as many line breaks as records. -/
  breaks : text.toList.count '\n' = j.records.length
  /-- The text ends with a line break. -/
  ending : text.toList.getLast? = some '\n'
  /-- Every line can be read by itself. -/
  parsed : parse text = .ok values
  /-- The lines are the records, one by one. What was added to a record is there if anything was. -/
  records : List.Forall₂ Recorded values j.records
  /-- The lines of an operation are its records. -/
  operations : ∀ operation, List.Forall₂ Recorded (values.filter (isOf operation))
    (j.recordsFor operation)

theorem exported_of_unlines {text : String} (hRecords : j.records ≠ [])
    (h : ∀ r ∈ j.records, r.Exportable)
    (hText : text.toList = unlines (j.records.map fun r => r.lineText.toList)) :
    j.Exported text (j.records.map fun r => (Value.record r.fields).inOrder Value.nameLe) := by
  have hVisible : ∀ line ∈ j.records.map fun r => r.lineText.toList,
      ∀ c ∈ line, Json.isVisible c = true := by
    intro line hLine
    obtain ⟨r, hr, rfl⟩ := List.mem_map.1 hLine
    exact isVisible_lineText (h r hr)
  have hBreaks : ∀ line ∈ j.records.map fun r => r.lineText.toList, '\n' ∉ line :=
    fun line hLine hBreak => Json.ne_newline_of_isVisible (hVisible line hLine _ hBreak) rfl
  have hLines : linesOf text = j.records.map fun r => r.lineText.toList := by
    rw [linesOf, hText, splitOn_unlines hBreaks, List.dropLast_concat]
  have hValues : List.Forall₂ Recorded
      (j.records.map fun r => (Value.record r.fields).inOrder Value.nameLe) j.records := by
    rw [List.forall₂_map_left_iff, List.forall₂_same]
    exact fun r hr => recorded_inOrder (h r hr) Value.nameLe
  constructor
  case ascii =>
    apply Octets.lt_of_mem_ofText
    intro c hc
    rw [hText] at hc
    obtain ⟨line, hLine, hc⟩ := List.mem_flatMap.1 hc
    rcases List.mem_append.1 hc with hc | hc
    · exact Json.toNat_lt_of_isVisible (hVisible line hLine c hc)
    · rw [List.mem_singleton.1 hc]
      decide
  case breaks => rw [hText, count_unlines hBreaks, List.length_map]
  case ending =>
    rw [hText, ← intercalate_append_break (by simpa using hRecords), List.getLast?_concat]
  case parsed =>
    rw [parse, hLines, List.mapM_map]
    exact Outcome.mapM_eq_ok fun r hr => parseLine_eq (h r hr)
  case records => exact hValues
  case operations =>
    intro operation
    refine List.rel_filter ?_ hValues
    intro v r hRecorded
    show isOf operation v = true ↔ (r.operation == operation) = true
    rw [isOf_of_recorded hRecorded]

/-- **Nothing is lost in the export of a journal.** If the directories that lead to a path can be
made and a file be opened there, the records of a journal, one at least, are written to the file. The
text is in ASCII with one line for each record, and every line holds its record. -/
theorem exported_of_writable {s made : Storage} {p : Path} {location : Location}
    (hRecords : j.records ≠ []) (h : ∀ r ∈ j.records, r.Exportable)
    (hMade : s.makeDirectories p.parent = (made, .ok ()))
    (hOpen : made.writable p = .ok location) :
    ∃ after text values, j.writeLines s p = (after, .ok text) ∧
      after.read p = .ok (Octets.ofText text) ∧ j.Exported text values := by
  obtain ⟨text, hLines, hText⟩ := lines_eq hRecords h
  have hWrite : made.write p (Octets.ofText text) =
      .ok (made.put location (.file (Octets.ofText text))) := by
    rw [Storage.write, hOpen]
    rfl
  refine ⟨_, text, _, ?_, Storage.read_of_write hWrite, exported_of_unlines hRecords h hText⟩
  simp only [writeLines, hMade, hLines, hWrite]

def smallExtra : Value :=
  .map [(.text "k", .array [.int (-1), .null])]

/-- Two records, one with a line break in its message and one with something added. -/
def small : Journal :=
  ⟨[{ operation := "save", path := some "p", message := "a\nb" },
    { operation := "load", path := none, message := "", extra := some smallExtra }]⟩

def smallFirst : String :=
  "\x7b\"level\": \"info\", \"message\": \"a\\nb\", \"operation\": \"save\", \"path\": \"p\"\x7d\n"

def smallSecond : String :=
  "\"level\": \"info\", \"message\": \"\", \"operation\": \"load\", \"path\": null\x7d\n"

def smallText : String :=
  smallFirst ++ ("\x7b\"extra\": \x7b\"k\": [-1, null]\x7d, " ++ smallSecond)

theorem exportable_small : ∀ r ∈ small.records, r.Exportable := by
  have hExtra : smallExtra.Data (Value.isShort Numeral.limit) Value.isText := by
    refine .map (by decide) (by simp) ?_
    rw [List.forall_mem_singleton]
    refine .array ?_
    rw [List.forall_mem_cons, List.forall_mem_singleton]
    exact ⟨.atom rfl (by decide), .atom rfl rfl⟩
  rw [small, List.forall_mem_cons, List.forall_mem_singleton]
  constructor
  · intro v hv
    cases hv
  · intro v hv
    rw [← Option.mem_some.1 hv]
    exact ⟨_, rfl, hExtra⟩

theorem lines_small : small.lines = .ok smallText := by
  have hExtra : smallExtra.inOrder Value.nameLe = smallExtra := by
    rw [smallExtra, Value.inOrder_map, Value.arranged, List.mergeSort_singleton]
    rfl
  obtain ⟨text, hLines, hText⟩ := lines_eq (by decide) exportable_small
  rw [hLines]
  refine congrArg Except.ok (String.toList_inj.1 ?_)
  rw [hText, smallText, String.toList_append, String.toList_append]
  simp only [small, List.map_cons, List.map_nil, Record.lineText, Value.record, Value.inOrder_map,
    Record.arranged_fields, Record.sortedFields, Value.optionalField, List.cons_append,
    List.nil_append, hExtra, Json.toText, String.toList_ofList]
  decide +kernel

theorem exported_of_writable_small :
    ∃ after values, small.writeLines {} ⟨["log"]⟩ = (after, .ok smallText) ∧
      after.read ⟨["log"]⟩ = .ok (Octets.ofText smallText) ∧ small.Exported smallText values := by
  have hMade : Storage.makeDirectories {} (Path.mk ["log"]).parent = ({}, .ok ()) := by
    rw [Storage.makeDirectories]
    rfl
  have hOpen : Storage.writable {} ⟨["log"]⟩ = .ok ["log"] := rfl
  obtain ⟨after, text, values, hWritten, hRead, hExported⟩ :=
    exported_of_writable (by decide) exportable_small hMade hOpen
  have hWrite := Storage.write_of_writable hOpen (Octets.ofText smallText)
  have hSmall := hWritten
  simp only [writeLines, hMade, lines_small, hWrite] at hSmall
  obtain rfl : smallText = text := Except.ok.inj (Prod.mk.inj hSmall).2
  exact ⟨after, values, hWritten, hRead, hExported⟩

end Journal

end NinjaFile
