import NinjaFile.Json.Printer
import NinjaFile.Proofs.Json.Steps
import NinjaFile.Proofs.Json.Strings
import NinjaFile.Proofs.Json.Tidy

/-!
# Printed values come back

The text of a value is read back as the value in every layout that puts only
blanks between items (`readValue_print`). The value must be `Exact`: no
fractional numbers, no integers beyond the limit of numerals, and no object with
a name twice, since a name that comes again would replace an earlier value.

The induction is on what makes the value exact. An item is read in front of
whatever may stand behind an item, which never goes on with a number; so the
readers of items and of members follow the lists one comma at a time.
-/

namespace NinjaFile.Json

/-- A value that its text determines. -/
abbrev Exact (limit : Nat) (j : Json) : Prop :=
  Tidy limit false j

/-! ## Blanks -/

/-- A layout that puts only blanks between items. -/
structure Layout.Blank (layout : Layout) : Prop where
  lead : ∀ depth, ∀ c ∈ layout.lead depth, isBlank c = true
  gap : ∀ depth, ∀ c ∈ layout.gap depth, isBlank c = true

theorem Layout.blank_inline : Layout.inline.Blank := by
  constructor
  · intro depth c hc
    cases hc
  · intro depth c hc
    cases List.mem_singleton.1 hc
    rfl

theorem Layout.blank_indented : Layout.indented.Blank := by
  have line (depth : Nat) : ∀ c ∈ '\n' :: List.replicate (2 * depth) ' ', isBlank c = true := by
    intro c hc
    rcases List.mem_cons.1 hc with rfl | hc
    · rfl
    · rw [(List.mem_replicate.1 hc).2]
      rfl
  exact ⟨line, line⟩

/-- The text of a value begins with none of the characters that mean something in front of one. -/
theorem head_print {limit : Nat} {j : Json} (h : Exact limit j) (layout : Layout) (depth : Nat) :
    ∃ c cs, print layout depth j = c :: cs ∧ isBlank c = false ∧ c ≠ ']' ∧ c ≠ '\uFEFF' := by
  cases h with
  | null => exact ⟨_, _, rfl, rfl, by decide⟩
  | bool b => cases b <;> exact ⟨_, _, rfl, rfl, by decide⟩
  | @int n =>
      obtain ⟨c, cs, hText, hHead⟩ := head_ofInt n
      refine ⟨c, cs, by rw [print, hText], ?_⟩
      have hNe {d : Char} (hd : d ≠ '-' ∧ isDigit d = false) : c ≠ d := ne_of_headInt hHead hd
      refine ⟨?_, hNe (by decide), hNe (by decide)⟩
      simp [isBlank, hNe (by decide : ' ' ≠ '-' ∧ isDigit ' ' = false),
        hNe (by decide : '\t' ≠ '-' ∧ isDigit '\t' = false),
        hNe (by decide : '\n' ≠ '-' ∧ isDigit '\n' = false),
        hNe (by decide : '\r' ≠ '-' ∧ isDigit '\r' = false)]
  | float allowed => cases allowed
  | text s => exact ⟨_, _, rfl, rfl, by decide⟩
  | @array items =>
      cases items <;> exact ⟨_, _, rfl, rfl, by decide⟩
  | @object members =>
      cases members with
      | nil => exact ⟨_, _, rfl, rfl, by decide⟩
      | cons m members => exact ⟨_, _, rfl, rfl, by decide⟩

theorem skipBlanks_print {limit : Nat} {j : Json} (h : Exact limit j) (layout : Layout)
    (depth : Nat) (s : List Char) :
    skipBlanks (print layout depth j ++ s) = print layout depth j ++ s := by
  obtain ⟨c, cs, hText, hBlank, -, -⟩ := head_print h layout depth
  rw [hText, List.cons_append, skipBlanks_cons hBlank]

theorem stops_append {blanks : List Char} (h : ∀ c ∈ blanks, isBlank c = true) {s : List Char}
    (hs : Stops s) : Stops (blanks ++ s) := by
  cases blanks with
  | nil => exact hs
  | cons c blanks =>
      apply stops_cons
      have hBlank := h c List.mem_cons_self
      simp only [isBlank, Bool.or_eq_true, beq_iff_eq] at hBlank
      rcases hBlank with ((rfl | rfl) | rfl) | rfl <;> rfl

theorem stops_blanks {blanks : List Char} (h : ∀ c ∈ blanks, isBlank c = true) : Stops blanks := by
  have hEnd := stops_append h stops_nil
  rwa [List.append_nil] at hEnd

/-! ## Words and integers -/

theorem readValue_word {limit : Nat} {c : Char} {cs rest : List Char} {j : Json}
    (h : constant? (c :: cs ++ rest) = some (j, rest)) (hQuote : c ≠ '"') (hArray : c ≠ '[')
    (hObject : c ≠ '\x7b') : readValue limit (c :: cs ++ rest) = .ok (j, rest) := by
  rw [List.cons_append] at h ⊢
  rw [readValue_cons, if_neg hQuote, if_neg hArray, if_neg hObject, h]

theorem constant?_digit {c : Char} (hc : isDigit c = true) (cs : List Char) :
    constant? (c :: cs) = none := by
  have hNe {d : Char} (hd : isDigit d = false) : d ≠ c := by
    rintro rfl
    rw [hd] at hc
    cases hc
  simp [constant?, constants, constantIn?, after?, hNe (by decide : isDigit 'n' = false),
    hNe (by decide : isDigit 't' = false), hNe (by decide : isDigit 'f' = false),
    hNe (by decide : isDigit 'N' = false), hNe (by decide : isDigit 'I' = false),
    hNe (by decide : isDigit '-' = false)]

theorem constant?_minus {c : Char} (hc : isDigit c = true) (cs : List Char) :
    constant? ('-' :: c :: cs) = none := by
  have hLetter : 'I' ≠ c := by
    rintro rfl
    cases hc
  simp [constant?, constants, constantIn?, after?, hLetter]

theorem constant?_ofInt (n : Int) (rest : List Char) :
    constant? (Numeral.ofInt n ++ rest) = none := by
  obtain ⟨d, ds, hDigits, hDigit⟩ := Numeral.exists_digits n.natAbs
  unfold Numeral.ofInt
  split
  · rw [hDigits]
    exact constant?_minus hDigit _
  · rw [hDigits]
    exact constant?_digit hDigit _

/-- A text that begins like a number, and not with a constant, is read as a number. -/
theorem readValue_number {limit : Nat} {c : Char} {cs rest : List Char} {n : Number} {j : Json}
    (hHead : c = '-' ∨ isDigit c = true) (hConstant : constant? (c :: cs) = none)
    (hNumber : number? (c :: cs) = some (n, rest)) (hValue : n.value limit = .ok j) :
    readValue limit (c :: cs) = .ok (j, rest) := by
  have hNe {d : Char} (hd : d ≠ '-' ∧ isDigit d = false) : c ≠ d := ne_of_headInt hHead hd
  rw [readValue_cons, if_neg (hNe (by decide)), if_neg (hNe (by decide)), if_neg (hNe (by decide)),
    hConstant, hNumber]
  simp only [hValue]
  rfl

theorem readValue_int {limit : Nat} {n : Int} (h : (Numeral.digits n.natAbs).length ≤ limit)
    {rest : List Char} (hRest : Stops rest) :
    readValue limit (Numeral.ofInt n ++ rest) = .ok (.int n, rest) := by
  obtain ⟨c, cs, hText, hHead⟩ := head_ofInt n
  have hConstant := constant?_ofInt n rest
  have hNumber := number?_ofInt n hRest
  rw [hText, List.cons_append] at *
  exact readValue_number hHead hConstant hNumber (value_number h)

/-! ## Containers -/

section

variable {limit : Nat} {layout : Layout}

/-- A value is read in front of what may stand behind it. -/
def Returns (limit : Nat) (layout : Layout) (j : Json) : Prop :=
  ∀ depth rest, Stops rest → readValue limit (print layout depth j ++ rest) = .ok (j, rest)

theorem stops_printItems (hLayout : layout.Blank) (depth : Nat) (items : List Json)
    {close : Char} (hClose : continues close = false) (rest : List Char) :
    Stops (printItems layout (depth + 1) items ++ (layout.lead depth ++ close :: rest)) := by
  cases items with
  | nil => exact stops_append (hLayout.lead depth) (stops_cons hClose rest)
  | cons j items => exact stops_cons rfl _

theorem readItems_print (hLayout : layout.Blank) (depth : Nat) {item : Json} {items : List Json}
    (hExact : ∀ j ∈ item :: items, Exact limit j)
    (hReturns : ∀ j ∈ item :: items, Returns limit layout j) (rest : List Char) :
    readItems limit (print layout (depth + 1) item ++
      (printItems layout (depth + 1) items ++ (layout.lead depth ++ ']' :: rest))) =
      .ok (item :: items, rest) := by
  induction items generalizing item with
  | nil =>
      have hItem := hReturns item List.mem_cons_self (depth + 1) _
        (stops_printItems hLayout depth [] (by decide : continues ']' = false) rest)
      rw [readItems_of_readValue hItem, printItems, List.nil_append]
      exact behind_close (hLayout.lead depth) (by decide) item
  | cons next items ih =>
      have hItem := hReturns item List.mem_cons_self (depth + 1) _
        (stops_printItems hLayout depth (next :: items) (by decide : continues ']' = false) rest)
      have hRest := ih (fun j hj => hExact j (List.mem_cons_of_mem _ hj))
        fun j hj => hReturns j (List.mem_cons_of_mem _ hj)
      have hNext := hExact next (List.mem_cons_of_mem _ List.mem_cons_self)
      rw [readItems_of_readValue hItem]
      simp only [printItems, List.cons_append, List.append_assoc]
      rw [← List.nil_append (',' :: _)]
      apply behind_comma (List.forall_mem_nil _) (by decide)
      rw [skipBlanks_append (hLayout.gap _), skipBlanks_print hNext, hRest]

theorem stops_printMembers (hLayout : layout.Blank) (depth : Nat) (members : List (String × Json))
    {close : Char} (hClose : continues close = false) (rest : List Char) :
    Stops (printMembers layout (depth + 1) members ++ (layout.lead depth ++ close :: rest)) := by
  cases members with
  | nil => exact stops_append (hLayout.lead depth) (stops_cons hClose rest)
  | cons m members => exact stops_cons rfl _

def printMember (layout : Layout) (depth : Nat) (m : String × Json) : List Char :=
  quote m.1.toList ++ ':' :: ' ' :: print layout depth m.2

theorem readMember_print (depth : Nat) {m : String × Json} {s : List Char}
    (hExact : Exact limit m.2) (hReturns : Returns limit layout m.2) (hs : Stops s) :
    readMember limit (printMember layout depth m ++ s) = .ok (m, s) := by
  have hText : printMember layout depth m ++ s = '"' :: (m.1.toList.flatMap quoteChar ++
      '"' :: ':' :: ' ' :: (print layout depth m.2 ++ s)) := by
    simp [printMember, quote]
  rw [hText, readMember, if_pos rfl, string_quote]
  apply valueBehind_colon (List.forall_mem_nil _)
  rw [skipBlanks, if_pos (by decide), skipBlanks_print hExact, hReturns depth s hs]

theorem readMembers_print (hLayout : layout.Blank) (depth : Nat) {m : String × Json}
    {members : List (String × Json)} (hExact : ∀ f ∈ m :: members, Exact limit f.2)
    (hReturns : ∀ f ∈ m :: members, Returns limit layout f.2) (rest : List Char) :
    readMembers limit (printMember layout (depth + 1) m ++
      (printMembers layout (depth + 1) members ++ (layout.lead depth ++ '\x7d' :: rest))) =
      .ok (m :: members, rest) := by
  induction members generalizing m with
  | nil =>
      have hMember := readMember_print (depth + 1) (hExact m List.mem_cons_self)
        (hReturns m List.mem_cons_self)
        (stops_printMembers hLayout depth [] (by decide : continues '\x7d' = false) rest)
      rw [readMembers_of_readMember hMember, printMembers, List.nil_append]
      exact behind_close (hLayout.lead depth) (by decide) m
  | cons next members ih =>
      have hRest := ih (fun f hf => hExact f (List.mem_cons_of_mem _ hf))
        fun f hf => hReturns f (List.mem_cons_of_mem _ hf)
      have hText (s : List Char) : printMembers layout (depth + 1) (next :: members) ++ s =
          ',' :: (layout.gap (depth + 1) ++ (printMember layout (depth + 1) next ++
            (printMembers layout (depth + 1) members ++ s))) := by
        simp [printMembers, printMember]
      have hQuote (s : List Char) : skipBlanks (printMember layout (depth + 1) next ++ s) =
          printMember layout (depth + 1) next ++ s :=
        skipBlanks_cons (by decide) _
      have hMember := readMember_print (depth + 1) (hExact m List.mem_cons_self)
        (hReturns m List.mem_cons_self)
        (stops_printMembers hLayout depth (next :: members) (by decide : continues '\x7d' = false)
          rest)
      rw [readMembers_of_readMember hMember, hText, ← List.nil_append (',' :: _)]
      apply behind_comma (List.forall_mem_nil _) (by decide)
      rw [skipBlanks_append (hLayout.gap _), hQuote, hRest]

/-! ## Values -/

/-- **Printed values come back.** In a layout of blanks the text of an exact value is read as the
value, up to whatever does not go on with a number. -/
theorem readValue_print (hLayout : layout.Blank) {j : Json} (h : Exact limit j) :
    Returns limit layout j := by
  induction h with
  | null => exact fun _ rest _ => readValue_word rfl (by decide) (by decide) (by decide)
  | bool b =>
      cases b <;> exact fun _ rest _ => readValue_word rfl (by decide) (by decide) (by decide)
  | int short =>
      intro depth rest hRest
      rw [print]
      exact readValue_int short hRest
  | float allowed => cases allowed
  | text s =>
      intro depth rest _
      have hText : print layout depth (.text s) ++ rest =
          '"' :: (s.toList.flatMap quoteChar ++ '"' :: rest) := by
        simp [print, quote]
      rw [hText, readValue_cons, if_pos rfl, string_quote]
      rfl
  | @array items tidy ih =>
      intro depth rest _
      cases items with
      | nil =>
          rw [print, List.cons_append, readValue_bracket]
          exact container_close (List.forall_mem_nil _) (by decide)
      | cons item items =>
          obtain ⟨c, cs, hFirst, hBlank, hClose, -⟩ := head_print (tidy item List.mem_cons_self) layout
            (depth + 1)
          have hItems := readItems_print hLayout depth tidy ih rest
          have hText : print layout depth (.array (item :: items)) ++ rest =
              '[' :: (layout.lead (depth + 1) ++ (print layout (depth + 1) item ++
                (printItems layout (depth + 1) items ++ (layout.lead depth ++ ']' :: rest)))) := by
            simp [print]
          rw [hText, readValue_bracket]
          rw [hFirst, List.cons_append] at hItems ⊢
          exact container_list (hLayout.lead _) hBlank hClose hItems
  | @object members distinct tidy ih =>
      intro depth rest _
      cases members with
      | nil =>
          rw [print, List.cons_append, readValue_brace]
          exact container_close (List.forall_mem_nil _) (by decide)
      | cons m members =>
          have hMembers := readMembers_print hLayout depth tidy ih rest
          have hText : print layout depth (.object (m :: members)) ++ rest =
              '\x7b' :: (layout.lead (depth + 1) ++ (printMember layout (depth + 1) m ++
                (printMembers layout (depth + 1) members ++
                  (layout.lead depth ++ '\x7d' :: rest)))) := by
            simp [print, printMember]
          -- no member replaces another, since no name comes twice
          have hTable : Entries.ofWrites (· == ·) (m :: members) = m :: members :=
            Entries.ofWrites_eq_self (Entries.distinct_iff_nodup.2 distinct)
          rw [hText, readValue_brace]
          -- a quote, so the object is not taken for an empty one
          rw [printMember, quote, List.cons_append, List.cons_append, List.cons_append] at *
          rw [container_list (hLayout.lead _) (by decide) (by decide) hMembers, hTable]

end

theorem read_print {limit : Nat} {layout : Layout} (hLayout : layout.Blank) {j : Json}
    (h : Exact limit j) {blanks : List Char} (hBlanks : ∀ c ∈ blanks, isBlank c = true) :
    read limit (print layout 0 j ++ blanks) = .ok j := by
  obtain ⟨c, cs, hText, -, -, hMark⟩ := head_print h layout 0
  have hHead : (print layout 0 j ++ blanks).head? ≠ some '\uFEFF' := by
    rw [hText]
    exact fun hEq => hMark (Option.some.inj hEq)
  rw [read, if_neg hHead, skipBlanks_print h,
    readValue_print hLayout h 0 blanks (stops_blanks hBlanks)]
  simp only [skipBlanks_eq_nil hBlanks]

end NinjaFile.Json
