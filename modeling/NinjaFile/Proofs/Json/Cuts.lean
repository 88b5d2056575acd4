import NinjaFile.Proofs.Json.Printing

/-!
# Cut texts are malformed

A printed value that is cut short is refused as malformed, wherever the cut falls
(`cutShort_print`), with one exception: what is left of an integer may be an integer.
Then the whole text has ended, and so the array or object around it is malformed
instead; only an integer on its own can be cut and still be read.

As for the way back of printed values the induction is on what makes the value exact,
and the readers of items and of members follow the lists one comma at a time. In front
of the cut everything is read as it is in the whole text, so each lemma finds the
token that the cut is in.
-/

namespace NinjaFile.Json

/-! ## Cuts -/

def Cut (front whole : List Char) : Prop :=
  ∃ back, back ≠ [] ∧ front ++ back = whole

theorem not_cut_nil (front : List Char) : ¬Cut front [] := by
  rintro ⟨back, hBack, h⟩
  exact hBack (List.append_eq_nil_iff.1 h).2

theorem cut_cons {front whole : List Char} {c : Char} (h : Cut front (c :: whole)) :
    front = [] ∨ ∃ front', front = c :: front' ∧ Cut front' whole := by
  obtain ⟨back, hBack, hWhole⟩ := h
  cases front with
  | nil => exact Or.inl rfl
  | cons d front =>
      obtain ⟨rfl, hRest⟩ := List.cons.inj hWhole
      exact Or.inr ⟨front, rfl, back, hBack, hRest⟩

theorem cut_append {front a b : List Char} (h : Cut front (a ++ b)) :
    Cut front a ∨ ∃ front', front = a ++ front' ∧ Cut front' b := by
  obtain ⟨back, hBack, hWhole⟩ := h
  rcases List.append_eq_append_iff.1 hWhole with ⟨as, hA, hB⟩ | ⟨bs, hFront, hB⟩
  · by_cases hNil : as = []
    · subst hNil
      exact Or.inr ⟨[], by simpa using hA.symm, back, hBack, by simpa using hB⟩
    · exact Or.inl ⟨as, hNil, hA.symm⟩
  · exact Or.inr ⟨bs, hFront, back, hBack, hB.symm⟩

theorem cut_skipBlanks {blanks front whole : List Char} (hBlanks : ∀ c ∈ blanks, isBlank c = true)
    {c : Char} {cs : List Char} (hWhole : whole = c :: cs) (hc : isBlank c = false)
    (h : Cut front (blanks ++ whole)) : Cut (skipBlanks front) whole := by
  rcases cut_append h with ⟨back, -, hInside⟩ | ⟨front', rfl, hBehind⟩
  · -- only blanks are left
    have hFront : skipBlanks front = [] :=
      skipBlanks_eq_nil fun d hd => hBlanks d (hInside ▸ List.mem_append_left _ hd)
    rw [hFront]
    exact ⟨whole, by simp [hWhole], rfl⟩
  · rw [skipBlanks_append hBlanks]
    subst hWhole
    rcases cut_cons hBehind with rfl | ⟨front, rfl, -⟩
    · exact hBehind
    · rwa [skipBlanks_cons hc]

theorem stops_of_cut {front whole : List Char} (h : Cut front whole) (hWhole : Stops whole) :
    Stops front := by
  obtain ⟨back, -, rfl⟩ := h
  cases front with
  | nil => exact stops_nil
  | cons c front => exact stops_cons (hWhole c rfl) front

def Malformed {α : Type} (result : Except Refusal α) : Prop :=
  ∃ defect rest, result = .error (.malformed defect rest)

theorem Malformed.map {α β : Type} {result : Except Refusal α} (h : Malformed result)
    (f : α → β) : Malformed (result.map f) := by
  obtain ⟨defect, rest, rfl⟩ := h
  exact ⟨defect, rest, rfl⟩

/-! ## Strings -/

/-- The same place, with another text remembered. -/
def Place.withStart (start : List Char) : Place → Place
  | .plain => .plain
  | .escape _ => .escape start
  | .digits _ left value => .digits start left value

/-- Pieces are malformed, or they are read again with more behind them. The texts that a place
remembers are for refusals only. -/
theorem pieces_append (opening : List Char) (place : Place) (s : List Char) :
    Malformed (pieces opening place s) ∨
      ∃ ps rest, pieces opening place s = .ok (ps, rest) ∧ ∀ opening' start more,
        pieces opening' (place.withStart start) (s ++ more) = .ok (ps, rest ++ more) := by
  induction s generalizing place with
  | nil =>
      left
      cases place <;> exact ⟨_, _, rfl⟩
  | cons c s ih =>
      -- one more piece, and then the others
      have next (p : Piece) :
          Malformed (pieces opening .plain s >>= fun r => pure (p :: r.1, r.2)) ∨
            ∃ ps rest, (pieces opening .plain s >>= fun r => pure (p :: r.1, r.2)) =
                .ok (ps, rest) ∧
              ∀ opening' (_ : List Char) more,
                (pieces opening' .plain (s ++ more) >>= fun r => pure (p :: r.1, r.2)) =
                  .ok (ps, rest ++ more) := by
        rcases ih .plain with ⟨defect, rest, hMalformed⟩ | ⟨ps, rest, hRead, hMore⟩
        · left
          rw [hMalformed]
          exact ⟨defect, rest, rfl⟩
        · refine Or.inr ⟨p :: ps, rest, by rw [hRead]; rfl, ?_⟩
          intro opening' start more
          have hPlain : pieces opening' .plain (s ++ more) = _ := hMore opening' start more
          rw [hPlain]
          rfl
      cases place with
      | plain =>
          simp only [List.cons_append, Place.withStart, pieces]
          by_cases hQuote : c = '"'
          · simp only [if_pos hQuote]
            exact Or.inr ⟨[], s, rfl, fun _ _ _ => rfl⟩
          by_cases hBackslash : c = '\\'
          · simp only [if_neg hQuote, if_pos hBackslash]
            rcases ih (.escape (c :: s)) with hMalformed | ⟨ps, rest, hRead, hMore⟩
            · exact Or.inl hMalformed
            · exact Or.inr ⟨ps, rest, hRead, fun opening' _ more => hMore opening' _ more⟩
          by_cases hControl : c < ' '
          · simp only [if_neg hQuote, if_neg hBackslash, if_pos hControl]
            exact Or.inl ⟨_, _, rfl⟩
          · simp only [if_neg hQuote, if_neg hBackslash, if_neg hControl]
            exact next (.char c)
      | escape remembered =>
          simp only [List.cons_append, Place.withStart, pieces]
          by_cases hUnit : c = 'u'
          · simp only [if_pos hUnit]
            rcases ih (.digits (c :: s) 3 0) with hMalformed | ⟨ps, rest, hRead, hMore⟩
            · exact Or.inl hMalformed
            · exact Or.inr ⟨ps, rest, hRead, fun opening' _ more => hMore opening' _ more⟩
          · simp only [if_neg hUnit]
            cases escaped? c with
            | none => exact Or.inl ⟨_, _, rfl⟩
            | some d => exact next (.char d)
      | digits remembered left value =>
          simp only [List.cons_append, Place.withStart, pieces]
          cases Hex.value? c with
          | none => exact Or.inl ⟨_, _, rfl⟩
          | some v =>
              cases left with
              | succ left =>
                  exact ih (.digits remembered left (16 * value + v))
              | zero =>
                  cases s with
                  | nil => exact Or.inl ⟨_, _, rfl⟩
                  | cons d s => exact next (.unit (16 * value + v))

theorem malformed_string {opening front : List Char} {s : String}
    (h : Cut front (s.toList.flatMap quoteChar ++ ['"'])) : Malformed (string opening front) := by
  obtain ⟨back, hBack, hWhole⟩ := h
  rcases pieces_append opening .plain front with ⟨defect, rest, hMalformed⟩ | ⟨ps, rest, -, hMore⟩
  · rw [string, hMalformed]
    exact ⟨defect, rest, rfl⟩
  · -- it would end in the whole string at the same place
    obtain ⟨ps', hRead, -⟩ := exists_pieces opening s.toList []
    have hAgain := hMore opening [] back
    rw [hWhole, Place.withStart, hRead] at hAgain
    have hRest : [] = rest ++ back := (Prod.mk.inj (Except.ok.inj hAgain)).2
    exact absurd (List.append_eq_nil_iff.1 hRest.symm).2 hBack

/-! ## Words and integers -/

/-- What is left of a cut value: it is malformed, unless an integer is left of an integer. -/
def CutShort (limit : Nat) (j : Json) (front : List Char) : Prop :=
  Malformed (readValue limit front) ∨
    ∃ m n, j = .int m ∧ readValue limit front = .ok (.int n, [])

theorem malformed_nil (limit : Nat) : Malformed (readValue limit []) :=
  ⟨_, _, readValue_nil limit⟩

theorem malformed_of_no_token {limit : Nat} {c : Char} {cs : List Char}
    (hStart : c ≠ '"' ∧ c ≠ '[' ∧ c ≠ '\x7b') (hConstant : constant? (c :: cs) = none)
    (hNumber : number? (c :: cs) = none) : Malformed (readValue limit (c :: cs)) := by
  refine ⟨.expectingValue, c :: cs, ?_⟩
  rw [readValue_cons, if_neg hStart.1, if_neg hStart.2.1, if_neg hStart.2.2, hConstant, hNumber]

theorem malformed_word {limit : Nat} {c : Char} {cs front : List Char}
    (hStart : c ≠ '"' ∧ c ≠ '[' ∧ c ≠ '\x7b') (hNumber : c ≠ '-' ∧ isDigit c = false)
    (hConstant : ∀ k < cs.length, (constant? (c :: cs.take k)).isNone = true)
    (h : Cut front (c :: cs)) : Malformed (readValue limit front) := by
  rcases cut_cons h with rfl | ⟨front, rfl, back, hBack, hWhole⟩
  · exact malformed_nil limit
  · apply malformed_of_no_token hStart
    · have hLength : front.length < cs.length := by
        rw [← hWhole, List.length_append]
        exact Nat.lt_add_of_pos_right (List.length_pos_iff.2 hBack)
      have hNone := hConstant front.length hLength
      rw [← hWhole, List.take_left] at hNone
      exact Option.isNone_iff_eq_none.1 hNone
    · have hZero : c ≠ '0' := by
        rintro rfl
        cases hNumber.2
      simp only [number?, numberSign, if_neg hNumber.1, wholePart?, if_neg hZero, hNumber.2]
      rfl

theorem exists_digits_of_append {n : Nat} {front back : List Char} (hFront : front ≠ [])
    (h : Numeral.digits n = front ++ back) :
    ∃ m, front = Numeral.digits m ∧ (0 < n → 0 < m) := by
  induction n using Nat.strongRecOn generalizing back with
  | ind n ih =>
      rcases List.eq_nil_or_concat back with rfl | ⟨back, d, rfl⟩
      · rw [List.append_nil] at h
        exact ⟨n, h.symm, fun hn => hn⟩
      · rw [List.concat_eq_append] at h
        by_cases hSmall : n < 10
        · -- one digit is not cut
          have hLength := congrArg List.length h
          have hPositive := List.length_pos_iff.2 hFront
          rw [Numeral.digits, Nat.toDigits_of_lt_base hSmall] at hLength
          simp only [List.length_append, List.length_cons, List.length_nil] at hLength
          omega
        · rw [Numeral.digits, Nat.toDigits_of_base_le (by decide) (Nat.le_of_not_lt hSmall),
            ← List.append_assoc] at h
          obtain ⟨m, hDigits, hPositive⟩ := ih (n / 10) (by omega)
            (List.append_inj_left' h rfl)
          exact ⟨m, hDigits, fun _ => hPositive (by omega)⟩

theorem cutShort_int {limit : Nat} {n : Int} (hn : (Numeral.digits n.natAbs).length ≤ limit)
    {front : List Char} (h : Cut front (Numeral.ofInt n)) : CutShort limit (.int n) front := by
  -- the digits in front of the cut are those of another integer with the sign of this one
  have hInt {k : Int} {back : List Char} (hFront : front = Numeral.ofInt k)
      (hDigits : Numeral.digits n.natAbs = Numeral.digits k.natAbs ++ back) :
      CutShort limit (.int n) front := by
    have hLength := congrArg List.length hDigits
    rw [List.length_append] at hLength
    have hDigitsShort : (Numeral.digits k.natAbs).length ≤ limit := by omega
    have hRead := readValue_int hDigitsShort stops_nil
    rw [List.append_nil, ← hFront] at hRead
    exact Or.inr ⟨n, k, rfl, hRead⟩
  have hEmpty : front = [] → CutShort limit (.int n) front := by
    rintro rfl
    exact Or.inl (malformed_nil limit)
  unfold Numeral.ofInt at h
  split at h
  · rename_i hNegative
    rcases cut_cons h with hNil | ⟨ds, rfl, back, -, hDigits⟩
    · exact hEmpty hNil
    by_cases hNil : ds = []
    · subst hNil
      exact Or.inl (malformed_of_no_token (by decide) rfl rfl)
    · obtain ⟨m, rfl, hPositive⟩ := exists_digits_of_append hNil hDigits.symm
      have hm : 0 < m := hPositive (by omega)
      have hAbs : (-(m : Int)).natAbs = m := by omega
      refine hInt (k := -m) ?_ (by rw [hAbs]; exact hDigits.symm)
      rw [Numeral.ofInt, if_pos (by omega), hAbs]
  · obtain ⟨back, -, hDigits⟩ := h
    by_cases hNil : front = []
    · exact hEmpty hNil
    · obtain ⟨m, rfl, -⟩ := exists_digits_of_append hNil hDigits.symm
      refine hInt (k := m) ?_ hDigits.symm
      rw [Numeral.ofInt, if_neg (by omega), Int.natAbs_natCast]

/-! ## Containers -/

section

variable {limit : Nat} {layout : Layout}

/-- A value that is cut anywhere is cut short. -/
def Breaks (limit : Nat) (layout : Layout) (j : Json) : Prop :=
  ∀ depth front, Cut front (print layout depth j) → CutShort limit j front

/-- A value that is cut, or behind which is cut, is malformed or read up to what is left behind. -/
theorem cut_print {j : Json} (hExact : Exact limit j) (hLayout : layout.Blank)
    (hBreaks : Breaks limit layout j) {depth : Nat} {front behind : List Char}
    (hStops : Stops behind) (hBehind : behind ≠ [])
    (h : Cut front (print layout depth j ++ behind)) :
    Malformed (readValue limit front) ∨
      ∃ j' front', readValue limit front = .ok (j', front') ∧ Cut front' behind := by
  rcases cut_append h with hInside | ⟨front', rfl, hOutside⟩
  · rcases hBreaks depth front hInside with hMalformed | ⟨-, n, -, hRead⟩
    · exact Or.inl hMalformed
    · exact Or.inr ⟨.int n, [], hRead, behind, hBehind, rfl⟩
  · exact Or.inr ⟨j, front', readValue_print hLayout hExact depth front'
      (stops_of_cut hOutside hStops), hOutside⟩

theorem skipBlanks_cut_close (hLayout : layout.Blank) {depth : Nat} {close : Char}
    (hClose : isBlank close = false) {front : List Char}
    (h : Cut front (layout.lead depth ++ [close])) : skipBlanks front = [] := by
  rcases cut_cons (cut_skipBlanks (hLayout.lead depth) rfl hClose h) with hNil | ⟨_, _, hEnd⟩
  · exact hNil
  · exact absurd hEnd (not_cut_nil _)

theorem cut_skipBlanks_print (hLayout : layout.Blank) {j : Json} (hExact : Exact limit j)
    {depth : Nat} {front behind : List Char}
    (h : Cut front (layout.gap depth ++ (print layout depth j ++ behind))) :
    Cut (skipBlanks front) (print layout depth j ++ behind) := by
  obtain ⟨c, cs, hText, hBlank, -, -⟩ := head_print hExact layout depth
  exact cut_skipBlanks (hLayout.gap depth) (by rw [hText, List.cons_append]) hBlank h

theorem malformed_items (hLayout : layout.Blank) (depth : Nat) {item : Json} {items : List Json}
    (hExact : ∀ j ∈ item :: items, Exact limit j)
    (hBreaks : ∀ j ∈ item :: items, Breaks limit layout j) {front : List Char}
    (h : Cut front (print layout (depth + 1) item ++
      (printItems layout (depth + 1) items ++ (layout.lead depth ++ [']'])))) :
    Malformed (readItems limit front) := by
  induction items generalizing item front with
  | nil =>
      rcases cut_print (hExact item List.mem_cons_self) hLayout (hBreaks item List.mem_cons_self)
        (stops_printItems hLayout depth [] (by decide : continues ']' = false) []) (by simp) h with
        ⟨defect, rest, hMalformed⟩ | ⟨j, front', hRead, hCut⟩
      · exact ⟨defect, rest, by rw [readItems_eq, hMalformed]⟩
      · refine ⟨.expectingComma, [], ?_⟩
        rw [readItems_eq, hRead]
        simp only [skipBlanks_cut_close hLayout (by decide : isBlank ']' = false) hCut]
  | cons next items ih =>
      rcases cut_print (hExact item List.mem_cons_self) hLayout (hBreaks item List.mem_cons_self)
        (stops_printItems hLayout depth (next :: items) (by decide : continues ']' = false) [])
        (by simp) h with ⟨defect, rest, hMalformed⟩ | ⟨j, front', hRead, hCut⟩
      · exact ⟨defect, rest, by rw [readItems_eq, hMalformed]⟩
      simp only [printItems, List.cons_append, List.append_assoc] at hCut
      rcases cut_cons hCut with rfl | ⟨front', rfl, hNext⟩
      · exact ⟨.expectingComma, [], by rw [readItems_eq, hRead]; rfl⟩
      · have hItem := hExact next (List.mem_cons_of_mem _ List.mem_cons_self)
        have hRest := ih (fun j hj => hExact j (List.mem_cons_of_mem _ hj))
          (fun j hj => hBreaks j (List.mem_cons_of_mem _ hj))
          (cut_skipBlanks_print hLayout hItem hNext)
        rw [readItems_eq, hRead]
        simp only [skipBlanks_cons (by decide : isBlank ',' = false),
          if_neg (by decide : ¬ ',' = ']'), if_true]
        exact hRest.map _

theorem cut_printMember {m : String × Json} (hExact : Exact limit m.2) (hLayout : layout.Blank)
    (hBreaks : Breaks limit layout m.2) {depth : Nat} {front behind : List Char}
    (hStops : Stops behind) (hBehind : behind ≠ [])
    (h : Cut front (printMember layout depth m ++ behind)) :
    Malformed (readMembers limit front) ∨
      ∃ m' front', Cut front' behind ∧ readMembers limit front =
        match skipBlanks front' with
        | [] => .error (.malformed .expectingComma [])
        | d :: tail =>
          if d = '\x7d' then .ok ([m'], tail)
          else if d = ',' then (readMembers limit (skipBlanks tail)).map fun r => (m' :: r.1, r.2)
          else .error (.malformed .expectingComma (d :: tail)) := by
  have hText : printMember layout depth m ++ behind = '"' :: ((m.1.toList.flatMap quoteChar ++
      ['"']) ++ ':' :: ([' '] ++ (print layout depth m.2 ++ behind))) := by
    simp [printMember, quote]
  rw [hText] at h
  -- in front of the name, in it, in front of the colon, or behind that
  rcases cut_cons h with rfl | ⟨front, rfl, hName⟩
  · exact Or.inl ⟨_, _, readMembers_nil limit⟩
  rcases cut_append hName with hInside | ⟨front, rfl, hColon⟩
  · obtain ⟨defect, rest, hMalformed⟩ : Malformed (string ('"' :: front) front) :=
      malformed_string hInside
    exact Or.inl ⟨defect, rest, by rw [readMembers_cons, if_pos rfl, hMalformed]⟩
  have hRead : string ('"' :: ((m.1.toList.flatMap quoteChar ++ ['"']) ++ front))
      ((m.1.toList.flatMap quoteChar ++ ['"']) ++ front) = .ok (m.1, front) := by
    rw [List.append_assoc, List.singleton_append]
    exact string_quote _ m.1 front
  rw [readMembers_cons, if_pos rfl, hRead]
  rcases cut_cons hColon with rfl | ⟨front, rfl, hValue⟩
  · exact Or.inl ⟨.expectingColon, [], rfl⟩
  simp only [skipBlanks_cons (by decide : isBlank ':' = false), if_true]
  obtain ⟨c, cs, hFirst, hBlank, -, -⟩ := head_print hExact layout depth
  have hGap : ∀ d ∈ [' '], isBlank d = true := List.forall_mem_singleton.2 rfl
  have hSkipped := cut_skipBlanks hGap (by rw [hFirst, List.cons_append]) hBlank hValue
  rcases cut_print hExact hLayout hBreaks hStops hBehind hSkipped with
    ⟨defect, rest, hMalformed⟩ | ⟨j, front', hRest, hCut⟩
  · exact Or.inl ⟨defect, rest, by rw [hMalformed]⟩
  · refine Or.inr ⟨(m.1, j), front', hCut, ?_⟩
    generalize readValue limit (skipBlanks front) = result at hRest ⊢
    subst hRest
    rfl

theorem malformed_members (hLayout : layout.Blank) (depth : Nat) {m : String × Json}
    {members : List (String × Json)} (hExact : ∀ f ∈ m :: members, Exact limit f.2)
    (hBreaks : ∀ f ∈ m :: members, Breaks limit layout f.2) {front : List Char}
    (h : Cut front (printMember layout (depth + 1) m ++
      (printMembers layout (depth + 1) members ++ (layout.lead depth ++ ['\x7d'])))) :
    Malformed (readMembers limit front) := by
  induction members generalizing m front with
  | nil =>
      rcases cut_printMember (hExact m List.mem_cons_self) hLayout (hBreaks m List.mem_cons_self)
        (stops_printMembers hLayout depth [] (by decide : continues '\x7d' = false) []) (by simp) h
        with hMalformed | ⟨m', front', hCut, hRead⟩
      · exact hMalformed
      · rw [hRead, skipBlanks_cut_close hLayout (by decide : isBlank '\x7d' = false) hCut]
        exact ⟨.expectingComma, [], rfl⟩
  | cons next members ih =>
      rcases cut_printMember (hExact m List.mem_cons_self) hLayout (hBreaks m List.mem_cons_self)
        (stops_printMembers hLayout depth (next :: members) (by decide : continues '\x7d' = false)
          []) (by simp) h with hMalformed | ⟨m', front', hCut, hRead⟩
      · exact hMalformed
      have hText (s : List Char) : printMembers layout (depth + 1) (next :: members) ++ s =
          ',' :: (layout.gap (depth + 1) ++ (printMember layout (depth + 1) next ++
            (printMembers layout (depth + 1) members ++ s))) := by
        simp [printMembers, printMember]
      rw [hText] at hCut
      rw [hRead]
      rcases cut_cons hCut with rfl | ⟨front', rfl, hNext⟩
      · exact ⟨.expectingComma, [], rfl⟩
      · have hRest := ih (fun f hf => hExact f (List.mem_cons_of_mem _ hf))
          (fun f hf => hBreaks f (List.mem_cons_of_mem _ hf))
          (cut_skipBlanks (hLayout.gap _) (c := '"') rfl (by decide) hNext)
        simp only [skipBlanks_cons (by decide : isBlank ',' = false),
          if_neg (by decide : ¬ ',' = '\x7d'), if_true]
        exact hRest.map _

/-! ## Values -/

/-- **A cut value is cut short.** It is malformed, unless an integer is left of an integer. -/
theorem cutShort_print (hLayout : layout.Blank) {j : Json} (h : Exact limit j) :
    Breaks limit layout j := by
  induction h with
  | null =>
      exact fun _ front hCut => Or.inl (malformed_word (by decide) (by decide) (by decide) hCut)
  | bool b =>
      cases b <;>
        exact fun _ front hCut => Or.inl (malformed_word (by decide) (by decide) (by decide) hCut)
  | int short => exact fun _ front hCut => cutShort_int short hCut
  | float allowed => cases allowed
  | text s =>
      intro depth front hCut
      left
      rcases cut_cons hCut with rfl | ⟨front, rfl, hInside⟩
      · exact malformed_nil limit
      · rw [readValue_cons, if_pos rfl]
        exact (malformed_string hInside).map _
  | @array items tidy ih =>
      intro depth front hCut
      left
      cases items with
      | nil =>
          rcases cut_cons hCut with rfl | ⟨front, rfl, hEnd⟩
          · exact malformed_nil limit
          rcases cut_cons hEnd with rfl | ⟨_, _, hNil⟩
          · exact ⟨.expectingValue, [], by rw [readValue_cons]; rfl⟩
          · exact absurd hNil (not_cut_nil _)
      | cons item items =>
          obtain ⟨c, cs, hFirst, hBlank, hClose, -⟩ := head_print (tidy item List.mem_cons_self)
            layout (depth + 1)
          have hText : print layout depth (.array (item :: items)) =
              '[' :: (layout.lead (depth + 1) ++ (print layout (depth + 1) item ++
                (printItems layout (depth + 1) items ++ (layout.lead depth ++ [']'])))) := by
            simp [print]
          rw [hText] at hCut
          rcases cut_cons hCut with rfl | ⟨front, rfl, hInside⟩
          · exact malformed_nil limit
          rw [readValue_cons, if_neg (by decide), if_pos rfl]
          have hItems := cut_skipBlanks (hLayout.lead _) (by rw [hFirst, List.cons_append]) hBlank
            hInside
          have hMalformed := malformed_items hLayout depth tidy ih hItems
          rw [hFirst, List.cons_append] at hItems
          rcases cut_cons hItems with hNil | ⟨tail, hSkip, -⟩
          · rw [hNil]
            exact ⟨.expectingValue, [], rfl⟩
          · rw [hSkip] at hMalformed ⊢
            simp only [if_neg hClose]
            exact hMalformed.map _
  | @object members distinct tidy ih =>
      intro depth front hCut
      left
      cases members with
      | nil =>
          rcases cut_cons hCut with rfl | ⟨front, rfl, hEnd⟩
          · exact malformed_nil limit
          rcases cut_cons hEnd with rfl | ⟨_, _, hNil⟩
          · exact ⟨.expectingName, [], by rw [readValue_cons]; rfl⟩
          · exact absurd hNil (not_cut_nil _)
      | cons m members =>
          have hText : print layout depth (.object (m :: members)) =
              '\x7b' :: (layout.lead (depth + 1) ++ (printMember layout (depth + 1) m ++
                (printMembers layout (depth + 1) members ++
                  (layout.lead depth ++ ['\x7d'])))) := by
            simp [print, printMember]
          rw [hText] at hCut
          rcases cut_cons hCut with rfl | ⟨front, rfl, hInside⟩
          · exact malformed_nil limit
          rw [readValue_cons, if_neg (by decide), if_neg (by decide), if_pos rfl]
          have hMembers := cut_skipBlanks (hLayout.lead _) (c := '"') rfl (by decide) hInside
          have hMalformed := malformed_members hLayout depth tidy ih hMembers
          -- a quote, so the object is not taken for an empty one
          rcases cut_cons (c := '"') hMembers with hNil | ⟨tail, hSkip, -⟩
          · rw [hNil]
            exact ⟨.expectingName, [], rfl⟩
          · rw [hSkip] at hMalformed ⊢
            simp only [if_neg (by decide : ¬ '"' = '\x7d')]
            exact hMalformed.map _

end

/-- **A cut text is malformed**, if it is the text of an object. -/
theorem malformed_read {limit : Nat} {layout : Layout} (hLayout : layout.Blank)
    {members : List (String × Json)} (h : Exact limit (.object members)) {front : List Char}
    (hCut : Cut front (print layout 0 (.object members))) : Malformed (read limit front) := by
  obtain ⟨c, cs, hText, hBlank, -, hMark⟩ := head_print h layout 0
  have hHead : front.head? ≠ some '\uFEFF' ∧ skipBlanks front = front := by
    rw [hText] at hCut
    rcases cut_cons hCut with rfl | ⟨front, rfl, -⟩
    · exact ⟨by simp, rfl⟩
    · exact ⟨fun hEq => hMark (Option.some.inj hEq), skipBlanks_cons hBlank front⟩
  rcases cutShort_print hLayout h 0 front hCut with ⟨defect, rest, hMalformed⟩ | ⟨_, _, hInt, _⟩
  · refine ⟨defect, rest, ?_⟩
    rw [read, if_neg hHead.1, hHead.2, hMalformed]
  · cases hInt

end NinjaFile.Json
