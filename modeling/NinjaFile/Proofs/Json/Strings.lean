import NinjaFile.Json.Token

/-!
# Strings come back

A quoted string is read back as it was (`string_quote`), whatever follows its
closing quote. Reading has two steps, so there are two things to know of each
character: the pieces that its quoted form is read as, and that these are joined
into the character again in front of any others. `Spells` is both at once.
-/

namespace NinjaFile.Hex

theorem value?_digit {n : Nat} (h : n < 16) : value? (digit n) = some n := by
  have hAll : (List.range 16).all (fun n => value? (digit n) == some n) = true := by decide
  simpa using List.all_eq_true.1 hAll n (List.mem_range.2 h)

end NinjaFile.Hex

namespace NinjaFile.Json

/-! ## Reading pieces -/

section

variable {opening rest tail : List Char} {ps : List Piece}

theorem pieces_char {c : Char} (hQuote : c ≠ '"') (hBackslash : c ≠ '\\') (hControl : ¬ c < ' ')
    (h : pieces opening .plain rest = .ok (ps, tail)) :
    pieces opening .plain (c :: rest) = .ok (.char c :: ps, tail) := by
  rw [pieces, if_neg hQuote, if_neg hBackslash, if_neg hControl, h]
  rfl

theorem pieces_letter {letter c : Char} (hLetter : escaped? letter = some c) (hUnit : letter ≠ 'u')
    (h : pieces opening .plain rest = .ok (ps, tail)) :
    pieces opening .plain ('\\' :: letter :: rest) = .ok (.char c :: ps, tail) := by
  rw [pieces, if_neg (by decide), if_pos rfl, pieces, if_neg hUnit, hLetter]
  show (pieces opening .plain rest >>= _) = _
  rw [h]
  rfl

theorem pieces_digit {start : List Char} {left value n : Nat} (hn : n < 16) :
    pieces opening (.digits start (left + 1) value) (Hex.digit n :: rest) =
      pieces opening (.digits start left (16 * value + n)) rest := by
  rw [pieces, Hex.value?_digit hn]

theorem pieces_lastDigit {start : List Char} {value n : Nat} (hn : n < 16) (hRest : rest ≠ [])
    (h : pieces opening .plain rest = .ok (ps, tail)) :
    pieces opening (.digits start 0 value) (Hex.digit n :: rest) =
      .ok (.unit (16 * value + n) :: ps, tail) := by
  have hEmpty : rest.isEmpty = false := by simpa using hRest
  rw [pieces, Hex.value?_digit hn]
  simp only [hEmpty, h]
  rfl

/-- A unit escape is read as its unit if anything follows it. -/
theorem pieces_unitEscape {unit : Nat} (hUnit : unit < 0x10000) (hRest : rest ≠ [])
    (h : pieces opening .plain rest = .ok (ps, tail)) :
    pieces opening .plain (unitEscape unit ++ rest) = .ok (.unit unit :: ps, tail) := by
  have hDigits : Hex.fixed 4 unit = [Hex.digit (unit / 16 / 16 / 16 % 16),
      Hex.digit (unit / 16 / 16 % 16), Hex.digit (unit / 16 % 16), Hex.digit (unit % 16)] := rfl
  have hValue : 16 * (16 * (16 * (16 * 0 + unit / 16 / 16 / 16 % 16) + unit / 16 / 16 % 16) +
      unit / 16 % 16) + unit % 16 = unit := by omega
  rw [unitEscape, hDigits]
  simp only [List.cons_append, List.nil_append]
  rw [pieces, if_neg (by decide), if_pos rfl, pieces, if_pos rfl,
    pieces_digit (Nat.mod_lt _ (by decide)), pieces_digit (Nat.mod_lt _ (by decide)),
    pieces_digit (Nat.mod_lt _ (by decide)),
    pieces_lastDigit (Nat.mod_lt _ (by decide)) hRest h, hValue]

end

/-! ## Joining pieces -/

theorem join_unit {unit : Nat} (h : isHigh unit = false) (ps : List Piece) :
    join (.unit unit :: ps) = loneUnit unit :: join ps := by
  cases ps with
  | nil => rfl
  | cons p ps =>
      cases p with
      | char c => rfl
      | unit low =>
          rw [join, if_neg]
          simp [h]

theorem join_pair {high low : Nat} (hHigh : isHigh high = true) (hLow : isLow low = true)
    (ps : List Piece) : join (.unit high :: .unit low :: ps) =
      Char.ofNat (0x10000 + (high - 0xD800) * 0x400 + (low - 0xDC00)) :: join ps := by
  rw [join, if_pos]
  rw [hHigh, hLow]
  rfl

/-! ## Characters -/

/-- The quoted form of a character is read as some pieces, and they are joined into the
character. -/
def Spells (c : Char) (ps : List Piece) : Prop :=
  (∀ opening rest more tail, rest ≠ [] → pieces opening .plain rest = .ok (more, tail) →
    pieces opening .plain (quoteChar c ++ rest) = .ok (ps ++ more, tail)) ∧
  ∀ more, join (ps ++ more) = c :: join more

theorem spells_letter {c letter : Char} (hQuote : quoteChar c = ['\\', letter])
    (hLetter : escaped? letter = some c) (hUnit : letter ≠ 'u') : Spells c [.char c] := by
  refine ⟨?_, fun more => rfl⟩
  intro opening rest more tail _ h
  rw [hQuote]
  exact pieces_letter hLetter hUnit h

theorem spells_units {c : Char} (hQuote : quoteChar c = (units c.toNat).flatMap unitEscape) :
    Spells c ((units c.toNat).map .unit) := by
  have hValid : c.toNat < 0xD800 ∨ 0xDFFF < c.toNat ∧ c.toNat < 0x110000 := c.valid
  by_cases hPlane : c.toNat < 0x10000
  · have hUnits : units c.toNat = [c.toNat] := by rw [units, if_pos hPlane]
    rw [Spells, hQuote, hUnits]
    constructor
    · intro opening rest more tail hRest h
      simpa using pieces_unitEscape hPlane hRest h
    · intro more
      have hHigh : isHigh c.toNat = false := by
        simp only [isHigh, Bool.and_eq_false_iff, decide_eq_false_iff_not]
        omega
      have hLow : isLow c.toNat = false := by
        simp only [isLow, Bool.and_eq_false_iff, decide_eq_false_iff_not]
        omega
      show join (.unit c.toNat :: more) = c :: join more
      rw [join_unit hHigh, loneUnit, hHigh, hLow, if_neg (by decide), Char.ofNat_toNat]
  · have hUnits : units c.toNat = [0xD800 + (c.toNat - 0x10000) / 0x400,
        0xDC00 + (c.toNat - 0x10000) % 0x400] := by rw [units, if_neg hPlane]
    rw [Spells, hQuote, hUnits]
    constructor
    · intro opening rest more tail hRest h
      have hLowUnit : 0xDC00 + (c.toNat - 0x10000) % 0x400 < 0x10000 := by omega
      have hHighUnit : 0xD800 + (c.toNat - 0x10000) / 0x400 < 0x10000 := by omega
      have hHigh := pieces_unitEscape hHighUnit (by simp [unitEscape])
        (pieces_unitEscape hLowUnit hRest h)
      simpa using hHigh
    · intro more
      have hHigh : isHigh (0xD800 + (c.toNat - 0x10000) / 0x400) = true := by
        simp only [isHigh, Bool.and_eq_true, decide_eq_true_eq]
        omega
      have hLow : isLow (0xDC00 + (c.toNat - 0x10000) % 0x400) = true := by
        simp only [isLow, Bool.and_eq_true, decide_eq_true_eq]
        omega
      have hCode : 0x10000 + (0xD800 + (c.toNat - 0x10000) / 0x400 - 0xD800) * 0x400 +
          (0xDC00 + (c.toNat - 0x10000) % 0x400 - 0xDC00) = c.toNat := by omega
      show join (.unit _ :: .unit _ :: more) = c :: join more
      rw [join_pair hHigh hLow, hCode, Char.ofNat_toNat]

theorem exists_spells (c : Char) : ∃ ps, Spells c ps := by
  by_cases hLetter : c ∈ ['"', '\\', '\n', '\r', '\t', '\x08', '\x0c']
  · -- a backslash and a letter
    simp only [List.mem_cons, List.not_mem_nil, or_false] at hLetter
    rcases hLetter with rfl | rfl | rfl | rfl | rfl | rfl | rfl
    all_goals exact ⟨_, spells_letter rfl rfl (by decide)⟩
  simp only [List.mem_cons, List.not_mem_nil, or_false, not_or] at hLetter
  obtain ⟨hQuote, hBackslash, hNewline, hReturn, hTab, hBackspace, hFeed⟩ := hLetter
  by_cases hVisible : ' ' ≤ c ∧ c ≤ '~'
  · -- the character itself
    refine ⟨[.char c], ?_, fun more => rfl⟩
    intro opening rest more tail _ h
    have hForm : quoteChar c = [c] := by
      simp only [quoteChar, hQuote, hBackslash, hNewline, hReturn, hTab, hBackspace, hFeed,
        if_false, if_pos hVisible]
    rw [hForm]
    exact pieces_char hQuote hBackslash (Char.not_lt.2 hVisible.1) h
  · refine ⟨_, spells_units ?_⟩
    simp only [quoteChar, hQuote, hBackslash, hNewline, hReturn, hTab, hBackspace, hFeed, if_false,
      if_neg hVisible]

/-! ## Strings -/

theorem exists_pieces (opening cs tail : List Char) :
    ∃ ps, pieces opening .plain (cs.flatMap quoteChar ++ '"' :: tail) = .ok (ps, tail) ∧
      join ps = cs := by
  induction cs with
  | nil =>
      refine ⟨[], ?_, rfl⟩
      rw [List.flatMap_nil, List.nil_append, pieces, if_pos rfl]
  | cons c cs ih =>
      obtain ⟨more, hPieces, hJoin⟩ := ih
      obtain ⟨ps, hRead, hSpelled⟩ := exists_spells c
      refine ⟨ps ++ more, ?_, ?_⟩
      · rw [List.flatMap_cons, List.append_assoc]
        exact hRead opening _ more tail (by simp) hPieces
      · rw [hSpelled, hJoin]

/-- **Strings come back.** What follows the opening quote of a quoted string is read as the string,
up to its closing quote. -/
theorem string_quote (opening : List Char) (s : String) (tail : List Char) :
    string opening (s.toList.flatMap quoteChar ++ '"' :: tail) = .ok (s, tail) := by
  obtain ⟨ps, hPieces, hJoin⟩ := exists_pieces opening s.toList tail
  rw [string, hPieces]
  show Except.ok (String.ofList (join ps), tail) = _
  rw [hJoin, String.ofList_toList]

end NinjaFile.Json
