import NinjaFile.Json.Basic
import NinjaFile.Json.Quoted
import NinjaFile.Numeral
import NinjaFile.Outcome

/-!
# Tokens of a JSON text

Each function takes one token from the front of a text and gives back what
follows it. A refusal carries the rest of the text from the character that it
is about, so its place is told by what remains. A number takes as many
characters as can belong to it; values that are not finite have names, and a
numeral without point and exponent is bounded in its digits.
-/

namespace NinjaFile.Json

/-! ## Refusals -/

inductive Defect where
  | expectingValue
  | expectingName
  | expectingColon
  | expectingComma
  | extraData
  | unterminatedString
  | controlCharacter
  | unknownEscape
  | badUnitEscape
  | byteOrderMark
  deriving DecidableEq, Repr

def Defect.wording : Defect → String
  | .expectingValue => "Expecting value"
  | .expectingName => "Expecting property name enclosed in double quotes"
  | .expectingColon => "Expecting ':' delimiter"
  | .expectingComma => "Expecting ',' delimiter"
  | .extraData => "Extra data"
  | .unterminatedString => "Unterminated string starting at"
  | .controlCharacter => "Invalid control character at"
  | .unknownEscape => "Invalid \\escape"
  | .badUnitEscape => "Invalid \\uXXXX escape"
  | .byteOrderMark => "Unexpected UTF-8 BOM (decode using utf-8-sig)"

/-- Why a text is refused: it is not JSON from `rest` on, or a numeral has too many digits. -/
inductive Refusal where
  | malformed (defect : Defect) (rest : List Char)
  | overlong (digits : Nat)
  deriving DecidableEq, Repr

/-! ## Blanks and words -/

def isBlank (c : Char) : Bool :=
  c == ' ' || c == '\t' || c == '\n' || c == '\r'

def skipBlanks : List Char → List Char
  | [] => []
  | c :: rest => if isBlank c then skipBlanks rest else c :: rest

theorem length_skipBlanks_le (s : List Char) : (skipBlanks s).length ≤ s.length := by
  induction s with
  | nil => exact Nat.le_refl _
  | cons c rest ih =>
    rw [skipBlanks]
    split
    · exact Nat.le_succ_of_le ih
    · exact Nat.le_refl _

def after? : List Char → List Char → Option (List Char)
  | [], s => some s
  | _ :: _, [] => none
  | w :: word, c :: rest => if w = c then after? word rest else none

theorem length_of_after? {word s rest : List Char} (h : after? word s = some rest) :
    rest.length + word.length = s.length := by
  induction word generalizing s with
  | nil => cases h; rfl
  | cons w word ih =>
    cases s with
    | nil => cases h
    | cons c s =>
      rw [after?] at h
      split at h
      · have := ih h
        simp only [List.length_cons]
        omega
      · cases h

def constants : List (List Char × Json) :=
  [("null".toList, .null), ("true".toList, .bool true), ("false".toList, .bool false),
   ("NaN".toList, .float .nan), ("Infinity".toList, .float (.ofDatum (.infinite false))),
   ("-Infinity".toList, .float (.ofDatum (.infinite true)))]

def constantIn? (s : List Char) : List (List Char × Json) → Option (Json × List Char)
  | [] => none
  | (word, value) :: others =>
    match after? word s with
    | some rest => some (value, rest)
    | none => constantIn? s others

def constant? (s : List Char) : Option (Json × List Char) :=
  constantIn? s constants

/-! ## Numbers -/

def isDigit (c : Char) : Bool := '0' ≤ c && c ≤ '9'

def digitsOf : List Char → List Char
  | [] => []
  | c :: rest => if isDigit c then c :: digitsOf rest else []

def afterDigits : List Char → List Char
  | [] => []
  | c :: rest => if isDigit c then afterDigits rest else c :: rest

structure Number where
  negative : Bool
  whole : List Char
  fraction : List Char
  exponent : Option (Bool × List Char)
  deriving Repr

/-- The whole part: a zero, or digits that do not begin with one. -/
def wholePart? : List Char → Option (List Char × List Char)
  | [] => none
  | c :: rest =>
    if c = '0' then some (['0'], rest)
    else if isDigit c then some (c :: digitsOf rest, afterDigits rest)
    else none

/-- A point is part of a number only with a digit behind it. -/
def fractionPart : List Char → List Char × List Char
  | [] => ([], [])
  | c :: rest =>
    if c = '.' ∧ digitsOf rest ≠ [] then (digitsOf rest, afterDigits rest) else ([], c :: rest)

/-- The sign of an exponent, of which a plus may be left out, with what follows it. -/
def exponentSign : List Char → Bool × List Char
  | [] => (false, [])
  | c :: rest =>
    if c = '-' then (true, rest) else if c = '+' then (false, rest) else (false, c :: rest)

/-- An exponent is part of a number only with a digit in it; its sign comes first. -/
def exponentPart (s : List Char) : Option (Bool × List Char) × List Char :=
  match s with
  | [] => (none, s)
  | c :: rest =>
    if c = 'e' ∨ c = 'E' then
      let (negative, ds) := exponentSign rest
      if digitsOf ds = [] then (none, s) else (some (negative, digitsOf ds), afterDigits ds)
    else (none, s)

/-- The sign of a number, which is a minus or nothing, with what follows it. -/
def numberSign : List Char → Bool × List Char
  | [] => (false, [])
  | c :: rest => if c = '-' then (true, rest) else (false, c :: rest)

def number? (s : List Char) : Option (Number × List Char) :=
  let (negative, unsigned) := numberSign s
  match wholePart? unsigned with
  | none => none
  | some (whole, rest) =>
    let (fraction, rest) := fractionPart rest
    let (exponent, rest) := exponentPart rest
    some (⟨negative, whole, fraction, exponent⟩, rest)

/-- The value of a number: an integer without fraction and exponent, the nearest double
otherwise. -/
def Number.value (limit : Nat) (n : Number) : Except Refusal Json :=
  match n.fraction, n.exponent with
  | [], none =>
    if n.whole.length ≤ limit then
      let magnitude : Int := Numeral.toNat n.whole
      .ok (.int (if n.negative then -magnitude else magnitude))
    else .error (.overlong n.whole.length)
  | fraction, exponent =>
    let power : Int := match exponent with
      | none => 0
      | some (true, ds) => -(Numeral.toNat ds : Int)
      | some (false, ds) => Numeral.toNat ds
    .ok (.float (.ofDecimal n.negative (Numeral.toNat (n.whole ++ fraction))
      (power - fraction.length)))

/-! ## Strings -/

/-- Where the reader of a string stands: between pieces, behind a backslash, or among the digits of
a unit with so many still to come. The last two remember the text from the place that a refusal
names. -/
inductive Place where
  | plain
  | escape (start : List Char)
  | digits (start : List Char) (left : Nat) (value : Nat)

/-- The pieces up to the closing quote, with what follows it. A unit escape needs a character behind
its last digit. -/
def pieces (opening : List Char) : Place → List Char → Except Refusal (List Piece × List Char)
  | .plain, [] => .error (.malformed .unterminatedString opening)
  | .escape _, [] => .error (.malformed .unterminatedString opening)
  | .digits start _ _, [] => .error (.malformed .badUnitEscape start)
  | .plain, c :: rest =>
    if c = '"' then .ok ([], rest)
    else if c = '\\' then pieces opening (.escape (c :: rest)) rest
    else if c < ' ' then .error (.malformed .controlCharacter (c :: rest))
    else do
      let (ps, rest) ← pieces opening .plain rest
      return (.char c :: ps, rest)
  | .escape start, c :: rest =>
    if c = 'u' then pieces opening (.digits (c :: rest) 3 0) rest
    else match escaped? c with
      | none => .error (.malformed .unknownEscape start)
      | some d => do
        let (ps, rest) ← pieces opening .plain rest
        return (.char d :: ps, rest)
  | .digits start left value, c :: rest =>
    match Hex.value? c with
    | none => .error (.malformed .badUnitEscape start)
    | some v =>
      match left with
      | left + 1 => pieces opening (.digits start left (16 * value + v)) rest
      | 0 =>
        if rest.isEmpty then .error (.malformed .badUnitEscape start)
        else do
          let (ps, rest) ← pieces opening .plain rest
          return (.unit (16 * value + v) :: ps, rest)

def string (opening rest : List Char) : Except Refusal (String × List Char) := do
  let (ps, rest) ← pieces opening .plain rest
  return (String.ofList (join ps), rest)

/-! ## Every token is taken from the front -/

theorem length_afterDigits_le (s : List Char) : (afterDigits s).length ≤ s.length := by
  induction s with
  | nil => exact Nat.le_refl _
  | cons c rest ih =>
    rw [afterDigits]
    split
    · exact Nat.le_succ_of_le ih
    · exact Nat.le_refl _

theorem length_of_constantIn? {table : List (List Char × Json)} {s rest : List Char} {j : Json}
    (words : ∀ entry ∈ table, entry.1 ≠ []) (h : constantIn? s table = some (j, rest)) :
    rest.length < s.length := by
  induction table with
  | nil => cases h
  | cons entry table ih =>
    obtain ⟨word, value⟩ := entry
    rw [constantIn?] at h
    split at h
    · rename_i tail hTail
      cases h
      have := length_of_after? hTail
      have : 0 < word.length := List.length_pos_iff.2 (words _ (List.mem_cons_self ..))
      omega
    · exact ih (fun entry h => words entry (List.mem_cons_of_mem _ h)) h

theorem length_of_constant? {s rest : List Char} {j : Json} (h : constant? s = some (j, rest)) :
    rest.length < s.length :=
  length_of_constantIn? (by simp [constants]) h

theorem length_of_wholePart? {s ds rest : List Char} (h : wholePart? s = some (ds, rest)) :
    rest.length < s.length := by
  cases s with
  | nil => cases h
  | cons c s =>
    rw [wholePart?] at h
    split at h
    · cases h
      exact Nat.lt_succ_self _
    · split at h
      · cases h
        exact Nat.lt_succ_of_le (length_afterDigits_le s)
      · cases h

theorem length_fractionPart_le (s : List Char) : (fractionPart s).2.length ≤ s.length := by
  cases s with
  | nil => exact Nat.le_refl _
  | cons c s =>
    rw [fractionPart]
    split
    · exact Nat.le_succ_of_le (length_afterDigits_le s)
    · exact Nat.le_refl _

theorem length_exponentSign_le (s : List Char) : (exponentSign s).2.length ≤ s.length := by
  cases s with
  | nil => exact Nat.le_refl _
  | cons c s =>
    rw [exponentSign]
    split
    · exact Nat.le_succ _
    · split
      · exact Nat.le_succ _
      · exact Nat.le_refl _

theorem length_exponentPart_le (s : List Char) : (exponentPart s).2.length ≤ s.length := by
  cases s with
  | nil => exact Nat.le_refl _
  | cons c s =>
    rw [exponentPart]
    split
    · dsimp only
      split
      · exact Nat.le_refl _
      · exact Nat.le_succ_of_le
          (Nat.le_trans (length_afterDigits_le _) (length_exponentSign_le s))
    · exact Nat.le_refl _

theorem length_numberSign_le (s : List Char) : (numberSign s).2.length ≤ s.length := by
  cases s with
  | nil => exact Nat.le_refl _
  | cons c s =>
    rw [numberSign]
    split
    · exact Nat.le_succ _
    · exact Nat.le_refl _

theorem length_of_number? {s rest : List Char} {n : Number} (h : number? s = some (n, rest)) :
    rest.length < s.length := by
  unfold number? at h
  dsimp only at h
  split at h
  · cases h
  · rename_i whole tail hWhole
    cases h
    have h₁ := length_of_wholePart? hWhole
    have h₂ := length_fractionPart_le tail
    have h₃ := length_exponentPart_le (fractionPart tail).2
    have h₄ := length_numberSign_le s
    omega

theorem length_of_pieces {opening : List Char} {place : Place} {s : List Char}
    {ps : List Piece} {rest : List Char} (h : pieces opening place s = .ok (ps, rest)) :
    rest.length < s.length := by
  induction s generalizing place ps with
  | nil => cases place <;> simp [pieces] at h
  | cons c s ih =>
    have step {p : Piece} {place : Place}
        (h : (do
          let (ps, rest) ← pieces opening place s
          return (p :: ps, rest) : Except Refusal (List Piece × List Char)) = .ok (ps, rest)) :
        rest.length < (c :: s).length := by
      obtain ⟨⟨inner, tail⟩, hInner, hPure⟩ := Outcome.bind_eq_ok.1 h
      cases hPure
      exact Nat.lt_succ_of_lt (ih hInner)
    cases place with
    | plain =>
      rw [pieces] at h
      split at h
      · cases h
        exact Nat.lt_succ_self _
      · split at h
        · exact Nat.lt_succ_of_lt (ih h)
        · split at h
          · cases h
          · exact step h
    | escape start =>
      rw [pieces] at h
      split at h
      · exact Nat.lt_succ_of_lt (ih h)
      · split at h
        · cases h
        · exact step h
    | digits start left value =>
      rw [pieces] at h
      split at h
      · cases h
      · cases left with
        | succ left => exact Nat.lt_succ_of_lt (ih h)
        | zero =>
          dsimp only at h
          split at h
          · cases h
          · exact step h

theorem length_of_string {opening s rest : List Char} {text : String}
    (h : string opening s = .ok (text, rest)) : rest.length < s.length := by
  obtain ⟨⟨ps, tail⟩, hPieces, hPure⟩ := Outcome.bind_eq_ok.1 h
  cases hPure
  exact length_of_pieces hPieces

end NinjaFile.Json
