import Mathlib.Data.List.Forall2
import NinjaFile.Proofs.Json.Numbers
import NinjaFile.Proofs.Json.Steps

/-!
# The grammar of JSON

What a JSON text is, told by its parts and without a reader: `TextOf p s` says that `s` is a
text of the phrase `p`, and `Document s j` that `s` is a text of the value `j` between
blanks. Which blanks stand between tokens, how a character of a string is escaped and
how the mark of an exponent is written is left open, so a phrase has many texts.

Beside what JSON allows there are three more words for numbers that are not finite.
-/

namespace NinjaFile.Json

/-! ## Numbers -/

def IsDigits (ds : List Char) : Prop :=
  ds ≠ [] ∧ ∀ d ∈ ds, isDigit d = true

def signText (negative : Bool) : List Char :=
  if negative then ['-'] else []

/-- The text of a fraction, which is left out if it has no digits. -/
def fractionText (ds : List Char) : List Char :=
  if ds = [] then [] else '.' :: ds

/-- What may stand in front of the digits of an exponent. -/
def exponentMarks (negative : Bool) : List (List Char) :=
  if negative then [['e', '-'], ['E', '-']] else [['e'], ['E'], ['e', '+'], ['E', '+']]

inductive ExponentText : Option (Bool × List Char) → List Char → Prop where
  | none : ExponentText none []
  | some {negative : Bool} {mark ds : List Char} (mem : mark ∈ exponentMarks negative)
      (digits : IsDigits ds) : ExponentText (some (negative, ds)) (mark ++ ds)

/-- The texts of a number by its parts. The whole part is a zero, or does not begin with one. -/
structure Number.Written (n : Number) (s : List Char) : Prop where
  whole : n.whole = ['0'] ∨ IsDigits n.whole ∧ n.whole.head? ≠ some '0'
  fraction : ∀ d ∈ n.fraction, isDigit d = true
  text : ∃ exponent, ExponentText n.exponent exponent ∧
    s = signText n.negative ++ (n.whole ++ (fractionText n.fraction ++ exponent))

/-! ## Strings -/

/-- The texts of a piece of a string: a character that needs no escape, a letter behind a backslash,
or four digits of a unit. -/
inductive PieceText : Piece → List Char → Prop where
  | char {c : Char} (quote : c ≠ '"') (backslash : c ≠ '\\') (control : ¬c < ' ') :
      PieceText (.char c) [c]
  | letter {letter c : Char} (escape : escaped? letter = some c) :
      PieceText (.char c) ['\\', letter]
  | unit {cs : List Char} {vs : List Nat} (length : cs.length = 4)
      (digits : List.Forall₂ (fun c v => Hex.value? c = some v) cs vs) :
      PieceText (.unit (vs.foldl (fun n v => 16 * n + v) 0)) ('\\' :: 'u' :: cs)

inductive StringText : List Piece → List Char → Prop where
  | nil : StringText [] []
  | cons {p : Piece} {ps : List Piece} {s t : List Char} (first : PieceText p s)
      (rest : StringText ps t) : StringText (p :: ps) (s ++ t)

/-! ## Values -/

/-- What a part of a text can stand for: a value, the items of an array, a member of an object, or
all of its members. -/
inductive Phrase where
  | value (j : Json)
  | items (js : List Json)
  | member (m : String × Json)
  | members (ms : List (String × Json))

/-- The texts of a phrase. An object has its members as they were written, one after the other. -/
inductive TextOf : Phrase → List Char → Prop where
  | word {word : List Char} {j : Json} (mem : (word, j) ∈ constants) : TextOf (.value j) word
  | number {n : Number} {s : List Char} {limit : Nat} {j : Json} (written : n.Written s)
      (value : n.value limit = .ok j) : TextOf (.value j) s
  | string {ps : List Piece} {s : List Char} (pieces : StringText ps s) :
      TextOf (.value (.text (String.ofList (join ps)))) ('"' :: (s ++ ['"']))
  | noItems {lead : List Char} (blanks : Blanks lead) :
      TextOf (.value (.array [])) ('[' :: (lead ++ [']']))
  | array {lead s : List Char} {js : List Json} (blanks : Blanks lead)
      (items : TextOf (.items js) s) : TextOf (.value (.array js)) ('[' :: (lead ++ (s ++ [']'])))
  | noMembers {lead : List Char} (blanks : Blanks lead) :
      TextOf (.value (.object [])) ('\x7b' :: (lead ++ ['\x7d']))
  | object {lead s : List Char} {ms : List (String × Json)} (blanks : Blanks lead)
      (members : TextOf (.members ms) s) :
      TextOf (.value (.object (Entries.ofWrites (· == ·) ms))) ('\x7b' :: (lead ++ (s ++ ['\x7d'])))
  | lastItem {s gap : List Char} {j : Json} (item : TextOf (.value j) s) (blanks : Blanks gap) :
      TextOf (.items [j]) (s ++ gap)
  | nextItem {s gap lead t : List Char} {j : Json} {js : List Json} (item : TextOf (.value j) s)
      (blanks : Blanks gap) (blanks' : Blanks lead) (items : TextOf (.items js) t) :
      TextOf (.items (j :: js)) (s ++ (gap ++ ',' :: (lead ++ t)))
  | member {ps : List Piece} {s gap lead t : List Char} {j : Json} (name : StringText ps s)
      (blanks : Blanks gap) (blanks' : Blanks lead) (value : TextOf (.value j) t) :
      TextOf (.member (String.ofList (join ps), j)) ('"' :: (s ++ '"' :: (gap ++ ':' :: (lead ++ t))))
  | lastMember {s gap : List Char} {m : String × Json} (first : TextOf (.member m) s)
      (blanks : Blanks gap) : TextOf (.members [m]) (s ++ gap)
  | nextMember {s gap lead t : List Char} {m : String × Json} {ms : List (String × Json)}
      (first : TextOf (.member m) s) (blanks : Blanks gap) (blanks' : Blanks lead)
      (members : TextOf (.members ms) t) :
      TextOf (.members (m :: ms)) (s ++ (gap ++ ',' :: (lead ++ t)))

/-- The text is one value between blanks. -/
def Document (s : List Char) (j : Json) : Prop :=
  ∃ lead t gap, Blanks lead ∧ TextOf (.value j) t ∧ Blanks gap ∧ s = lead ++ (t ++ gap)

/-! ## How texts begin -/

theorem Number.Written.isDigits {n : Number} {s : List Char} (h : n.Written s) :
    IsDigits n.whole := by
  rcases h.whole with hZero | ⟨hDigits, -⟩
  · rw [hZero]
    exact ⟨by simp, by simp [isDigit]⟩
  · exact hDigits

theorem Number.Written.exists_head {n : Number} {s : List Char} (h : n.Written s) :
    ∃ d t, isDigit d = true ∧ s = signText n.negative ++ d :: t := by
  obtain ⟨exponent, -, hText⟩ := h.text
  obtain ⟨d, ds, hWhole⟩ := List.exists_cons_of_ne_nil h.isDigits.1
  refine ⟨d, ds ++ (fractionText n.fraction ++ exponent), h.isDigits.2 d (by simp [hWhole]), ?_⟩
  rw [hText, hWhole, List.cons_append]

/-- A character that begins a phrase is no blank, no closing bracket and no mark of the order of
octets. -/
def Opens (c : Char) : Prop :=
  isBlank c = false ∧ c ≠ ']' ∧ c ≠ '\x7d' ∧ c ≠ '\uFEFF'

instance (c : Char) : Decidable (Opens c) :=
  inferInstanceAs (Decidable (_ ∧ _))

theorem opens_of_headInt {c : Char} (h : c = '-' ∨ isDigit c = true) : Opens c := by
  have differs {d : Char} (hd : d ≠ '-' ∧ isDigit d = false) : c ≠ d := ne_of_headInt h hd
  refine ⟨?_, differs (by decide), differs (by decide), differs (by decide)⟩
  simp only [isBlank, Bool.or_eq_false_iff, beq_eq_false_iff_ne]
  exact ⟨⟨⟨differs (by decide), differs (by decide)⟩, differs (by decide)⟩, differs (by decide)⟩

theorem TextOf.exists_head {p : Phrase} {s : List Char} (h : TextOf p s) :
    ∃ c cs, s = c :: cs ∧ Opens c := by
  have append {s t : List Char} (h : ∃ c cs, s = c :: cs ∧ Opens c) :
      ∃ c cs, s ++ t = c :: cs ∧ Opens c := by
    obtain ⟨c, cs, rfl, hOpens⟩ := h
    exact ⟨c, cs ++ t, rfl, hOpens⟩
  induction h with
  | @word w j mem =>
      simp only [constants, List.mem_cons, Prod.mk.injEq, List.not_mem_nil, or_false] at mem
      rcases mem with ⟨rfl, -⟩ | ⟨rfl, -⟩ | ⟨rfl, -⟩ | ⟨rfl, -⟩ | ⟨rfl, -⟩ | ⟨rfl, -⟩
      all_goals exact ⟨_, _, rfl, by decide⟩
  | @number n s limit j written =>
      obtain ⟨d, t, hDigit, rfl⟩ := written.exists_head
      unfold signText
      split
      · exact ⟨'-', _, rfl, opens_of_headInt (Or.inl rfl)⟩
      · exact ⟨d, _, rfl, opens_of_headInt (Or.inr hDigit)⟩
  | lastItem item blanks ih => exact append ih
  | nextItem item blanks blanks' items ih => exact append ih
  | lastMember first blanks ih => exact append ih
  | nextMember first blanks blanks' members ih => exact append ih
  | _ => exact ⟨_, _, rfl, by decide⟩

end NinjaFile.Json
