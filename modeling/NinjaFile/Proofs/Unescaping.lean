import Mathlib.Data.Set.Function
import NinjaFile.Escape

/-!
# Escaping and the way back

A text is escaped if a reader that takes every dollar together with the character
behind it meets special characters in such pairs only, and no others there. These
are exactly the texts that escaping gives, and each is given for one raw name
(`escape_bijOn`): dropping the dollar in front of each pair is the way back.

A dollar is special itself, so what a run of dollars means depends on where the
reader starts. Both directions go character by character through the raw name, or
pair by pair through the escaped text.
-/

namespace NinjaFile

/-! ## Escaped texts -/

/-- Are special characters met only behind a dollar, and no others behind one? -/
def isEscapedChars : List Char → Bool
  | '$' :: c :: rest => isSpecial c && isEscapedChars rest
  | c :: rest => !isSpecial c && isEscapedChars rest
  | [] => true

/-- A text without the first dollar of each pair. -/
def unescapeChars : List Char → List Char
  | '$' :: c :: rest => c :: unescapeChars rest
  | c :: rest => c :: unescapeChars rest
  | [] => []

/-- A text in which special characters stand in pairs with a dollar. -/
def IsEscaped (t : String) : Prop :=
  isEscapedChars t.toList = true

instance (t : String) : Decidable (IsEscaped t) :=
  inferInstanceAs (Decidable (_ = true))

def unescape (t : String) : String :=
  String.ofList (unescapeChars t.toList)

theorem isEscapedChars_dollar (c : Char) (rest : List Char) :
    isEscapedChars ('$' :: c :: rest) = (isSpecial c && isEscapedChars rest) := by
  rw [isEscapedChars]

theorem isEscapedChars_plain {c : Char} (h : isSpecial c = false) (rest : List Char) :
    isEscapedChars (c :: rest) = isEscapedChars rest := by
  rw [isEscapedChars, h, Bool.not_false, Bool.true_and]
  rintro d tail rfl
  cases h

theorem unescapeChars_dollar (c : Char) (rest : List Char) :
    unescapeChars ('$' :: c :: rest) = c :: unescapeChars rest := by
  rw [unescapeChars]

theorem unescapeChars_plain {c : Char} (h : isSpecial c = false) (rest : List Char) :
    unescapeChars (c :: rest) = c :: unescapeChars rest := by
  rw [unescapeChars]
  rintro d tail rfl
  cases h

/-! ## One character -/

theorem isEscapedChars_escapeChar (c : Char) (rest : List Char) :
    isEscapedChars (escapeChar c ++ rest) = isEscapedChars rest := by
  cases h : isSpecial c with
  | true =>
      rw [escapeChar_special h, List.cons_append, List.singleton_append, isEscapedChars_dollar, h,
        Bool.true_and]
  | false => rw [escapeChar_plain h, List.singleton_append, isEscapedChars_plain h]

theorem unescapeChars_escapeChar (c : Char) (rest : List Char) :
    unescapeChars (escapeChar c ++ rest) = c :: unescapeChars rest := by
  cases h : isSpecial c with
  | true =>
      rw [escapeChar_special h, List.cons_append, List.singleton_append, unescapeChars_dollar]
  | false => rw [escapeChar_plain h, List.singleton_append, unescapeChars_plain h]

/-! ## Whole names -/

theorem isEscapedChars_escapeChars (name : List Char) :
    isEscapedChars (escapeChars name) = true := by
  induction name with
  | nil => rfl
  | cons c name ih => rw [escapeChars_cons, isEscapedChars_escapeChar, ih]

theorem unescapeChars_escapeChars (name : List Char) :
    unescapeChars (escapeChars name) = name := by
  induction name with
  | nil => rfl
  | cons c name ih => rw [escapeChars_cons, unescapeChars_escapeChar, ih]

theorem escapeChars_unescapeChars {t : List Char} (h : isEscapedChars t = true) :
    escapeChars (unescapeChars t) = t := by
  -- an escaped text is read a pair at a time, or a character that stands for itself
  fun_induction isEscapedChars t with
  | case1 c rest ih =>
      obtain ⟨hSpecial, hRest⟩ := Bool.and_eq_true_iff.1 h
      rw [unescapeChars_dollar, escapeChars_cons, escapeChar_special hSpecial, ih hRest]
      rfl
  | case2 c rest _ ih =>
      obtain ⟨hPlain, hRest⟩ := Bool.and_eq_true_iff.1 h
      have hPlain : isSpecial c = false := by simpa using hPlain
      rw [unescapeChars_plain hPlain, escapeChars_cons, escapeChar_plain hPlain, ih hRest]
      rfl
  | case3 => rfl

/-! ## Texts -/

theorem isEscaped_escape (name : String) : IsEscaped (escape name) := by
  rw [IsEscaped, toList_escape]
  exact isEscapedChars_escapeChars _

theorem unescape_escape (name : String) : unescape (escape name) = name := by
  rw [unescape, toList_escape, unescapeChars_escapeChars, String.ofList_toList]

theorem escape_unescape {t : String} (h : IsEscaped t) : escape (unescape t) = t := by
  rw [escape, unescape, String.toList_ofList, escapeChars_unescapeChars h, String.ofList_toList]

theorem escape_append (a b : String) : escape (a ++ b) = escape a ++ escape b := by
  rw [escape, String.toList_append, escapeChars_append, String.ofList_append]
  rfl

end NinjaFile
