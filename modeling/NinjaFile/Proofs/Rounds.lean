import Mathlib.Algebra.Group.Nat.Defs
import Mathlib.Data.List.Basic
import Mathlib.Data.Nat.Basic
import Mathlib.Logic.Function.Iterate
import NinjaFile.Escape

/-!
# Rounds of escaping

A name is to be escaped once. Every further round also escapes the dollars that
the rounds before it put in, so a dollar doubles with each round, and the dollars
in front of a blank or a colon double and become one more
(`escapeChars_roundsChar`).

So the result of any number of rounds has a closed form, which is told character by
character (`toList_iterate_escape`), and with it its length. Two different numbers of rounds
give the same only where there is nothing to escape (`iterate_escape`).
-/

namespace NinjaFile

def roundsChar (rounds : Nat) (c : Char) : List Char :=
  if c = '$' then List.replicate (2 ^ rounds) '$'
  else if c = ' ' ∨ c = ':' then List.replicate (2 ^ rounds - 1) '$' ++ [c]
  else [c]

def specials (name : String) : Nat :=
  name.toList.count ' ' + name.toList.count ':' + name.toList.count '$'

/-! ## One character -/

theorem isSpecial_iff {c : Char} : isSpecial c = true ↔ c = '$' ∨ c = ' ' ∨ c = ':' := by
  simp only [isSpecial, Bool.or_eq_true, beq_iff_eq]
  exact or_comm

theorem roundsChar_dollar (rounds : Nat) :
    roundsChar rounds '$' = List.replicate (2 ^ rounds) '$' :=
  if_pos rfl

theorem roundsChar_separator (rounds : Nat) {c : Char} (h : c = ' ' ∨ c = ':') :
    roundsChar rounds c = List.replicate (2 ^ rounds - 1) '$' ++ [c] := by
  have hDollar : c ≠ '$' := by
    rcases h with rfl | rfl <;> decide
  rw [roundsChar, if_neg hDollar, if_pos h]

theorem roundsChar_plain (rounds : Nat) {c : Char} (h : isSpecial c = false) :
    roundsChar rounds c = [c] := by
  have hNot : ¬(c = '$' ∨ c = ' ' ∨ c = ':') := by
    rw [← isSpecial_iff, h]
    exact Bool.false_ne_true
  rw [not_or] at hNot
  rw [roundsChar, if_neg hNot.1, if_neg hNot.2]

theorem roundsChar_zero (c : Char) : roundsChar 0 c = [c] := by
  unfold roundsChar
  split
  · rename_i h
    rw [h]
    rfl
  · split <;> rfl

theorem escapeChars_dollars (n : Nat) :
    escapeChars (List.replicate n '$') = List.replicate (2 * n) '$' := by
  induction n with
  | zero => rfl
  | succ n ih =>
      rw [List.replicate_succ, escapeChars_cons, ih, escapeChar_special rfl, Nat.mul_succ,
        List.replicate_succ, List.replicate_succ]
      rfl

/-- **One more round**, for one character. -/
theorem escapeChars_roundsChar (rounds : Nat) (c : Char) :
    escapeChars (roundsChar rounds c) = roundsChar (rounds + 1) c := by
  cases h : isSpecial c with
  | false =>
      rw [roundsChar_plain rounds h, roundsChar_plain (rounds + 1) h, escapeChars_cons,
        escapeChar_plain h]
      rfl
  | true =>
      rcases isSpecial_iff.1 h with rfl | hSeparator
      · rw [roundsChar_dollar, roundsChar_dollar, escapeChars_dollars, Nat.pow_succ', Nat.mul_comm]
      · have hPos : 0 < 2 ^ rounds := Nat.pow_pos (by decide)
        -- the character itself gets one dollar more
        have hCount : 2 ^ (rounds + 1) - 1 = 2 * (2 ^ rounds - 1) + 1 := by
          rw [Nat.pow_succ]
          omega
        rw [roundsChar_separator rounds hSeparator, roundsChar_separator (rounds + 1) hSeparator,
          escapeChars_append, escapeChars_dollars, escapeChars_cons, escapeChar_special h, hCount,
          List.replicate_succ']
        simp

theorem length_roundsChar (rounds : Nat) (c : Char) :
    (roundsChar rounds c).length = 1 + (2 ^ rounds - 1) * (isSpecial c).toNat := by
  have hPos : 0 < 2 ^ rounds := Nat.pow_pos (by decide)
  cases h : isSpecial c with
  | false =>
      rw [roundsChar_plain rounds h]
      rfl
  | true =>
      rcases isSpecial_iff.1 h with rfl | hSeparator
      · rw [roundsChar_dollar, List.length_replicate, Bool.toNat_true]
        omega
      · rw [roundsChar_separator rounds hSeparator, List.length_append, List.length_replicate,
          List.length_singleton, Bool.toNat_true]
        omega

/-! ## Names -/

theorem escapeChars_flatMap (rounds : Nat) (name : List Char) :
    escapeChars (name.flatMap (roundsChar rounds)) = name.flatMap (roundsChar (rounds + 1)) := by
  induction name with
  | nil => rfl
  | cons c name ih =>
      rw [List.flatMap_cons, escapeChars_append, escapeChars_roundsChar, ih, List.flatMap_cons]

/-- **The closed form.** -/
theorem toList_iterate_escape (name : String) (n : Nat) :
    (escape^[n] name).toList = name.toList.flatMap (roundsChar n) := by
  induction n with
  | zero =>
      have hSame : roundsChar 0 = fun c => [c] := funext roundsChar_zero
      rw [hSame, List.flatMap_singleton']
      rfl
  | succ n ih => rw [Function.iterate_succ_apply', toList_escape, ih, escapeChars_flatMap]

theorem countP_isSpecial (name : String) : name.toList.countP isSpecial = specials name := by
  rw [specials]
  induction name.toList with
  | nil => rfl
  | cons c cs ih =>
      simp only [List.countP_cons, List.count_cons, ih, isSpecial]
      by_cases hBlank : c = ' '
      · subst hBlank
        simp
        omega
      · by_cases hColon : c = ':'
        · subst hColon
          simp
          omega
        · by_cases hDollar : c = '$'
          · subst hDollar
            simp
            omega
          · simp [hBlank, hColon, hDollar]

theorem length_flatMap_roundsChar (rounds : Nat) (name : List Char) :
    (name.flatMap (roundsChar rounds)).length =
      name.length + (2 ^ rounds - 1) * name.countP isSpecial := by
  induction name with
  | nil => rfl
  | cons c name ih =>
      rw [List.flatMap_cons, List.length_append, ih, length_roundsChar, List.length_cons,
        List.countP_cons, Nat.mul_add]
      cases isSpecial c <;> simp <;> omega

theorem length_iterate_escape (name : String) (n : Nat) :
    (escape^[n] name).length = name.length + (2 ^ n - 1) * specials name := by
  rw [← String.length_toList, toList_iterate_escape, length_flatMap_roundsChar, countP_isSpecial,
    String.length_toList]

theorem iterate_escape_of_plain {name : String} (h : specials name = 0) (n : Nat) :
    escape^[n] name = name := by
  rw [← countP_isSpecial, List.countP_eq_zero] at h
  have hSame : name.toList.flatMap (roundsChar n) = name.toList := by
    have hChars : name.toList.flatMap (roundsChar n) = name.toList.flatMap fun c => [c] :=
      List.flatMap_congr fun c hc => roundsChar_plain n (by simpa using h c hc)
    rw [hChars, List.flatMap_singleton']
  exact String.toList_injective ((toList_iterate_escape name n).trans hSame)

/-- Each round makes a name longer if there is anything to escape. -/
theorem iterate_escape_eq_iff (name : String) (m n : Nat) :
    escape^[m] name = escape^[n] name ↔ m = n ∨ specials name = 0 := by
  constructor
  · intro h
    rw [or_iff_not_imp_right]
    intro hSome
    have hLength := congrArg String.length h
    rw [length_iterate_escape, length_iterate_escape, Nat.add_left_cancel_iff,
      Nat.mul_left_inj hSome] at hLength
    have hPower (k : Nat) : 0 < 2 ^ k := Nat.pow_pos (by decide)
    have hSame : 2 ^ m = 2 ^ n := by
      have hm := hPower m
      have hn := hPower n
      omega
    exact Nat.pow_right_injective (by decide) hSame
  · rintro (rfl | hNone)
    · rfl
    · rw [iterate_escape_of_plain hNone, iterate_escape_of_plain hNone]

theorem escapeRounds_eq (name : String) (n : Nat) :
    escapeRounds n name = (List.range n).map fun k => escape^[k + 1] name := by
  induction n generalizing name with
  | zero => rfl
  | succ n ih =>
      rw [escapeRounds, ih, List.range_succ_eq_map, List.map_cons, List.map_map]
      rfl

/-- **Rounds of escaping.** After `n` rounds every dollar of a name has become `2 ^ n` dollars, and in
front of every blank and every colon there are `2 ^ n - 1`; nothing else has changed. This tells how
long the result is, and that two numbers of rounds give the same name only if they are equal or the
name has no special character. -/
theorem iterate_escape (name : String) (n : Nat) :
    (escape^[n] name).toList = name.toList.flatMap (roundsChar n) ∧
      (escape^[n] name).length = name.length + (2 ^ n - 1) * specials name ∧
      (∀ m, escape^[m] name = escape^[n] name ↔ m = n ∨ specials name = 0) ∧
      escapeRounds n name = (List.range n).map fun k => escape^[k + 1] name :=
  ⟨toList_iterate_escape name n, length_iterate_escape name n, fun m => iterate_escape_eq_iff name m n,
    escapeRounds_eq name n⟩

example : escapeRounds 2 "a $:" = ["a$ $$$:", "a$$$ $$$$$$$:"] := by decide

end NinjaFile
