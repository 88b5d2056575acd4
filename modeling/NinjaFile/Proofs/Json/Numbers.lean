import Mathlib.Algebra.Group.Nat.Defs
import NinjaFile.Json.Token

/-!
# Integers come back

The numeral of an integer is read back as the integer (`number?_ofInt`,
`value_number`), provided that what follows it cannot belong to a number. The
other way, every integer that is read has no more digits than its numeral had
(`length_digits_le`), so the limit of numerals holds for what is written again.
-/

namespace NinjaFile

namespace Numeral

theorem isDigit_of_mem_digits {n : Nat} {c : Char} (h : c ∈ digits n) : Json.isDigit c = true :=
  Nat.isDigit_of_mem_toDigits (by decide) (by decide) h

theorem exists_digits (n : Nat) : ∃ c ds, digits n = c :: ds ∧ Json.isDigit c = true := by
  obtain ⟨c, ds, hDigits⟩ := List.exists_cons_of_ne_nil (Nat.toDigits_ne_nil : digits n ≠ [])
  exact ⟨c, ds, hDigits, isDigit_of_mem_digits (hDigits ▸ List.mem_cons_self)⟩

theorem head_digits {n : Nat} (h : 0 < n) {c : Char} {ds : List Char}
    (hDigits : digits n = c :: ds) : c ≠ '0' := by
  induction n using Nat.strongRecOn generalizing ds with
  | ind n ih =>
      by_cases hSmall : n < 10
      · rw [digits, Nat.toDigits_of_lt_base hSmall] at hDigits
        obtain ⟨rfl, -⟩ := List.cons.inj hDigits
        intro hZero
        rw [Nat.digitChar_eq_zero] at hZero
        omega
      · rw [digits, Nat.toDigits_of_base_le (by decide) (Nat.le_of_not_lt hSmall)] at hDigits
        cases hFront : Nat.toDigits 10 (n / 10) with
        | nil => exact absurd hFront Nat.toDigits_ne_nil
        | cons d front =>
            rw [hFront, List.cons_append] at hDigits
            obtain ⟨rfl, -⟩ := List.cons.inj hDigits
            exact ih (n / 10) (by omega) (by omega) hFront

theorem exists_digit_ofInt {n : Int} (h : n ≠ 0) :
    ∃ c ∈ ofInt n, Json.isDigit c = true ∧ c ≠ '0' := by
  obtain ⟨c, cs, hAll, hDigit⟩ := exists_digits n.natAbs
  have hMem : c ∈ digits n.natAbs := hAll ▸ List.mem_cons_self
  have hNonzero : c ≠ '0' := head_digits (Int.natAbs_pos.2 h) hAll
  refine ⟨c, ?_, hDigit, hNonzero⟩
  rw [ofInt]
  split
  · exact List.mem_cons_of_mem _ hMem
  · exact hMem

theorem toNat_digits (n : Nat) : toNat (digits n) = n :=
  Nat.ofDigitChars_ten_toDigits

theorem ofDigitChars_lt {ds : List Char} (h : ∀ d ∈ ds, Json.isDigit d = true) (init : Nat) :
    Nat.ofDigitChars 10 ds init < (init + 1) * 10 ^ ds.length := by
  induction ds generalizing init with
  | nil => simp
  | cons d ds ih =>
      have hValue : d.toNat - '0'.toNat < 10 := by
        have hDigit := h d List.mem_cons_self
        simp only [Json.isDigit, Bool.and_eq_true, decide_eq_true_eq] at hDigit
        have hHigh : d.toNat ≤ '9'.toNat := hDigit.2
        have hNine : '9'.toNat = '0'.toNat + 9 := by decide
        omega
      have hRest := ih (fun c hc => h c (List.mem_cons_of_mem _ hc))
        (10 * init + (d.toNat - '0'.toNat))
      rw [Nat.ofDigitChars_cons, List.length_cons, Nat.pow_succ]
      refine Nat.lt_of_lt_of_le hRest ?_
      calc (10 * init + (d.toNat - '0'.toNat) + 1) * 10 ^ ds.length
          ≤ (init + 1) * 10 * 10 ^ ds.length := Nat.mul_le_mul_right _ (by omega)
        _ = (init + 1) * (10 ^ ds.length * 10) := by
            rw [Nat.mul_assoc, Nat.mul_comm 10]

theorem length_digits_le {ds : List Char} (h : ∀ d ∈ ds, Json.isDigit d = true) (hNil : ds ≠ []) :
    (digits (toNat ds)).length ≤ ds.length := by
  rw [digits, Nat.length_toDigits_le_iff (by decide) (List.length_pos_iff.2 hNil)]
  have hBound := ofDigitChars_lt h 0
  rwa [Nat.zero_add, Nat.one_mul] at hBound

end Numeral

namespace Json

/-! ## Taking a number -/

def continues (c : Char) : Bool :=
  isDigit c || c == '.' || c == 'e' || c == 'E'

/-- The text does not go on with a number. -/
def Stops (rest : List Char) : Prop :=
  ∀ c, rest.head? = some c → continues c = false

theorem stops_nil : Stops [] := by
  intro c hc
  cases hc

theorem stops_cons {c : Char} (h : continues c = false) (rest : List Char) : Stops (c :: rest) := by
  intro d hd
  cases hd
  exact h

def NoDigit (s : List Char) : Prop :=
  ∀ c, s.head? = some c → isDigit c = false

theorem noDigit_of_stops {s : List Char} (h : Stops s) : NoDigit s := by
  intro c hc
  have hStop := h c hc
  simp only [continues, Bool.or_eq_false_iff] at hStop
  exact hStop.1.1.1

theorem digitsOf_of_noDigit {ds rest : List Char} (h : ∀ d ∈ ds, isDigit d = true)
    (hRest : NoDigit rest) : digitsOf (ds ++ rest) = ds ∧ afterDigits (ds ++ rest) = rest := by
  induction ds with
  | nil =>
      rcases rest with - | ⟨c, rest⟩
      · exact ⟨rfl, rfl⟩
      · rw [List.nil_append, digitsOf, afterDigits, hRest c rfl]
        exact ⟨rfl, rfl⟩
  | cons d ds ih =>
      obtain ⟨hFirst, hOthers⟩ := List.forall_mem_cons.1 h
      obtain ⟨hDigits, hAfter⟩ := ih hOthers
      rw [List.cons_append, digitsOf, afterDigits, if_pos hFirst, if_pos hFirst, hDigits, hAfter]
      exact ⟨rfl, rfl⟩

theorem wholePart?_digits (n : Nat) {rest : List Char} (hRest : Stops rest) :
    wholePart? (Numeral.digits n ++ rest) = some (Numeral.digits n, rest) := by
  by_cases hZero : n = 0
  · subst hZero
    rfl
  · -- without a leading zero all the digits belong to the number
    obtain ⟨c, ds, hDigits, hDigit⟩ := Numeral.exists_digits n
    have hTail : ∀ d ∈ ds, isDigit d = true := fun d hd =>
      Numeral.isDigit_of_mem_digits (hDigits ▸ List.mem_cons_of_mem _ hd)
    obtain ⟨hOf, hAfter⟩ := digitsOf_of_noDigit hTail (noDigit_of_stops hRest)
    rw [hDigits, List.cons_append, wholePart?,
      if_neg (Numeral.head_digits (Nat.pos_of_ne_zero hZero) hDigits), if_pos hDigit, hOf, hAfter]

theorem fractionPart_of_stops {rest : List Char} (h : Stops rest) :
    fractionPart rest = ([], rest) := by
  cases rest with
  | nil => rfl
  | cons c rest =>
      have hStop := h c rfl
      rw [fractionPart, if_neg]
      rintro ⟨rfl, -⟩
      cases hStop

theorem exponentPart_of_stops {rest : List Char} (h : Stops rest) :
    exponentPart rest = (none, rest) := by
  cases rest with
  | nil => rfl
  | cons c rest =>
      have hStop := h c rfl
      rw [exponentPart, if_neg]
      rintro (rfl | rfl) <;> cases hStop

theorem head_ofInt (n : Int) :
    ∃ c cs, Numeral.ofInt n = c :: cs ∧ (c = '-' ∨ isDigit c = true) := by
  unfold Numeral.ofInt
  split
  · exact ⟨_, _, rfl, Or.inl rfl⟩
  · obtain ⟨c, cs, hDigits, hDigit⟩ := Numeral.exists_digits n.natAbs
    exact ⟨c, cs, hDigits, Or.inr hDigit⟩

theorem ne_of_headInt {c d : Char} (hc : c = '-' ∨ isDigit c = true)
    (hd : d ≠ '-' ∧ isDigit d = false) : c ≠ d := by
  rintro rfl
  rcases hc with hMinus | hDigit
  · exact hd.1 hMinus
  · rw [hd.2] at hDigit
    cases hDigit

theorem number?_ofInt (n : Int) {rest : List Char} (hRest : Stops rest) :
    number? (Numeral.ofInt n ++ rest) =
      some (⟨decide (n < 0), Numeral.digits n.natAbs, [], none⟩, rest) := by
  have hSign : numberSign (Numeral.ofInt n ++ rest) =
      (decide (n < 0), Numeral.digits n.natAbs ++ rest) := by
    by_cases hNegative : n < 0
    · rw [Numeral.ofInt, if_pos hNegative, decide_eq_true hNegative]
      rfl
    · rw [Numeral.ofInt, if_neg hNegative, decide_eq_false hNegative]
      obtain ⟨c, cs, hDigits, hDigit⟩ := Numeral.exists_digits n.natAbs
      rw [hDigits, List.cons_append, numberSign, if_neg]
      rintro rfl
      cases hDigit
  rw [number?, hSign]
  simp only [wholePart?_digits _ hRest, fractionPart_of_stops hRest, exponentPart_of_stops hRest]

theorem ofInt_injective : Function.Injective Numeral.ofInt := by
  intro m n h
  have hNumber (k : Int) := number?_ofInt k stops_nil
  have hRead := (hNumber m).symm.trans
    ((congrArg (fun cs => number? (cs ++ [])) h).trans (hNumber n))
  simp only [Option.some.injEq, Prod.mk.injEq, Number.mk.injEq, and_true,
    decide_eq_decide] at hRead
  obtain ⟨hSign, hDigits⟩ := hRead
  have hSize := congrArg Numeral.toNat hDigits
  rw [Numeral.toNat_digits, Numeral.toNat_digits] at hSize
  omega

theorem value_number {limit : Nat} {n : Int} (h : (Numeral.digits n.natAbs).length ≤ limit) :
    Number.value limit ⟨decide (n < 0), Numeral.digits n.natAbs, [], none⟩ = .ok (.int n) := by
  simp only [Number.value, if_pos h, Numeral.toNat_digits, decide_eq_true_eq]
  split <;> congr 2 <;> omega

theorem isDigit_of_mem_digitsOf {cs : List Char} {d : Char} (h : d ∈ digitsOf cs) :
    isDigit d = true := by
  induction cs with
  | nil => cases h
  | cons c cs ih =>
      rw [digitsOf] at h
      split at h
      · rcases List.mem_cons.1 h with rfl | h
        · assumption
        · exact ih h
      · cases h

theorem digits_of_number? {s rest : List Char} {n : Number} (h : number? s = some (n, rest)) :
    n.whole ≠ [] ∧ ∀ d ∈ n.whole, isDigit d = true := by
  unfold number? at h
  dsimp only at h
  split at h
  · cases h
  · rename_i whole tail hWhole
    cases h
    cases hUnsigned : (numberSign s).2 with
    | nil =>
        rw [hUnsigned] at hWhole
        cases hWhole
    | cons c cs =>
        rw [hUnsigned, wholePart?] at hWhole
        split at hWhole
        · cases hWhole
          exact ⟨by simp, by simp [isDigit]⟩
        · split at hWhole
          · cases hWhole
            refine ⟨by simp, ?_⟩
            intro d hd
            rcases List.mem_cons.1 hd with rfl | hd
            · assumption
            · exact isDigit_of_mem_digitsOf hd
          · cases hWhole

theorem length_of_value {limit : Nat} {n : Number} {k : Int} (hNil : n.whole ≠ [])
    (hDigits : ∀ d ∈ n.whole, isDigit d = true) (h : n.value limit = .ok (.int k)) :
    (Numeral.digits k.natAbs).length ≤ limit := by
  have hWhole := Numeral.length_digits_le hDigits hNil
  unfold Number.value at h
  split at h
  · split at h
    · rename_i hLimit
      have hAbs : k.natAbs = Numeral.toNat n.whole := by
        have hk := Json.int.inj (Except.ok.inj h)
        split at hk <;> omega
      rw [hAbs]
      exact Nat.le_trans hWhole hLimit
    · cases h
  · cases h

end Json

end NinjaFile
