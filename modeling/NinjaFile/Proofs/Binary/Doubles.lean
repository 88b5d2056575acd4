import NinjaFile.Binary.Order
import NinjaFile.Proofs.Decimal.Shortest

/-!
# Finite doubles

The parts of a finite double can be told from what it stands for
(`Binary64.parts_of_datum`), so no two of them stand for the same (`Binary64.eq_of_datum`).
Numbers are compared in common units, though, and there one number may have several
significands: that only one double counts as the number one (`Binary64.eq_one_of_order?`)
rests on the leading bit, which every double has that is not far below one.
-/

namespace NinjaFile

namespace Binary64

def one : Binary64 := ⟨0x3FF0000000000000⟩

variable {x y : Binary64} {negative : Bool} {significand : Nat} {exponent : Int}

theorem datum_one : one.datum = .finite false (2 ^ 52) (-52) := by
  decide

theorem parts_of_datum (h : x.datum = .finite negative significand exponent) :
    (negative = true ↔ x.bits.toNat / 2 ^ 63 % 2 = 1) ∧
      (x.bits.toNat / 2 ^ 52 % 2 ^ 11 = 0 ∧ significand = x.bits.toNat % 2 ^ 52 ∧
          exponent = -1074 ∨
        x.bits.toNat / 2 ^ 52 % 2 ^ 11 ≠ 0 ∧ significand = 2 ^ 52 + x.bits.toNat % 2 ^ 52 ∧
          exponent = x.bits.toNat / 2 ^ 52 % 2 ^ 11 - 1075) := by
  have hLeast : Binary.Interchange.double.leastExponent = -1074 := by decide
  have hSign : Binary.Interchange.double.signWeight = 2 ^ 63 := by decide
  have hFraction : Binary.twoTo Binary.Interchange.double.fractionBits = 2 ^ 52 := by decide
  have hField : Binary.twoTo Binary.Interchange.double.exponentBits = 2 ^ 11 := by decide
  simp only [datum, Binary.Interchange.datum, hLeast, hSign, hFraction, hField] at h
  split at h
  · split at h <;> cases h
  · split at h
    · rename_i hZero
      cases h
      exact ⟨beq_iff_eq, Or.inl ⟨hZero, rfl, rfl⟩⟩
    · rename_i hZero
      cases h
      exact ⟨beq_iff_eq, Or.inr ⟨hZero, rfl, by omega⟩⟩

/-- **A finite double is known by what it stands for.** -/
theorem eq_of_datum (hx : x.datum = .finite negative significand exponent)
    (hy : y.datum = .finite negative significand exponent) : x = y := by
  obtain ⟨hSign, hParts⟩ := parts_of_datum hx
  obtain ⟨hSign', hParts'⟩ := parts_of_datum hy
  have hBound := x.bits.toNat_lt
  have hBound' := y.bits.toNat_lt
  have hSigns : x.bits.toNat / 2 ^ 63 % 2 = y.bits.toNat / 2 ^ 63 % 2 := by
    have hIff := hSign.symm.trans hSign'
    omega
  have hBits : x.bits.toNat = y.bits.toNat := by omega
  cases x
  cases y
  exact congrArg _ (UInt64.toNat_inj.1 hBits)

/-- A double whose magnitude is one, in the units that both have in common, has no fraction and the
exponent that goes with it. -/
theorem eq_of_mul_twoTo (hx : x.datum = .finite negative significand exponent)
    (h : significand * Binary.twoTo (exponent - min exponent 0).toNat =
      Binary.twoTo (0 - min exponent 0).toNat) : significand = 2 ^ 52 ∧ exponent = -52 := by
  obtain ⟨-, ⟨-, hSignificand, hExponent⟩ | ⟨-, hSignificand, hExponent⟩⟩ := parts_of_datum hx
  · -- without a leading bit the number is far below one
    rw [hExponent] at h
    have hLarge : Binary.twoTo 52 ≤ Binary.twoTo (0 - min (-1074) 0 : Int).toNat :=
      Decimal.Interval.twoTo_le (by decide)
    have hLeast : Binary.twoTo 52 = 2 ^ 52 := rfl
    have hPower : Binary.twoTo (-1074 - min (-1074) 0).toNat = 1 := by decide
    rw [← h, hPower] at hLarge
    omega
  · have hFraction := Nat.mod_lt x.bits.toNat (show 2 ^ 52 > 0 by decide)
    rcases Int.lt_or_le exponent 0 with hNegative | hWhole
    · have hUnits : (exponent - min exponent 0).toNat = 0 := by omega
      have hPower : significand = 2 ^ (0 - min exponent 0).toNat := by
        rw [hUnits] at h
        exact (Nat.mul_one significand).symm.trans h
      have hAbove : 2 ^ 52 ≤ 2 ^ (0 - min exponent 0).toNat := by omega
      have hBelow : 2 ^ (0 - min exponent 0).toNat < 2 ^ 53 := by omega
      have hAtLeast := (Nat.pow_le_pow_iff_right (by decide)).1 hAbove
      have hAtMost := (Nat.pow_lt_pow_iff_right (by decide)).1 hBelow
      have hPlace : (0 - min exponent 0).toNat = 52 := by omega
      rw [hPlace] at hPower
      exact ⟨hPower, by omega⟩
    · have hOne : (0 - min exponent 0).toNat = 0 := by omega
      have hPower : 0 < Binary.twoTo (exponent - min exponent 0).toNat := Nat.pow_pos (by decide)
      have hLe := Nat.le_mul_of_pos_right significand hPower
      rw [h, hOne] at hLe
      have hSmall : significand ≤ 1 := hLe
      omega

/-- **No other double is one.** -/
theorem eq_one_of_order? (h : x.datum.order? (.ofInt 1) = some .eq) : x = one := by
  cases hx : x.datum with
  | nan =>
      rw [hx] at h
      cases h
  | infinite a =>
      rw [hx] at h
      cases a <;> cases h
  | finite negative significand exponent =>
      rw [hx] at h
      have hUnits : Binary.Datum.inUnits negative significand (exponent - min exponent 0) =
          Binary.Datum.inUnits false 1 (0 - min exponent 0) :=
        Int.compare_eq_eq.1 (Option.some.inj h)
      have hPositive : 0 < Binary.twoTo (0 - min exponent 0).toNat := Nat.pow_pos (by decide)
      simp only [Binary.Datum.inUnits, Bool.false_eq_true, if_false, Nat.one_mul] at hUnits
      cases negative with
      | true =>
          rw [if_pos rfl] at hUnits
          omega
      | false =>
          rw [if_neg (by decide)] at hUnits
          obtain ⟨rfl, rfl⟩ := eq_of_mul_twoTo hx (Int.ofNat.inj hUnits)
          exact eq_of_datum hx datum_one

end Binary64

end NinjaFile
