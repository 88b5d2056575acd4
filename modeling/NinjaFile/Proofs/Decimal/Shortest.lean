import Mathlib.Tactic.Ring
import NinjaFile.Binary.Binary64
import NinjaFile.Decimal.Shortest

/-!
# The shortest decimal of a number that is not zero

The shortest decimal of a positive double has a digit that is not zero
(`shortest_pos`). Every hit on a grid lies in the interval of the number, which has
no zero in it; so what is left to show is that there is a hit. On the last grid there
is: seventeen digits leave less than the width of the interval between two points, so
the neighbour that is nearer to the number lies in it.
-/

namespace NinjaFile.Decimal

open Binary (scaleDown tenTo twoTo)

namespace Interval

/-! ## Numbers on a grid -/

theorem twoTo_le {m n : Nat} (h : m ≤ n) : twoTo m ≤ twoTo n :=
  Nat.pow_le_pow_right (by decide) h

theorem tenTo_pos (n : Nat) : 0 < tenTo n :=
  Nat.pow_pos (by decide)

theorem tenTo_add (m n : Nat) : tenTo (m + n) = tenTo m * tenTo n :=
  Nat.pow_add 10 m n

theorem scaleDown_eq (quarters : Nat) (exponent : Int) : scaleDown quarters 1 exponent =
    (quarters * (scaleDown 1 1 exponent).1, (scaleDown 1 1 exponent).2) := by
  unfold scaleDown
  split <;> simp

theorem scaleDown_pos (exponent : Int) :
    0 < (scaleDown 1 1 exponent).1 ∧ 0 < (scaleDown 1 1 exponent).2 := by
  have hTwo (n : Nat) : 0 < twoTo n := Nat.pow_pos (by decide)
  unfold scaleDown
  split <;> simp [hTwo]

theorem onGrid_eq (i : Interval) (grid : Int) (quarters : Nat) : i.onGrid grid quarters =
    (quarters * (i.onGrid grid 1).1, (i.onGrid grid 1).2) := by
  unfold onGrid
  rw [scaleDown_eq]
  dsimp only
  split
  · rfl
  · rw [Nat.mul_assoc]

theorem onGrid_pos (i : Interval) (grid : Int) :
    0 < (i.onGrid grid 1).1 ∧ 0 < (i.onGrid grid 1).2 := by
  have hScale := scaleDown_pos (-i.exponent)
  unfold onGrid
  dsimp only
  split
  · exact ⟨hScale.1, Nat.mul_pos hScale.2 (tenTo_pos _)⟩
  · exact ⟨Nat.mul_pos hScale.1 (tenTo_pos _), hScale.2⟩

theorem contains_of_lt {i : Interval} {grid : Int} {digits : Nat}
    (hLow : i.low * (i.onGrid grid 1).1 < digits * (i.onGrid grid 1).2)
    (hHigh : digits * (i.onGrid grid 1).2 < i.high * (i.onGrid grid 1).1) :
    i.contains grid digits = true := by
  rw [contains, onGrid_eq i grid i.low, onGrid_eq i grid i.high]
  dsimp only
  split
  · exact decide_eq_true ⟨Nat.le_of_lt hLow, Nat.le_of_lt hHigh⟩
  · exact decide_eq_true ⟨hLow, hHigh⟩

theorem pos_of_contains {i : Interval} (hLow : 0 < i.low) {grid : Int} {digits : Nat}
    (h : i.contains grid digits = true) : 0 < digits := by
  rcases Nat.eq_zero_or_pos digits with rfl | hDigits
  · have hLowest := Nat.mul_pos hLow (i.onGrid_pos grid).1
    rw [contains, onGrid_eq i grid i.low] at h
    dsimp only at h
    split at h
    · have hBounds := of_decide_eq_true h
      omega
    · have hBounds := of_decide_eq_true h
      omega
  · exact hDigits

theorem contains_of_hit {i : Interval} {grid : Int} {digits : Nat}
    (h : i.hit? grid = some digits) : i.contains grid digits = true := by
  unfold hit? at h
  dsimp only at h
  split at h
  · rename_i hBelow hAbove
    cases h
    split
    · exact hBelow
    · exact hAbove
  · cases h
    assumption
  · cases h
    assumption
  · cases h

/-! ## The last grid -/

/-- A grid whose points are less than the width of an interval apart has a hit. -/
theorem exists_hit {i : Interval} {grid : Int} {low high : Nat} (hLow : i.middle = i.low + low)
    (hHigh : i.high = i.middle + high)
    (hNearLow : (i.onGrid grid 1).2 < 2 * low * (i.onGrid grid 1).1)
    (hNearHigh : (i.onGrid grid 1).2 < 2 * high * (i.onGrid grid 1).1) :
    ∃ digits, i.hit? grid = some digits := by
  obtain ⟨hUnit, hPoint⟩ := i.onGrid_pos grid
  generalize hA : (i.onGrid grid 1).1 = a at *
  generalize hB : (i.onGrid grid 1).2 = b at *
  -- the neighbour below is a remainder away, and the one above the rest of a step
  have hDivision := Nat.div_add_mod (i.middle * a) b
  have hRemainder := Nat.mod_lt (i.middle * a) hPoint
  have hBelow := Nat.mul_comm b (i.middle * a / b)
  have hAbove : (i.middle * a / b + 1) * b = i.middle * a / b * b + b := Nat.succ_mul _ _
  have hLowest : i.middle * a = i.low * a + low * a := by rw [hLow, Nat.add_mul]
  have hHighest : i.high * a = i.middle * a + high * a := by rw [hHigh, Nat.add_mul]
  rw [Nat.mul_assoc] at hNearLow hNearHigh
  by_cases hNear : 2 * (i.middle * a % b) ≤ b
  · have hHit : i.contains grid (i.middle * a / b) = true := by
      apply contains_of_lt <;> rw [hA, hB] <;> omega
    unfold hit?
    rw [onGrid_eq i grid i.middle, hA, hB]
    dsimp only
    rw [hHit]
    cases i.contains grid (i.middle * a / b + 1) <;> exact ⟨_, rfl⟩
  · have hHit : i.contains grid (i.middle * a / b + 1) = true := by
      apply contains_of_lt <;> rw [hA, hB] <;> omega
    unfold hit?
    rw [onGrid_eq i grid i.middle, hA, hB]
    dsimp only
    rw [hHit]
    cases i.contains grid (i.middle * a / b) <;> exact ⟨_, rfl⟩

theorem tenTo_length_le {n : Nat} (h : 0 < n) : tenTo ((Nat.toDigits 10 n).length - 1) ≤ n := by
  refine Nat.not_lt.1 fun hLess => ?_
  rcases Nat.eq_zero_or_pos ((Nat.toDigits 10 n).length - 1) with hZero | hPositive
  · rw [hZero] at hLess
    have hOne : tenTo 0 = 1 := rfl
    omega
  · have hShort := (Nat.length_toDigits_le_iff (by decide) hPositive).2 hLess
    omega

theorem onGrid_wholeScale (i : Interval) : i.onGrid (-wholeScale) i.middle =
    (i.middle * ((scaleDown 1 1 (-i.exponent)).1 * tenTo wholeScale),
      (scaleDown 1 1 (-i.exponent)).2) := by
  rw [onGrid_eq]
  rfl

/-- Where every double has a whole part. -/
theorem le_quarter_wholeScale {exponent : Int} (hExponent : -1076 ≤ exponent) :
    (scaleDown 1 1 (-exponent)).2 ≤ 4 * ((scaleDown 1 1 (-exponent)).1 * tenTo wholeScale) := by
  have hPower : twoTo 1076 ≤ 4 * tenTo wholeScale := by decide +kernel
  unfold scaleDown
  split
  · have hLess : twoTo (-exponent).toNat ≤ twoTo 1076 := twoTo_le (by omega)
    dsimp only
    omega
  · have hTwo : 0 < twoTo (- -exponent).toNat := Nat.pow_pos (by decide)
    rw [Nat.one_mul]
    exact Nat.mul_pos (by decide) (Nat.mul_pos hTwo (tenTo_pos _))

theorem lastGrid_cases {length : Nat} (hLength : 0 < length) {places : Int}
    (h : places = length - wholeScale) :
    (∃ k : Nat, places - enough = k ∧ length - 1 = 16 + k + wholeScale) ∨
      ∃ k : Nat, 0 < k ∧ places - enough = -k ∧ k + (length - 1) = 16 + wholeScale := by
  have hScale : wholeScale = 400 := rfl
  have hEnough : enough = 17 := rfl
  rw [hScale] at h ⊢
  rw [hEnough]
  rcases Nat.lt_or_ge length 417 with hShort | hLong
  · exact Or.inr ⟨417 - length, by omega, by omega, by omega⟩
  · exact Or.inl ⟨length - 417, by omega, by omega⟩

/-- On the last grid the number has seventeen digits in front of the point. -/
theorem tenTo_le_onGrid {i : Interval} (hMiddle : 4 ≤ i.middle) (hExponent : -1076 ≤ i.exponent) :
    tenTo 16 * (i.onGrid (i.places - enough) 1).2 ≤
      i.middle * (i.onGrid (i.places - enough) 1).1 := by
  have hB := (scaleDown_pos (-i.exponent)).2
  have hSmall := le_quarter_wholeScale hExponent
  have hPlaces : i.places = ((Nat.toDigits 10
      ((i.onGrid (-wholeScale) i.middle).1 / (i.onGrid (-wholeScale) i.middle).2)).length : Int) -
        wholeScale := rfl
  rw [onGrid_wholeScale] at hPlaces
  have hFloor := Nat.div_pos (Nat.le_trans hSmall (Nat.mul_le_mul_right _ hMiddle)) hB
  have hPower := (Nat.le_div_iff_mul_le hB).1 (tenTo_length_le hFloor)
  unfold onGrid
  -- a quarter is `a / b`
  generalize (scaleDown 1 1 (-i.exponent)) = quarter at *
  obtain ⟨a, b⟩ := quarter
  dsimp only at *
  rcases lastGrid_cases Nat.length_toDigits_pos hPlaces with
    ⟨k, hGrid, hLength⟩ | ⟨k, hPositive, hGrid, hLength⟩
  · rw [hLength, tenTo_add (16 + k) wholeScale, tenTo_add 16 k] at hPower
    rw [hGrid, if_pos (Int.natCast_nonneg k), Int.toNat_natCast]
    refine Nat.le_of_mul_le_mul_right ?_ (tenTo_pos wholeScale)
    calc tenTo 16 * (b * tenTo k) * tenTo wholeScale
        = tenTo 16 * tenTo k * tenTo wholeScale * b := by ring
      _ ≤ i.middle * (a * tenTo wholeScale) := hPower
      _ = i.middle * a * tenTo wholeScale := by ring
  · have hSum := congrArg tenTo hLength
    rw [tenTo_add k, tenTo_add 16 wholeScale] at hSum
    have hNegative : ¬0 ≤ -(k : Int) := by omega
    rw [hGrid, if_neg hNegative, Int.neg_neg, Int.toNat_natCast]
    have hTop := tenTo_pos ((Nat.toDigits 10 (i.middle * (a * tenTo wholeScale) / b)).length - 1)
    generalize tenTo ((Nat.toDigits 10 (i.middle * (a * tenTo wholeScale) / b)).length - 1) = top
      at hPower hSum hTop
    refine Nat.le_of_mul_le_mul_right ?_ hTop
    calc tenTo 16 * b * top = tenTo 16 * (top * b) := by ring
      _ ≤ tenTo 16 * (i.middle * (a * tenTo wholeScale)) := Nat.mul_le_mul_left _ hPower
      _ = i.middle * a * (tenTo 16 * tenTo wholeScale) := by ring
      _ = i.middle * (a * tenTo k) * top := by
          rw [← hSum]
          ring

theorem search_pos {i : Interval} {places : Int} (hLow : 0 < i.low)
    (hLast : ∃ digits, i.hit? (places - enough) = some digits) (left : Nat) :
    0 < (i.search places left).digits := by
  induction left with
  | zero =>
      obtain ⟨digits, hHit⟩ := hLast
      rw [search, hHit]
      exact pos_of_contains hLow (contains_of_hit hHit)
  | succ left ih =>
      rw [search]
      split
      · rename_i hHit
        exact pos_of_contains hLow (contains_of_hit hHit)
      · exact ih

/-- The lower end of the interval is a quarter away only below a power of two. -/
theorem low_around (format : Binary.Interchange) (significand : Nat) (exponent : Int) :
    (around format significand exponent).low = 4 * significand - 1 ∧
        significand = twoTo format.fractionBits ∨
      (around format significand exponent).low = 4 * significand - 2 := by
  unfold around
  dsimp only
  split
  · rename_i hNarrow
    exact Or.inl ⟨rfl, hNarrow.1⟩
  · exact Or.inr rfl

end Interval

/-- **The shortest decimal is not zero**, in formats that are no wider than doubles. -/
theorem shortest_pos {format : Binary.Interchange} {significand : Nat} {exponent : Int}
    (hFormat : twoTo format.fractionBits ≤ 4503599627370496) (hPositive : 0 < significand)
    (hSignificand : significand < 2 * twoTo format.fractionBits) (hExponent : -1074 ≤ exponent) :
    0 < (shortest format significand exponent).digits := by
  have hNarrow := Interval.low_around format significand exponent
  have hMiddle : (Interval.around format significand exponent).middle = 4 * significand := rfl
  have hHigh : (Interval.around format significand exponent).high = 4 * significand + 2 := rfl
  have hQuarter : (Interval.around format significand exponent).exponent = exponent - 2 := rfl
  rw [shortest]
  generalize Interval.around format significand exponent = i at *
  have hDigits := Interval.tenTo_le_onGrid (i := i) (by omega) (by omega)
  have hTen : tenTo 16 = 10000000000000000 := by decide
  rw [hMiddle, hTen, Nat.mul_assoc] at hDigits
  obtain ⟨hUnit, hPoint⟩ := i.onGrid_pos (i.places - enough)
  refine Interval.search_pos (by omega) ?_ _
  rcases hNarrow with ⟨hLow, hPower⟩ | hLow
  · have hProduct := Nat.mul_le_mul_right (i.onGrid (i.places - enough) 1).1 (hPower ▸ hFormat)
    have hMiddleLow : i.middle = i.low + 1 := by omega
    have hHighMiddle : i.high = i.middle + 2 := by omega
    exact Interval.exists_hit hMiddleLow hHighMiddle (by omega) (by omega)
  · have hBound : significand ≤ 9007199254740991 := by omega
    have hProduct := Nat.mul_le_mul_right (i.onGrid (i.places - enough) 1).1 hBound
    have hMiddleLow : i.middle = i.low + 2 := by omega
    have hHighMiddle : i.high = i.middle + 2 := by omega
    exact Interval.exists_hit hMiddleLow hHighMiddle (by omega) (by omega)

/-! ## Doubles -/

theorem bounds_of_datum {format : Binary.Interchange} {word : Nat} {negative : Bool}
    {significand : Nat} {exponent : Int}
    (h : format.datum word = .finite negative significand exponent) :
    significand < 2 * twoTo format.fractionBits ∧ format.leastExponent ≤ exponent := by
  have hPower : 0 < twoTo format.fractionBits := Nat.pow_pos (by decide)
  have hFraction := Nat.mod_lt word hPower
  unfold Binary.Interchange.datum at h
  dsimp only at h
  split at h
  · split at h <;> cases h
  · split at h
    · cases h
      exact ⟨by omega, Int.le_refl _⟩
    · rename_i hField
      cases h
      exact ⟨by omega, by omega⟩

/-- The shortest decimal of a double that is not zero is not zero. -/
theorem shortest_pos_of_datum {x : Binary64} {negative : Bool} {significand : Nat} {exponent : Int}
    (h : x.datum = .finite negative significand exponent) (hPositive : significand ≠ 0) :
    0 < (shortest .double significand exponent).digits := by
  obtain ⟨hSignificand, hExponent⟩ := bounds_of_datum h
  have hFormat : twoTo Binary.Interchange.double.fractionBits ≤ 4503599627370496 := by decide
  have hLeast : Binary.Interchange.double.leastExponent = -1074 := by decide
  rw [hLeast] at hExponent
  exact shortest_pos hFormat (Nat.pos_of_ne_zero hPositive) hSignificand hExponent

end NinjaFile.Decimal
