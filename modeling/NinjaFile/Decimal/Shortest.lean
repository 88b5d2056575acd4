import NinjaFile.Binary.Interchange

/-!
# The fewest decimal digits that read back

Every positive binary number owns an interval: the reals that round to it, its
ends included exactly when its significand is even. The shortest decimal of the
number is the point of that interval on the coarsest decimal grid that has one.
On each grid the number's two neighbours are tested; of two hits the nearer
wins, and of two equally near the even one.
-/

namespace NinjaFile.Decimal

/-- A positive decimal `digits * 10 ^ exponent`. -/
structure Scaled where
  digits : Nat
  exponent : Int
  deriving DecidableEq, Repr

/-- The interval of a positive binary number in quarters of its last place: the number lies at
`4 * significand`, the ends at `low` and `high`, and a quarter weighs `2 ^ exponent`. -/
structure Interval where
  low : Nat
  middle : Nat
  high : Nat
  closed : Bool
  exponent : Int

/-- The interval of `significand * 2 ^ exponent`. Below a power of two the neighbours lie closer, so
there the lower end is a quarter away and not a half. -/
def Interval.around (format : Binary.Interchange) (significand : Nat) (exponent : Int) : Interval :=
  let narrow := significand = Binary.twoTo format.fractionBits ∧ format.leastExponent < exponent
  { low := if narrow then 4 * significand - 1 else 4 * significand - 2
    middle := 4 * significand
    high := 4 * significand + 2
    closed := significand % 2 == 0
    exponent := exponent - 2 }

/-- A number of quarters in units of `10 ^ grid`, as numerator and denominator. -/
def Interval.onGrid (i : Interval) (grid : Int) (quarters : Nat) : Nat × Nat :=
  let (n, d) := Binary.scaleDown quarters 1 (-i.exponent)
  if 0 ≤ grid then (n, d * Binary.tenTo grid.toNat) else (n * Binary.tenTo (-grid).toNat, d)

def Interval.contains (i : Interval) (grid : Int) (digits : Nat) : Bool :=
  let (low, d) := i.onGrid grid i.low
  let (high, _) := i.onGrid grid i.high
  if i.closed then low ≤ digits * d ∧ digits * d ≤ high else low < digits * d ∧ digits * d < high

/-- The better of the number's two neighbours on a grid, if one lies in the interval. -/
def Interval.hit? (i : Interval) (grid : Int) : Option Nat :=
  let (n, d) := i.onGrid grid i.middle
  let below := n / d
  let nearBelow := 2 * (n % d) < d ∨ (2 * (n % d) = d ∧ below % 2 = 0)
  match i.contains grid below, i.contains grid (below + 1) with
  | true, true => some (if nearBelow then below else below + 1)
  | true, false => some below
  | false, true => some (below + 1)
  | false, false => none

/-- The scale at which every double has a whole part. -/
def wholeScale : Nat := 400

/-- The place of the leading digit: the least `p` with the number below `10 ^ p`. -/
def Interval.places (i : Interval) : Int :=
  let (n, d) := i.onGrid (-wholeScale) i.middle
  ((Nat.toDigits 10 (n / d)).length : Int) - wholeScale

def enough : Nat := 17

/-- The first hit among the grids of `enough - left`, `enough - left + 1`, … digits. -/
def Interval.search (i : Interval) (places : Int) : Nat → Scaled
  | 0 =>
    let grid := places - enough
    ⟨(i.hit? grid).getD 0, grid⟩
  | left + 1 =>
    let grid := places - (enough - (left + 1))
    match i.hit? grid with
    | some digits => ⟨digits, grid⟩
    | none => i.search places left

/-- The shortest decimal that rounds to `significand * 2 ^ exponent`, for a positive significand. -/
def shortest (format : Binary.Interchange) (significand : Nat) (exponent : Int) : Scaled :=
  let i := Interval.around format significand exponent
  i.search i.places (enough - 1)

end NinjaFile.Decimal
