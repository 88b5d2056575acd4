import NinjaFile.Binary.Interchange

/-!
# The order of numbers

Numbers are compared by what they stand for, exactly: two finite ones are
brought to a common exponent. What is no number has no place in the order, not
even beside itself.
-/

namespace NinjaFile.Binary.Datum

def ofInt (n : Int) : Datum :=
  .finite (n < 0) n.natAbs 0

/-- A significand under its sign, in units of a smaller power of two. -/
def inUnits (negative : Bool) (significand : Nat) (shift : Int) : Int :=
  let magnitude : Int := (significand * twoTo shift.toNat : Nat)
  if negative then -magnitude else magnitude

/-- How two data compare; `none` where one is no number. -/
def order? : Datum → Datum → Option Ordering
  | .nan, _ => none
  | _, .nan => none
  | .infinite a, .infinite b => some (if a = b then .eq else if a then .lt else .gt)
  | .infinite a, .finite .. => some (if a then .lt else .gt)
  | .finite .., .infinite b => some (if b then .gt else .lt)
  | .finite a m e, .finite b n f =>
    let low := min e f
    some (compare (inUnits a m (e - low)) (inUnits b n (f - low)))

end NinjaFile.Binary.Datum
