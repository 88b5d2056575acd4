import NinjaFile.Binary.Interchange

/-!
# Numbers of double precision

The one kind of fractional number in use, kept as its sixty-four bits. All that
is done with one goes through the datum that it stands for, so every operation
is exact integer arithmetic.
-/

namespace NinjaFile

/-- A double-precision number by its bits. -/
structure Binary64 where
  bits : UInt64
  deriving DecidableEq, Repr

namespace Binary64

open Binary

def datum (x : Binary64) : Datum :=
  Interchange.double.datum x.bits.toNat

/-- The double nearest to a datum; exact for each that a narrower format holds. -/
def ofDatum (d : Datum) : Binary64 :=
  ⟨UInt64.ofNat (Interchange.double.word d)⟩

def nan : Binary64 := ofDatum .nan

/-- The greatest decimal exponent that is looked at: beyond it, in either direction, a numeral is
infinite or zero in every format. -/
def decimalRange : Nat := 400

/-- The double nearest to `digits * 10 ^ exponent`, under a sign. Where the leading digit stands
more than `decimalRange` places from the point the answer is infinite or zero, and the power is not
computed. -/
def ofDecimal (negative : Bool) (digits : Nat) (exponent : Int) : Binary64 :=
  let places : Int := (Nat.toDigits 10 digits).length + exponent
  let magnitude :=
    if digits = 0 ∨ places < -decimalRange then 0
    else if decimalRange < places then Interchange.double.infinity
    else if 0 ≤ exponent then Interchange.double.nearest (digits * tenTo exponent.toNat) 1
    else Interchange.double.nearest digits (tenTo (-exponent).toNat)
  ⟨UInt64.ofNat (Interchange.double.withSign negative magnitude)⟩

end Binary64

end NinjaFile
