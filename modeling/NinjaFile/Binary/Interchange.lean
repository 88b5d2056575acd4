/-!
# Binary floating-point words

A word of an IEEE 754 interchange format is a natural number: a sign bit, a
field of exponent bits and a fraction. The three widths in use differ in two
numbers only, so reading a word and rounding a quotient to one are written once
for every width.
-/

namespace NinjaFile.Binary

def twoTo (n : Nat) : Nat := Nat.pow 2 n

def tenTo (n : Nat) : Nat := Nat.pow 10 n

/-- An interchange format, by the widths of its exponent field and its fraction. -/
structure Interchange where
  exponentBits : Nat
  fractionBits : Nat

def Interchange.half : Interchange := ⟨5, 10⟩

def Interchange.single : Interchange := ⟨8, 23⟩

def Interchange.double : Interchange := ⟨11, 52⟩

/-- What a word stands for; a finite one is `significand * 2 ^ exponent` under its sign. -/
inductive Datum where
  | nan
  | infinite (negative : Bool)
  | finite (negative : Bool) (significand : Nat) (exponent : Int)
  deriving DecidableEq, Repr

namespace Interchange

variable (format : Interchange)

/-- The exponent field of infinities and of what is no number. -/
def topField : Nat := twoTo format.exponentBits - 1

/-- The exponent of the last bit of a subnormal word. -/
def leastExponent : Int :=
  2 - (twoTo (format.exponentBits - 1) : Int) - format.fractionBits

def signWeight : Nat := twoTo (format.exponentBits + format.fractionBits)

/-- The word of an infinity without its sign; smaller words are finite. -/
def infinity : Nat := format.topField * twoTo format.fractionBits

/-- The word for what is no number: no sign, and only the first bit of the fraction. -/
def quiet : Nat := format.infinity + twoTo (format.fractionBits - 1)

def withSign (negative : Bool) (magnitude : Nat) : Nat :=
  if negative then format.signWeight + magnitude else magnitude

/-- What a word stands for. A field of zero has no leading bit of its own. -/
def datum (word : Nat) : Datum :=
  let fraction := word % twoTo format.fractionBits
  let field := word / twoTo format.fractionBits % twoTo format.exponentBits
  let negative := word / format.signWeight % 2 == 1
  if field = format.topField then
    if fraction = 0 then .infinite negative else .nan
  else if field = 0 then .finite negative fraction format.leastExponent
  else .finite negative (twoTo format.fractionBits + fraction) (format.leastExponent + (field - 1))

end Interchange

/-! ## Rounding -/

/-- The nearest natural number to a quotient; a half goes to the even neighbour. -/
def roundHalfEven (numerator denominator : Nat) : Nat :=
  let floor := numerator / denominator
  let twice := 2 * (numerator % denominator)
  if twice > denominator ∨ (twice = denominator ∧ floor % 2 = 1) then floor + 1 else floor

def scaleDown (numerator denominator : Nat) (exponent : Int) : Nat × Nat :=
  if 0 ≤ exponent then (numerator, denominator * twoTo exponent.toNat)
  else (numerator * twoTo (-exponent).toNat, denominator)

/-- The word nearest to a quotient with a positive denominator. A result at or above the greatest
finite word's successor is infinite. The significand that rounding carries to the next power of two
carries into the exponent field by addition. -/
def Interchange.nearest (format : Interchange) (numerator denominator : Nat) : Nat :=
  if numerator = 0 then 0
  else
    let scale : Int := (numerator.log2 : Int) - denominator.log2 - format.fractionBits
    let fits := let (n, d) := scaleDown numerator denominator scale
                twoTo format.fractionBits * d ≤ n
    let exponent := max format.leastExponent (if fits then scale else scale - 1)
    let (n, d) := scaleDown numerator denominator exponent
    let steps := (exponent - format.leastExponent).toNat
    min format.infinity (steps * twoTo format.fractionBits + roundHalfEven n d)

def Interchange.word (format : Interchange) : Datum → Nat
  | .nan => format.quiet
  | .infinite negative => format.withSign negative format.infinity
  | .finite negative significand exponent =>
    let (n, d) := scaleDown significand 1 (-exponent)
    format.withSign negative (format.nearest n d)

end NinjaFile.Binary
