/-!
# Decimal integers

Integers have any size in memory, but their decimal text is bounded: a numeral
of more than `Numeral.limit` digits is neither written nor read. The sign does
not count.
-/

namespace NinjaFile.Numeral

def limit : Nat := 4300

/-- The cause of a refusal to write an integer: it has more than `limit` digits. -/
inductive Overlong where
  | overlong
  deriving DecidableEq, Repr

def digits (n : Nat) : List Char :=
  Nat.toDigits 10 n

def ofInt (n : Int) : List Char :=
  if n < 0 then '-' :: digits n.natAbs else digits n.natAbs

def ofInt? (n : Int) : Except Overlong (List Char) :=
  if (digits n.natAbs).length ≤ limit then .ok (ofInt n) else .error .overlong

def toNat (ds : List Char) : Nat :=
  Nat.ofDigitChars 10 ds 0

end NinjaFile.Numeral
