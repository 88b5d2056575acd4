/-!
# Hexadecimal digits

Lower-case digits, most significant first, for octets and code points, and the
value of a digit in either case.
-/

namespace NinjaFile.Hex

def digit (n : Nat) : Char :=
  if n < 10 then Char.ofNat ('0'.toNat + n) else Char.ofNat ('a'.toNat + (n - 10))

def fixed : Nat → Nat → List Char
  | 0, _ => []
  | width + 1, n => fixed width (n / 16) ++ [digit (n % 16)]

def value? (c : Char) : Option Nat :=
  if '0' ≤ c ∧ c ≤ '9' then some (c.toNat - '0'.toNat)
  else if 'a' ≤ c ∧ c ≤ 'f' then some (c.toNat - 'a'.toNat + 10)
  else if 'A' ≤ c ∧ c ≤ 'F' then some (c.toNat - 'A'.toNat + 10)
  else none

def ofOctets (octets : List UInt8) : String :=
  String.ofList (octets.flatMap fun octet => fixed 2 octet.toNat)

/-- The octets that pairs of digits stand for; `none` for an odd digit or a foreign character. -/
def toOctets? : List Char → Option (List UInt8)
  | [] => some []
  | high :: low :: rest => do
    let h ← value? high
    let l ← value? low
    let octets ← toOctets? rest
    return UInt8.ofNat (16 * h + l) :: octets
  | [_] => none

end NinjaFile.Hex
