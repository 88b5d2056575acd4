import NinjaFile.Binary.Binary64
import NinjaFile.Cbor.Head
import NinjaFile.Value.Basic

/-!
# Canonical CBOR

Every value has one encoding, that of RFC 7049, section 3.9: heads in the
fewest octets, definite lengths, the entries of a map in order of their encoded
keys, the shorter key first, and a fractional number in the narrowest format
that holds it. Integers outside sixty-four bits are tagged byte strings.
-/

namespace NinjaFile.Cbor

/-! ## Numbers -/

/-- The fewest octets of a positive number; none for zero. -/
def magnitude (n : Nat) : List UInt8 :=
  if n = 0 then [] else magnitude (n / 256) ++ [UInt8.ofNat (n % 256)]

/-- A number as an argument if it fits and as a tagged byte string if not. -/
def encodeNat (major tag n : Nat) : List UInt8 :=
  if n < 0x10000000000000000 then head major n
  else head 6 tag ++ head 2 (magnitude n).length ++ magnitude n

/-- An integer; a negative one by its distance from minus one. -/
def encodeInt (n : Int) : List UInt8 :=
  if 0 ≤ n then encodeNat 0 2 n.toNat else encodeNat 1 3 (-1 - n).toNat

/-- Does a format hold a datum exactly? What is no number fits anywhere. -/
def fits (format : Binary.Interchange) (d : Binary.Datum) : Bool :=
  Binary64.ofDatum (format.datum (format.word d)) == Binary64.ofDatum d

/-- A fractional number in the narrowest format that holds it. -/
def encodeFloat (x : Binary64) : List UInt8 :=
  let d := x.datum
  if fits .half d then headOf 7 2 (Binary.Interchange.half.word d)
  else if fits .single d then headOf 7 4 (Binary.Interchange.single.word d)
  else headOf 7 8 (Binary.Interchange.double.word d)

/-! ## Values -/

/-- The order of encoded keys: the shorter first, and octet by octet among equals. -/
def keyLe (a b : List UInt8) : Bool :=
  a.length < b.length || (a.length == b.length && !decide (b < a))

def joinEntries (entries : List (List UInt8 × List UInt8)) : List UInt8 :=
  (entries.mergeSort fun e f => keyLe e.1 f.1).flatMap fun e => e.1 ++ e.2

mutual

def encode : Value → List UInt8
  | .int n => encodeInt n
  | .bytes octets => head 2 octets.length ++ octets
  | .text s => head 3 (Octets.ofText s).length ++ Octets.ofText s
  | .array items => head 4 items.length ++ encodeItems items
  | .map entries => head 5 entries.length ++ joinEntries (encodeEntries entries)
  | .tagged tag content => head 6 tag ++ encode content
  | .bool b => head 7 (if b then 21 else 20)
  | .null => head 7 22
  | .undefined => head 7 23
  | .simple code => head 7 code
  | .float x => encodeFloat x
  | .nan => encodeFloat .nan

def encodeItems : List Value → List UInt8
  | [] => []
  | item :: items => encode item ++ encodeItems items

def encodeEntries : List (Value × Value) → List (List UInt8 × List UInt8)
  | [] => []
  | (key, value) :: entries => (encode key, encode value) :: encodeEntries entries

end

end NinjaFile.Cbor
