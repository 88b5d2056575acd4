import NinjaFile.Text.Hex
import NinjaFile.Text.Unprintable

/-!
# Text in quotes for a reader

Messages show a text between single quotes, or between double quotes when it
holds a single quote and no double one. What a reader could not see or could
mistake is written behind a backslash.
-/

namespace NinjaFile.Quoted

def quoteFor (cs : List Char) : Char :=
  if cs.contains '\'' && !cs.contains '"' then '"' else '\''

/-- A code point in as few of two, four or eight digits as hold it. -/
def code (n : Nat) : List Char :=
  if n < 0x100 then '\\' :: 'x' :: Hex.fixed 2 n
  else if n < 0x10000 then '\\' :: 'u' :: Hex.fixed 4 n
  else '\\' :: 'U' :: Hex.fixed 8 n

def encodeChar (quote c : Char) : List Char :=
  if c = quote ∨ c = '\\' then ['\\', c]
  else if c = '\n' then ['\\', 'n']
  else if c = '\r' then ['\\', 'r']
  else if c = '\t' then ['\\', 't']
  else if isUnprintable c then code c.toNat
  else [c]

def encode (cs : List Char) : List Char :=
  let quote := quoteFor cs
  quote :: cs.flatMap (encodeChar quote) ++ [quote]

/-- One octet between the given quotes: as the ASCII character it is, or in two digits. -/
def encodeOctet (quote : Char) (octet : UInt8) : List Char :=
  if octet < 0x80 then encodeChar quote (Char.ofNat octet.toNat) else code octet.toNat

/-- Octets between the quotes that suit them, marked by a leading letter. -/
def encodeOctets (octets : List UInt8) : List Char :=
  let quote := quoteFor (octets.map fun octet => Char.ofNat octet.toNat)
  'b' :: quote :: octets.flatMap (encodeOctet quote) ++ [quote]

end NinjaFile.Quoted
