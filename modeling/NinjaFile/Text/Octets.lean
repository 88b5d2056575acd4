/-!
# Text as octets

Files and digests are over octets, and text becomes octets by UTF-8. The
octets of a text determine the text, and not every list of octets is one.

A text is a list of characters and none of these is half of a surrogate pair, so
every text has a form in UTF-8. Texts that hold such halves, and the faults of
encoding them, are out.
-/

namespace NinjaFile.Octets

/-- The UTF-8 form of a text. -/
def ofText (text : String) : List UInt8 :=
  text.toUTF8.data.toList

def toText? (octets : List UInt8) : Option String :=
  String.fromUTF8? ⟨octets.toArray⟩

/-- The last `width` octets of a number, most significant first. -/
def bigEndian : Nat → Nat → List UInt8
  | 0, _ => []
  | width + 1, n => bigEndian width (n / 256) ++ [UInt8.ofNat (n % 256)]

def toNat (octets : List UInt8) : Nat :=
  octets.foldl (fun n octet => 256 * n + octet.toNat) 0

end NinjaFile.Octets
