import NinjaFile.Cbor.Decoding
import NinjaFile.Cbor.Encoding
import NinjaFile.Json.Reader
import NinjaFile.Manifest.Basic

/-!
# Manifests in exchange

A manifest is exported as JSON, indented and with sorted keys, and as canonical
CBOR. Both forms hide the order in which fields came, so manifests that agree
can be told by their exports. An export is finished before a file is touched.
-/

namespace NinjaFile.Manifest

/-- The JSON export, a text that ends its last line. -/
def toJson (m : Manifest) : Except Fault String := do
  let text ← Fault.ofUnwritable (m.toValue.jsonText .indented true)
  return text ++ "\n"

def toCbor (m : Manifest) : List UInt8 :=
  Cbor.encode m.toValue

def ofJson (text : String) : Except Fault Manifest :=
  match Json.read Numeral.limit text.toList with
  | .error (.overlong digits) => .error (.overlongNumeral digits)
  | .error (.malformed defect rest) => refuse (.notJson (defect.message text.toList rest))
  | .ok j => ofValue (.ofJson j)

/-- The manifest in the first CBOR item of some octets. -/
def ofCbor (octets : List UInt8) : Except Fault Manifest :=
  match Cbor.decode octets with
  | .error defect => refuse (.notCbor defect.wording)
  | .ok v => ofValue v

def survivesJson (m : Manifest) : Except Fault Bool := do
  let back ← ofJson (← m.toJson)
  return back.agrees m

def survivesCbor (m : Manifest) : Except Fault Bool := do
  let back ← ofCbor m.toCbor
  return back.agrees m

def writeJson (m : Manifest) (s : Storage) (p : Path) : Except Fault (Storage × String) := do
  let text ← m.toJson
  let s ← Fault.ofStorage (s.write p (Octets.ofText text))
  return (s, text)

def writeCbor (m : Manifest) (s : Storage) (p : Path) :
    Except Fault (Storage × List UInt8) := do
  let s ← Fault.ofStorage (s.write p m.toCbor)
  return (s, m.toCbor)

end NinjaFile.Manifest
