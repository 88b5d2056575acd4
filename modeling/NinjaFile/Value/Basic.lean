import NinjaFile.Binary.Binary64

/-!
# Values

What a manifest may carry: everything that a JSON text or a CBOR item can hold.
Text keys alone occur in JSON; a CBOR map may have any value for a key. A map
keeps its entries in order of first insertion.

What is no number comes in two ways. JSON has a word for it, and all that the
word stands for is one constant. A fractional number of CBOR that turns out to
be none is not that constant, and no other is like it.
-/

namespace NinjaFile

/-- A value of the data that manifests are made of. -/
inductive Value where
  | null
  | bool (b : Bool)
  | int (n : Int)
  | float (x : Binary64)
  /-- The constant that stands for no number. -/
  | nan
  | text (s : String)
  | bytes (octets : List UInt8)
  | undefined
  | simple (code : Nat)
  | tagged (tag : Nat) (content : Value)
  | array (items : List Value)
  | map (entries : List (Value × Value))
  deriving BEq, Repr, Inhabited

namespace Value

/-- A fractional number that was given as such: what is no number is the constant. -/
def ofFloat (x : Binary64) : Value :=
  match x.datum with
  | .nan => .nan
  | _ => .float x

def named (fields : List (String × Value)) : List (Value × Value) :=
  fields.map fun field => (.text field.1, field.2)

def record (fields : List (String × Value)) : Value :=
  .map (named fields)

/-- An optional text, absent as null. -/
def ofText? : Option String → Value
  | none => .null
  | some s => .text s

def texts (names : List String) : Value :=
  .array (names.map .text)

def optionalField (name : String) : Option Value → List (String × Value)
  | none => []
  | some value => [(name, value)]

def field? (name : String) : List (Value × Value) → Option Value
  | [] => none
  | (key, value) :: rest =>
    match key with
    | .text s => if s = name then some value else field? name rest
    | _ => field? name rest

end Value

end NinjaFile
