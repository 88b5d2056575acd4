import NinjaFile.Json.Printer
import NinjaFile.Value.Order

/-!
# Values as JSON

Every JSON value is a value. The other way there are refusals: bytes and the
other kinds that CBOR adds have no JSON form, an integer beyond the limit of
numerals is not written, and a key must be a text or have a plain one.

With sorted keys the entries of a map are put in order before their keys become
texts. Keys that have no order among them are refused before anything inside the
map is looked at.
-/

namespace NinjaFile.Value

/-! ## From JSON -/

mutual

def ofJson : Json → Value
  | .null => .null
  | .bool b => .bool b
  | .int n => .int n
  | .float x => .ofFloat x
  | .text s => .text s
  | .array items => .array (ofJsonItems items)
  | .object members => .map (ofJsonMembers members)

def ofJsonItems : List Json → List Value
  | [] => []
  | item :: items => ofJson item :: ofJsonItems items

def ofJsonMembers : List (String × Json) → List (Value × Value)
  | [] => []
  | (name, item) :: members => (.text name, ofJson item) :: ofJsonMembers members

end

inductive Unwritable where
  | overlong
  | unordered (pair : Unordered)
  | key (kind : Kind)
  | item (kind : Kind)
  deriving DecidableEq, Repr

/-! ## Keys -/

def keyText : Value → Except Unwritable String
  | .text s => .ok s
  | .null => .ok "null"
  | .bool b => .ok (if b then "true" else "false")
  | .int n =>
    match Numeral.ofInt? n with
    | .ok cs => .ok (String.ofList cs)
    | .error _ => .error .overlong
  | .float x => .ok (String.ofList (Json.style.text x))
  | .nan => .ok (String.ofList (Json.style.text .nan))
  | v => .error (.key v.kind)

/-! ## To JSON -/

/-- The members that entries become once their values have been converted, refused at the first key
or value that has no form. -/
def members : List (Value × Except Unwritable Json) → Except Unwritable (List (String × Json))
  | [] => .ok []
  | (key, item) :: entries => do
    let name ← keyText key
    let first ← item
    return (name, first) :: (← members entries)

def arrange (sorted : Bool) (entries : List (Value × Except Unwritable Json)) :
    Except Unwritable (List (String × Json)) :=
  if sorted then
    match sortByKey entries with
    | .error pair => .error (.unordered pair)
    | .ok entries => members entries
  else members entries

mutual

/-- The JSON form of a value, with the keys of every map in order if that is asked for. -/
def toJson (sorted : Bool) : Value → Except Unwritable Json
  | .null => .ok .null
  | .bool b => .ok (.bool b)
  | .int n =>
    if (Numeral.digits n.natAbs).length ≤ Numeral.limit then .ok (.int n) else .error .overlong
  | .float x => .ok (.float x)
  | .nan => .ok (.float .nan)
  | .text s => .ok (.text s)
  | .array items => do return .array (← toJsonItems sorted items)
  | .map entries => do return .object (← arrange sorted (toJsonEntries sorted entries))
  | .bytes _ => .error (.item .bytes)
  | .undefined => .error (.item .undefined)
  | .simple _ => .error (.item .simple)
  | .tagged .. => .error (.item .tagged)

/-- The items of an array, up to the first that has no form. -/
def toJsonItems (sorted : Bool) : List Value → Except Unwritable (List Json)
  | [] => .ok []
  | item :: items => do
    let first ← toJson sorted item
    return first :: (← toJsonItems sorted items)

/-- The entries of a map, each value converted or refused on its own. -/
def toJsonEntries (sorted : Bool) :
    List (Value × Value) → List (Value × Except Unwritable Json)
  | [] => []
  | (key, value) :: entries => (key, toJson sorted value) :: toJsonEntries sorted entries

end

def jsonText (layout : Json.Layout) (sorted : Bool) (v : Value) : Except Unwritable String := do
  return (← v.toJson sorted).toText layout

end NinjaFile.Value
