import NinjaFile.Value.Basic

/-!
# Kinds of values

A refusal names what it refuses by its kind alone.
-/

namespace NinjaFile.Value

inductive Kind where
  | null
  | bool
  | int
  | float
  | text
  | bytes
  | undefined
  | simple
  | tagged
  | array
  | map
  deriving DecidableEq, Repr

def kind : Value → Kind
  | .null => .null
  | .bool _ => .bool
  | .int _ => .int
  | .float _ => .float
  | .nan => .float
  | .text _ => .text
  | .bytes _ => .bytes
  | .undefined => .undefined
  | .simple _ => .simple
  | .tagged .. => .tagged
  | .array _ => .array
  | .map _ => .map

/-- The name of a kind in a message. Arrays and maps have the names of fixed ones, since they can be
at fault only as keys. -/
def Kind.name : Kind → String
  | .null => "NoneType"
  | .bool => "bool"
  | .int => "int"
  | .float => "float"
  | .text => "str"
  | .bytes => "bytes"
  | .undefined => "UndefinedType"
  | .simple => "CBORSimpleValue"
  | .tagged => "CBORTag"
  | .array => "tuple"
  | .map => "frozendict"

end NinjaFile.Value
