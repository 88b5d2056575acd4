import NinjaFile.Numeral
import NinjaFile.Value.Basic

/-!
# Scalars and flags

Bindings have scalars for names and values; the flags of a rule may be given by
any plain value. Both are kept as they were given. A scalar is written as text
only in a build file, and a flag only counts as set or not.
-/

namespace NinjaFile

inductive Scalar where
  | text (s : String)
  | int (n : Int)
  | bool (b : Bool)
  deriving DecidableEq, Repr

namespace Scalar

/-- The text of a scalar, refused for an integer beyond the limit of numerals. -/
def text? : Scalar → Except Numeral.Overlong String
  | .text s => .ok s
  | .int n => (Numeral.ofInt? n).map String.ofList
  | .bool b => .ok (if b then "True" else "False")

def toValue : Scalar → Value
  | .text s => .text s
  | .int n => .int n
  | .bool b => .bool b

end Scalar

inductive Flag where
  | bool (b : Bool)
  | int (n : Int)
  | float (x : Binary64)
  | text (s : String)
  deriving DecidableEq, Repr

namespace Flag

/-- Is the flag set? Zero and the empty text do not set it. -/
def holds : Flag → Bool
  | .bool b => b
  | .int n => n != 0
  | .float x =>
    match x.datum with
    | .finite _ significand _ => significand != 0
    | _ => true
  | .text s => s != ""

def toValue : Flag → Value
  | .bool b => .bool b
  | .int n => .int n
  | .float x => .ofFloat x
  | .text s => .text s

end Flag

inductive Names where
  | one (name : String)
  | many (names : List String)
  deriving DecidableEq, Repr

/-- The names in order. A name on its own counts even when it is empty. -/
def Names.toList : Names → List String
  | .one name => [name]
  | .many names => names

end NinjaFile
