import NinjaFile.Binary.Binary64

/-!
# JSON values

The tree that a JSON text stands for. Integers and fractional numbers are kept
apart by their spelling, and an object keeps its members in order.
-/

namespace NinjaFile

inductive Json where
  | null
  | bool (b : Bool)
  | int (n : Int)
  | float (x : Binary64)
  | text (s : String)
  | array (items : List Json)
  | object (members : List (String × Json))
  deriving BEq, Repr

end NinjaFile
