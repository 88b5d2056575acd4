import NinjaFile.Piece
import NinjaFile.Scalar

/-!
# Bindings

A binding of the file gives a value to a name. Bindings are never changed, and a
name may be bound again by a later one.
-/

namespace NinjaFile

/-- A line `name = value`. -/
structure Binding where
  name : Scalar
  value : Scalar
  deriving DecidableEq, Repr

namespace Binding

def piece (b : Binding) : Piece := do
  let name ← b.name.text?
  let value ← b.value.text?
  return name ++ " = " ++ value ++ "\n"

/-- The fields of the record of a binding, its scalars as they were given. -/
def fields (b : Binding) : List (String × Value) :=
  [("name", b.name.toValue), ("value", b.value.toValue)]

end Binding

end NinjaFile
