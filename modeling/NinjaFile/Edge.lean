import NinjaFile.Entries
import NinjaFile.Piece
import NinjaFile.Rule

/-!
# Edges

An edge says by which rule its targets are made, and from what: sources are what
the rule transforms, dependencies are needed without being passed to it, and
order-only inputs merely come first. Each of the three lists is unset until it
is first added to; set but empty it is written like an unset one, and only the
record tells them apart.

Bindings of an edge are a table by the text of the name: a name that is bound
again keeps its place and takes the new value.
-/

namespace NinjaFile

structure Edge where
  targets : List String
  rule : String := Rule.phony
  sources : Option (List String) := none
  dependencies : Option (List String) := none
  orderOnly : Option (List String) := none
  bindings : List (String × Scalar) := []
  pool : Option String := none
  deriving DecidableEq, Repr

namespace Edge

/-- A list of names with more behind them, set from now on. -/
def append (names : Option (List String)) (more : Names) : Option (List String) :=
  some (names.getD [] ++ more.toList)

inductive Edit where
  | rule (rule : String)
  | sources (names : Names)
  | dependencies (names : Names)
  | orderOnly (names : Names)
  | bind (name value : Scalar)
  | pool (pool : Option String)
  deriving DecidableEq, Repr

/-- An edge after a change. A binding whose name cannot be written is refused. -/
def edit (e : Edge) : Edit → Except Numeral.Overlong Edge
  | .rule rule => .ok { e with rule }
  | .sources names => .ok { e with sources := append e.sources names }
  | .dependencies names => .ok { e with dependencies := append e.dependencies names }
  | .orderOnly names => .ok { e with orderOnly := append e.orderOnly names }
  | .bind name value => do
    let name ← name.text?
    return { e with bindings := Entries.put (· == ·) name value e.bindings }
  | .pool pool => .ok { e with pool }

/-! ## Text and record -/

/-- Names behind a mark; nothing for a list that is unset or empty. -/
def inputs (mark : String) : Option (List String) → String
  | none => ""
  | some [] => ""
  | some names => mark ++ " ".intercalate names

/-- The line of a binding, behind the end of the line before it. -/
def bindingPiece (b : String × Scalar) : Piece := do
  let value ← b.2.text?
  return "\n  " ++ b.1 ++ " = " ++ value

def poolLine : Option String → String
  | none => ""
  | some pool => "  pool = " ++ pool ++ "\n"

def headline (e : Edge) : String :=
  "build " ++ " ".intercalate e.targets ++ ": " ++ e.rule ++ inputs " " e.sources ++
    inputs " | " e.dependencies ++ inputs " || " e.orderOnly

def pieces (e : Edge) : List Piece :=
  .ok e.headline :: e.bindings.map bindingPiece ++ [.ok ("\n" ++ poolLine e.pool)]

/-- The record of the bindings, left out where there are none. -/
def bindingsValue? (bindings : List (String × Scalar)) : Option Value :=
  if bindings.isEmpty then none else some (.record (bindings.map fun b => (b.1, b.2.toValue)))

def fields (e : Edge) : List (String × Value) :=
  [("targets", .texts e.targets), ("rule", .text e.rule)] ++
    Value.optionalField "sources" (e.sources.map .texts) ++
    Value.optionalField "dependencies" (e.dependencies.map .texts) ++
    Value.optionalField "order_deps" (e.orderOnly.map .texts) ++
    Value.optionalField "assigns" (bindingsValue? e.bindings) ++
    Value.optionalField "pool" (e.pool.map .text)

end Edge

end NinjaFile
