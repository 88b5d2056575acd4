import NinjaFile.Decimal.Style
import NinjaFile.Json.Basic
import NinjaFile.Json.Quoted
import NinjaFile.Numeral

/-!
# JSON texts

A JSON value has a text in each layout. A layout says only which blanks stand in
front of the first item of a container, between a comma and the next item, and
in front of the closing bracket; an empty container has none.
-/

namespace NinjaFile.Json

/-- The blanks of a layout, each by the depth of the item that follows. -/
structure Layout where
  lead : Nat → List Char
  gap : Nat → List Char

def Layout.inline : Layout :=
  ⟨fun _ => [], fun _ => [' ']⟩

/-- Every item on a line of its own, two blanks further in than its container. -/
def Layout.indented : Layout :=
  let line (depth : Nat) := '\n' :: List.replicate (2 * depth) ' '
  ⟨line, line⟩

def style : Decimal.Style := ⟨"NaN", "Infinity"⟩

mutual

/-- The text of a value whose container stands at the given depth. -/
def print (layout : Layout) (depth : Nat) : Json → List Char
  | .null => "null".toList
  | .bool b => if b then "true".toList else "false".toList
  | .int n => Numeral.ofInt n
  | .float x => style.text x
  | .text s => quote s.toList
  | .array [] => ['[', ']']
  | .array (item :: items) =>
    '[' :: layout.lead (depth + 1) ++ print layout (depth + 1) item ++
      printItems layout (depth + 1) items ++ layout.lead depth ++ [']']
  | .object [] => ['{', '}']
  | .object ((name, value) :: members) =>
    '{' :: layout.lead (depth + 1) ++ quote name.toList ++ ':' :: ' ' ::
      print layout (depth + 1) value ++
      printMembers layout (depth + 1) members ++ layout.lead depth ++ ['}']

def printItems (layout : Layout) (depth : Nat) : List Json → List Char
  | [] => []
  | item :: items =>
    ',' :: layout.gap depth ++ print layout depth item ++ printItems layout depth items

def printMembers (layout : Layout) (depth : Nat) : List (String × Json) → List Char
  | [] => []
  | (name, value) :: members =>
    ',' :: layout.gap depth ++ quote name.toList ++ ':' :: ' ' :: print layout depth value ++
      printMembers layout depth members

end

def toText (layout : Layout) (j : Json) : String :=
  String.ofList (j.print layout 0)

end NinjaFile.Json
