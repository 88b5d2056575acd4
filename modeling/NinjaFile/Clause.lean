import NinjaFile.Binding
import NinjaFile.Edge
import NinjaFile.Fault

/-!
# Clauses as they are shown

Bindings, rules and edges are the clauses of a build file. Each is shown by its
text and by the JSON text of its record; one that cannot be written cannot be
shown either.
-/

namespace NinjaFile

structure ClauseView where
  text : String
  record : String
  deriving DecidableEq, Repr

def ClauseView.of (text : Except Numeral.Overlong String) (fields : List (String × Value)) :
    Except Fault ClauseView := do
  let text ← Fault.ofOverlong text
  let record ← Fault.ofUnwritable ((Value.record fields).jsonText .inline false)
  return ⟨text, record⟩

def Binding.view (b : Binding) : Except Fault ClauseView :=
  ClauseView.of b.piece b.fields

def Rule.view (r : Rule) : Except Fault ClauseView :=
  ClauseView.of (.ok r.text) r.fields

def Edge.view (e : Edge) : Except Fault ClauseView :=
  ClauseView.of (Piece.join e.pieces) e.fields

end NinjaFile
