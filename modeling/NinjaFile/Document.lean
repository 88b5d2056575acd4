import NinjaFile.Digest.Sha256
import NinjaFile.Clause

/-!
# Documents

A document is all that a build file declares. Its text has a fixed order of
sections, whatever the order of the declarations: header, required version,
build directory, rules, edges, bindings, default target. Within a section the
order is that of declaration.

Rules, edges and bindings are only ever added. A rule or an edge can be changed
later, by its number.
-/

namespace NinjaFile

structure Document where
  header : Option String := none
  version : Option String := none
  buildDir : Option String := none
  defaultTarget : Option String := none
  rules : List Rule := []
  edges : List Edge := []
  bindings : List Binding := []
  deriving DecidableEq, Repr

namespace Document

/-! ## Text -/

def optionalPiece (before after : String) : Option String → List Piece
  | none => []
  | some text => [.ok (before ++ text ++ after)]

def pieces (d : Document) : List Piece :=
  optionalPiece "" "\n\n" d.header ++
    optionalPiece "ninja_required_version = " "\n" d.version ++
    optionalPiece "builddir=" "\n" d.buildDir ++
    d.rules.map (fun r => .ok r.text) ++
    d.edges.flatMap Edge.pieces ++
    d.bindings.map Binding.piece ++
    optionalPiece "default " "\n" d.defaultTarget

def render (d : Document) : Except Fault String :=
  Fault.ofOverlong (Piece.join d.pieces)

def digest (d : Document) : Except Fault String := do
  let text ← d.render
  return Sha256.hex (Octets.ofText text)

/-! ## Declarations -/

def noTargets : Diagnostic where
  code := .validation
  message := "edge() requires at least one target."
  hint := some "Pass a target name or a non-empty list of names."
  context := [("operation", "edge")]

def addRule (d : Document) (r : Rule) : Document :=
  { d with rules := d.rules ++ [r] }

/-- A document with one more edge, which must have a target. -/
def addEdge (d : Document) (e : Edge) : Except Fault Document :=
  if e.targets.isEmpty then .error (.diagnostic noTargets)
  else .ok { d with edges := d.edges ++ [e] }

def addBinding (d : Document) (b : Binding) : Document :=
  { d with bindings := d.bindings ++ [b] }

inductive Edit where
  | header (text : Option String)
  | version (text : Option String)
  | buildDir (text : Option String)
  | defaultTarget (text : Option String)
  | bind (name value : Scalar)
  | rule (name : String)
  | edge (targets : Names)
  | editRule (index : Nat) (change : Rule.Edit)
  | editEdge (index : Nat) (change : Edge.Edit)
  deriving DecidableEq, Repr

def Edit.newRules : Edit → Nat
  | .rule _ => 1
  | _ => 0

/-- How many edges a change adds, if it is not refused. -/
def Edit.newEdges : Edit → Nat
  | .edge _ => 1
  | _ => 0

/-- A document after a change. A change that is refused leaves no trace. -/
def edit (d : Document) : Edit → Except Fault Document
  | .header header => .ok { d with header }
  | .version version => .ok { d with version }
  | .buildDir buildDir => .ok { d with buildDir }
  | .defaultTarget defaultTarget => .ok { d with defaultTarget }
  | .bind name value => .ok (d.addBinding ⟨name, value⟩)
  | .rule name => .ok (d.addRule { name })
  | .edge targets => d.addEdge { targets := targets.toList }
  | .editRule index change =>
    match d.rules[index]? with
    | none => .error .noSuchEntry
    | some r => .ok { d with rules := d.rules.set index (r.edit change) }
  | .editEdge index change =>
    match d.edges[index]? with
    | none => .error .noSuchEntry
    | some e => do
      let e ← Fault.ofOverlong (e.edit change)
      return { d with edges := d.edges.set index e }

/-- A document after several changes, up to the first that is refused. -/
def edits (d : Document) : List Edit → Except Fault Document
  | [] => .ok d
  | change :: changes => do (← d.edit change).edits changes

end Document

end NinjaFile
