import NinjaFile.Document
import NinjaFile.Value.Display

/-!
# Manifests

A manifest is a snapshot of a document: the digest of its text, its preamble,
and a record of each rule, edge and binding. It can be read from a value, which
is checked field by field in a fixed order; what records hold inside is not
looked at.
-/

namespace NinjaFile

structure Manifest where
  schemaVersion : Value := .int 1
  digest : String
  requiredVersion : Option String := none
  buildDir : Option String := none
  header : Option String := none
  defaultTarget : Option String := none
  rules : List (List (Value × Value)) := []
  edges : List (List (Value × Value)) := []
  bindings : List (List (Value × Value)) := []
  deriving BEq, Repr

namespace Manifest

def schema : Nat := 1

/-- The manifest of a document, if its text can be written. -/
def ofDocument (d : Document) : Except Fault Manifest := do
  let digest ← d.digest
  return {
    digest
    requiredVersion := d.version
    buildDir := d.buildDir
    header := d.header
    defaultTarget := d.defaultTarget
    rules := d.rules.map fun r => Value.named r.fields
    edges := d.edges.map fun e => Value.named e.fields
    bindings := d.bindings.map fun b => Value.named b.fields }

/-! ## As a value -/

def records (entries : List (List (Value × Value))) : Value :=
  .array (entries.map .map)

/-- The fields of a manifest; texts that are unset are left out. -/
def fields (m : Manifest) : List (String × Value) :=
  [("schema_version", m.schemaVersion), ("digest", .text m.digest), ("rules", records m.rules),
    ("edges", records m.edges), ("bindings", records m.bindings)] ++
    Value.optionalField "required_version" (m.requiredVersion.map .text) ++
    Value.optionalField "build_dir" (m.buildDir.map .text) ++
    Value.optionalField "header" (m.header.map .text) ++
    Value.optionalField "default" (m.defaultTarget.map .text)

def toValue (m : Manifest) : Value :=
  .record m.fields

/-! ## From a value -/

inductive Defect where
  | notMapping
  | schemaVersion (shown : String)
  | field (name : String)
  | notJson (hint : String)
  | notCbor (hint : String)
  deriving DecidableEq, Repr

def Defect.diagnostic : Defect → Diagnostic
  | .notMapping => { code := .manifest, message := "Invalid manifest payload type." }
  | .schemaVersion shown =>
    { code := .manifest
      message := "Unsupported manifest schema version."
      hint := some s!"Regenerate the manifest with schema version {schema}."
      context := [("schema_version", shown)] }
  | .field name =>
    { code := .manifest, message := "Invalid manifest " ++ "`" ++ name ++ "`" ++ " value." }
  | .notJson hint =>
    { code := .manifest, message := "Invalid manifest JSON.", hint := some hint }
  | .notCbor hint =>
    { code := .manifest, message := "Invalid manifest CBOR.", hint := some hint }

def refuse {α : Type} (defect : Defect) : Except Fault α :=
  .error (.diagnostic defect.diagnostic)

/-- The digest, a text that is not empty. -/
def digestField (entries : List (Value × Value)) : Except Fault String :=
  match Value.field? "digest" entries with
  | some (.text s) => if s = "" then refuse (.field "digest") else .ok s
  | _ => refuse (.field "digest")

/-- A text that may be left out or null. -/
def textField (name : String) (entries : List (Value × Value)) :
    Except Fault (Option String) :=
  match Value.field? name entries with
  | none => .ok none
  | some .null => .ok none
  | some (.text s) => .ok (some s)
  | some _ => refuse (.field name)

/-- The records in a list, if it holds nothing else. -/
def asRecords? : List Value → Option (List (List (Value × Value)))
  | [] => some []
  | .map entries :: rest => (asRecords? rest).map (entries :: ·)
  | _ :: _ => none

def recordsField (name : String) (entries : List (Value × Value)) :
    Except Fault (List (List (Value × Value))) :=
  match Value.field? name entries with
  | none => .ok []
  | some (.array items) =>
    match asRecords? items with
    | some found => .ok found
    | none => refuse (.field name)
  | some _ => refuse (.field name)

/-- The manifest whose fields a map has. The schema version counts as a number and is kept as it was
given; fields of other names do not matter. -/
def ofEntries (entries : List (Value × Value)) : Except Fault Manifest := do
  let schemaVersion := (Value.field? "schema_version" entries).getD .null
  if schemaVersion.agrees (.int schema) then
    let digest ← digestField entries
    let requiredVersion ← textField "required_version" entries
    let buildDir ← textField "build_dir" entries
    let header ← textField "header" entries
    let defaultTarget ← textField "default" entries
    let rules ← recordsField "rules" entries
    let edges ← recordsField "edges" entries
    let bindings ← recordsField "bindings" entries
    return { schemaVersion, digest, requiredVersion, buildDir, header, defaultTarget, rules, edges,
             bindings }
  else
    let shown ← Fault.ofOverlong schemaVersion.display
    refuse (.schemaVersion shown)

def ofValue : Value → Except Fault Manifest
  | .map entries => ofEntries entries
  | _ => refuse .notMapping

/-! ## Agreement -/

def recordsAgree (a b : List (List (Value × Value))) : Bool :=
  (records a).agrees (records b)

def agrees (m n : Manifest) : Bool :=
  m.schemaVersion.agrees n.schemaVersion && m.digest == n.digest &&
    m.requiredVersion == n.requiredVersion && m.buildDir == n.buildDir && m.header == n.header &&
    m.defaultTarget == n.defaultTarget && recordsAgree m.rules n.rules &&
    recordsAgree m.edges n.edges && recordsAgree m.bindings n.bindings

end Manifest

end NinjaFile
