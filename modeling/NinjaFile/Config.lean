import NinjaFile.Document

/-!
# Configuration

A configuration is given as a table: texts for the preamble of a document and
the flag that keeps unchanged files. Unknown keys are refused before any value
is looked at, and then the first bad value in a fixed order, so the answer does
not depend on the order of the table.
-/

namespace NinjaFile

structure Config where
  requiredVersion : Option String := none
  buildDir : Option String := none
  header : Option String := none
  defaultTarget : Option String := none
  onlyIfChanged : Bool := false
  deriving DecidableEq, Repr

namespace Config

/-- The keys that a table may have, in order of code points. -/
def knownKeys : List String :=
  ["build_dir", "default", "header", "only_if_changed", "required_version"]

inductive Defect where
  | notMapping
  | unknownKeys (keys : List String)
  | value (key : String)
  deriving DecidableEq, Repr

def Defect.diagnostic : Defect → Diagnostic
  | .notMapping => { code := .config, message := "Generator config must be a mapping." }
  | .unknownKeys keys =>
    { code := .config
      message := "Unknown generator config keys."
      hint := some ("Supported keys: " ++ ", ".intercalate knownKeys ++ ".")
      context := [("keys", ", ".intercalate keys)] }
  | .value key =>
    { code := .config
      message := "Invalid generator config " ++ "`" ++ key ++ "`" ++ " value."
      context := [("key", key)] }

/-- The names of the keys that no configuration has, in order of code points. -/
def unknownKeys (members : List (String × Json)) : List String :=
  ((members.map (·.1)).filter fun key => !knownKeys.contains key).mergeSort
    fun a b => !decide (b < a)

def member? (key : String) (members : List (String × Json)) : Option Json :=
  Entries.find? (· == ·) key members

/-- A text that may be left out or null, but not empty. -/
def text? (key : String) (members : List (String × Json)) : Except Defect (Option String) :=
  match member? key members with
  | none => .ok none
  | some .null => .ok none
  | some (.text s) => if s = "" then .error (.value key) else .ok (some s)
  | some _ => .error (.value key)

/-- A truth value that may be left out, but not null. -/
def flag (key : String) (members : List (String × Json)) : Except Defect Bool :=
  match member? key members with
  | none => .ok false
  | some (.bool b) => .ok b
  | some _ => .error (.value key)

def ofMembers (members : List (String × Json)) : Except Defect Config := do
  match unknownKeys members with
  | [] =>
    let requiredVersion ← text? "required_version" members
    let buildDir ← text? "build_dir" members
    let header ← text? "header" members
    let defaultTarget ← text? "default" members
    let onlyIfChanged ← flag "only_if_changed" members
    return { requiredVersion, buildDir, header, defaultTarget, onlyIfChanged }
  | keys => .error (.unknownKeys keys)

def ofJson : Json → Except Defect Config
  | .object members => ofMembers members
  | _ => .error .notMapping

def fields (c : Config) : List (String × Value) :=
  [("required_version", .ofText? c.requiredVersion), ("build_dir", .ofText? c.buildDir),
    ("header", .ofText? c.header), ("default", .ofText? c.defaultTarget),
    ("only_if_changed", .bool c.onlyIfChanged)]

/-- The empty document with the preamble of a configuration. -/
def document (c : Config) : Document where
  header := c.header
  version := c.requiredVersion
  buildDir := c.buildDir
  defaultTarget := c.defaultTarget

end Config

end NinjaFile
