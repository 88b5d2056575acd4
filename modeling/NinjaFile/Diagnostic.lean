import NinjaFile.Value.Basic

/-!
# Diagnostics

A diagnostic is an error that the library itself reports: a stable code for
programs, a message for readers, and where they help a hint and a context of
named texts. Its text shows the message first, then the hint and the context on
lines of their own, leaving out what is empty.
-/

namespace NinjaFile

inductive Code where
  | validation
  | config
  | manifest
  deriving DecidableEq, Repr

namespace Code

def word : Code → String
  | .validation => "E_VALIDATION"
  | .config => "E_CONFIG"
  | .manifest => "E_MANIFEST"

def all : List Code := [.validation, .config, .manifest]

def ofWord? (word : String) : Option Code :=
  all.find? fun code => code.word == word

end Code

structure Diagnostic where
  code : Code
  message : String
  hint : Option String := none
  context : List (String × String) := []
  deriving DecidableEq, Repr

namespace Diagnostic

/-- The line of a hint; an empty hint has none. -/
def hintLines : Option String → List String
  | none => []
  | some hint => if hint = "" then [] else ["Hint: " ++ hint]

/-- The lines of a context, one for each text that is not empty. -/
def contextLines (context : List (String × String)) : List String :=
  (context.filter fun entry => entry.2 != "").map fun entry => "  " ++ entry.1 ++ ": " ++ entry.2

def text (d : Diagnostic) : String :=
  "\n".intercalate (d.message :: hintLines d.hint ++ contextLines d.context)

/-- A diagnostic as a record: its message is the full text, and its context is whole. -/
def toValue (d : Diagnostic) : Value :=
  .record <|
    [("code", .text d.code.word), ("message", .text d.text),
      ("context", .record (d.context.map fun entry => (entry.1, .text entry.2)))] ++
    Value.optionalField "hint" (d.hint.map .text)

end Diagnostic

end NinjaFile
