import NinjaFile.Fault
import NinjaFile.Text.Octets

/-!
# Journals

A journal keeps a record of each event in order. It is exported with one line a
record: a line holds the JSON text of the record with sorted keys, in which no
line break can occur.
-/

namespace NinjaFile

structure Record where
  level : String := "info"
  operation : String
  path : Option String
  message : String
  extra : Option Value := none
  deriving BEq, Repr

def Record.fields (r : Record) : List (String × Value) :=
  [("level", .text r.level), ("operation", .text r.operation), ("path", .ofText? r.path),
    ("message", .text r.message)] ++ Value.optionalField "extra" r.extra

structure Journal where
  records : List Record := []
  deriving BEq, Repr

namespace Journal

def log (j : Journal) (r : Record) : Journal :=
  ⟨j.records ++ [r]⟩

def recordsFor (j : Journal) (operation : String) : List Record :=
  j.records.filter fun r => r.operation == operation

def recordsText (records : List Record) : Except Fault String :=
  Fault.ofUnwritable
    ((Value.array (records.map fun r => .record r.fields)).jsonText .inline false)

/-- The line of a record, without its end. -/
def line (r : Record) : Except Fault String :=
  Fault.ofUnwritable ((Value.record r.fields).jsonText .inline true)

/-- The exported text: the lines with breaks between them and one behind the last. -/
def lines (j : Journal) : Except Fault String := do
  let lines ← j.records.mapM line
  return "\n".intercalate lines ++ "\n"

/-- The export as a file, with the directories that lead to it. They are made first and stay even if
the file cannot be written. -/
def writeLines (j : Journal) (s : Storage) (p : Path) : Storage × Except Fault String :=
  match s.makeDirectories p.parent with
  | (s, .error refusal) => (s, .error (.storage refusal))
  | (s, .ok ()) =>
    match j.lines with
    | .error fault => (s, .error fault)
    | .ok text =>
      match s.write p (Octets.ofText text) with
      | .error refusal => (s, .error (.storage refusal))
      | .ok s => (s, .ok text)

end Journal

end NinjaFile
