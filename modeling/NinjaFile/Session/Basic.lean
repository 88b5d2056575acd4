import NinjaFile.Config
import NinjaFile.Journal

/-!
# Sessions

A session is a document on its way to files: the declarations made so far, the
storage that they are saved to, and the journal of the saves.

A save opens its file before it writes the first piece, so a document that
cannot be written whole leaves the pieces in front of the fault. With the flag
for unchanged files a save first compares: a file that holds the same octets is
neither opened nor written. Either way one record goes to the journal, and then
the callback runs.
-/

namespace NinjaFile

/-- A document with what surrounds it. The rules and edges are counted as they are declared. -/
structure Session where
  document : Document := {}
  ruleCount : Nat := 0
  edgeCount : Nat := 0
  onlyIfChanged : Bool := false
  journal : Journal := {}
  storage : Storage := {}
  deriving Repr

/-- What is run at the end of a save: it may look at the files, and it may give up. -/
abbrev Callback := Storage → Except Fault Unit

structure Moment where
  storage : Storage
  journal : Journal
  deriving Repr

structure SaveReport where
  /-- Did it end without a fault? -/
  result : Except Fault Unit
  /-- Was the file opened for writing? -/
  opened : Bool
  /-- The moments at which the callback ran. -/
  calls : List Moment
  deriving Repr

namespace Session

/-- The session that a configuration starts, with a journal that may hold records already. -/
def ofConfig (c : Config) (journal : Journal) : Session where
  document := c.document
  onlyIfChanged := c.onlyIfChanged
  journal := journal

/-! ## Saving -/

def octets (d : Document) : Except Fault (List UInt8) :=
  d.render.map Octets.ofText

/-- The octets that reach a file before writing ends or stops. -/
def writtenOctets (d : Document) : List UInt8 :=
  Octets.ofText (String.join (Piece.written d.pieces))

def upToDate (s : Session) (p : Path) : Except Fault Bool :=
  match s.storage.file? p with
  | .error refusal => .error (.storage refusal)
  | .ok none => .ok false
  | .ok (some found) => do
    let wanted ← octets s.document
    return found == wanted

def savedRecord (s : Session) (p : Path) : Record where
  operation := "save"
  path := some p.toString
  message := "Wrote Ninja file."
  extra := some (.record [("rules", .int s.ruleCount), ("edges", .int s.edgeCount)])

def skippedRecord (p : Path) : Record where
  operation := "save_skipped"
  path := some p.toString
  message := "Existing file is up to date."

/-- The end of a save: the callback, on a session that already has the record. -/
def finish (s : Session) (opened : Bool) : Option Callback → Session × SaveReport
  | none => (s, ⟨.ok (), opened, []⟩)
  | some callback => (s, ⟨callback s.storage, opened, [⟨s.storage, s.journal⟩]⟩)

def persist (s : Session) (p : Path) (callback : Option Callback) : Session × SaveReport :=
  match s.storage.write p (writtenOctets s.document) with
  | .error refusal => (s, ⟨.error (.storage refusal), false, []⟩)
  | .ok storage =>
    match s.document.render with
    | .error fault => ({ s with storage }, ⟨.error fault, true, []⟩)
    | .ok _ =>
      finish { s with storage, journal := s.journal.log (savedRecord s p) } true callback

/-- A save. The flag for unchanged files is the session's own unless one is given. -/
def save (s : Session) (p : Path) (onlyIfChanged : Option Bool) (callback : Option Callback) :
    Session × SaveReport :=
  if onlyIfChanged.getD s.onlyIfChanged then
    match s.upToDate p with
    | .error fault => (s, ⟨.error fault, false, []⟩)
    | .ok true => finish { s with journal := s.journal.log (skippedRecord p) } false callback
    | .ok false => s.persist p callback
  else s.persist p callback

end Session

end NinjaFile
