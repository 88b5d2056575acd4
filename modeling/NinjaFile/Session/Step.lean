import NinjaFile.Manifest.Exchange
import NinjaFile.Sample

/-!
# Steps of a session

A session goes on by steps, each of which is answered. A step that fails is
answered by its fault, and the session goes on with the next one from the state
that the failed step left. Besides the session itself the run keeps one sink, to
which the document can be streamed, and the manifests taken so far.
-/

namespace NinjaFile

structure Run where
  session : Session := {}
  sink : Sink := {}
  kept : List Manifest := []
  deriving Repr

inductive Step where
  | edit (change : Document.Edit)
  | onlyIfChanged (flag : Bool)
  | counts
  | render
  | digest
  | stream
  | takeManifest
  | showManifest (index : Nat)
  | exportJson (index : Nat) (path : Path)
  | exportCbor (index : Nat) (path : Path)
  | save (path : Path) (onlyIfChanged : Option Bool) (callback : Option Callback)
  | log (record : Record)
  | records
  | recordsFor (operation : String)
  | writeLines (path : Path)
  | placeFile (path : Path) (text : String)
  | makeDirectory (path : Path)
  | showFile (path : Path)
  | listing
  | generate (path : Path)

structure ManifestView where
  json : Except Fault String
  cbor : List UInt8
  survivesJson : Except Fault Bool
  survivesCbor : Except Fault Bool
  deriving Repr

def Manifest.view (m : Manifest) : ManifestView :=
  ⟨m.toJson, m.toCbor, m.survivesJson, m.survivesCbor⟩

inductive Answer where
  | done
  | counts (rules edges : Nat)
  | clause (view : ClauseView)
  | declared (rules edges : Nat) (view : ClauseView)
  | text (text : String)
  | digest (digest : String)
  | manifest (view : ManifestView)
  | exportedText (text : String) (same : Bool)
  | exportedOctets (octets : List UInt8) (same : Bool)
  | saved (path : Path) (opened : Bool) (seen : List String) (text : String)
  | saveFailed (fault : Fault) (seen : List String)
  | records (text : String)
  | written (path : Path) (text : String)
  | files (names : List String)
  | failed (fault : Fault)
  deriving Repr

namespace Answer

def of {α : Type} (answer : α → Answer) : Except Fault α → Answer
  | .ok a => answer a
  | .error fault => .failed fault

end Answer

def Storage.text (s : Storage) (p : Path) : Except Fault String := do
  let octets ← Fault.ofStorage (s.read p)
  match Octets.toText? octets with
  | some text => return text
  | none => .error (.notText (octets.headD 0))

namespace Run

/-! ## Answers -/

/-- The answer to a change that was made: the clause that it is about, as it now is. -/
def editAnswer (s : Session) : Document.Edit → Answer
  | .header _ => .done
  | .version _ => .done
  | .buildDir _ => .done
  | .defaultTarget _ => .done
  | .bind name value => Answer.of .clause (Binding.view ⟨name, value⟩)
  | .rule name => Answer.of (.declared s.ruleCount s.edgeCount) (Rule.view { name })
  | .edge targets =>
    Answer.of (.declared s.ruleCount s.edgeCount) (Edge.view { targets := targets.toList })
  | .editRule index _ =>
    match s.document.rules[index]? with
    | none => .failed .noSuchEntry
    | some r => Answer.of .clause r.view
  | .editEdge index _ =>
    match s.document.edges[index]? with
    | none => .failed .noSuchEntry
    | some e => Answer.of .clause e.view

def seenTexts (p : Path) (calls : List Moment) : List String :=
  calls.filterMap fun moment =>
    match moment.storage.text p with
    | .ok text => some text
    | .error _ => none

def saveAnswer (p : Path) (s : Session) (report : SaveReport) : Answer :=
  let seen := seenTexts p report.calls
  match report.result with
  | .error fault => .saveFailed fault seen
  | .ok () => Answer.of (.saved p report.opened seen) (s.storage.text p)

/-! ## Steps -/

def withStorage (r : Run) (storage : Storage) : Run :=
  { r with session := { r.session with storage } }

def step (r : Run) : Step → Run × Answer
  | .edit change =>
    match r.session.document.edit change with
    | .error fault => (r, .failed fault)
    | .ok document =>
      let session := { r.session with
        document
        ruleCount := r.session.ruleCount + change.newRules
        edgeCount := r.session.edgeCount + change.newEdges }
      ({ r with session }, editAnswer session change)
  | .onlyIfChanged flag => ({ r with session := { r.session with onlyIfChanged := flag } }, .done)
  | .counts => (r, .counts r.session.ruleCount r.session.edgeCount)
  | .render => (r, Answer.of .text r.session.document.render)
  | .digest => (r, Answer.of .digest r.session.document.digest)
  | .stream =>
    let sink := r.sink.writeAll (Piece.written r.session.document.pieces)
    ({ r with sink }, Answer.of (fun _ => .text sink.text) r.session.document.render)
  | .takeManifest =>
    match Manifest.ofDocument r.session.document with
    | .error fault => (r, .failed fault)
    | .ok m => ({ r with kept := r.kept ++ [m] }, .manifest m.view)
  | .showManifest index =>
    match r.kept[index]? with
    | none => (r, .failed .noSuchEntry)
    | some m => (r, .manifest m.view)
  | .exportJson index path =>
    match r.kept[index]? with
    | none => (r, .failed .noSuchEntry)
    | some m =>
      match m.writeJson r.session.storage path with
      | .error fault => (r, .failed fault)
      | .ok (storage, text) =>
        let same := (storage.read path).toOption == some (Octets.ofText text)
        (r.withStorage storage, .exportedText text same)
  | .exportCbor index path =>
    match r.kept[index]? with
    | none => (r, .failed .noSuchEntry)
    | some m =>
      match m.writeCbor r.session.storage path with
      | .error fault => (r, .failed fault)
      | .ok (storage, octets) =>
        let same := (storage.read path).toOption == some octets
        (r.withStorage storage, .exportedOctets octets same)
  | .save path onlyIfChanged callback =>
    let (session, report) := r.session.save path onlyIfChanged callback
    ({ r with session }, saveAnswer path session report)
  | .log record =>
    let journal := r.session.journal.log record
    ({ r with session := { r.session with journal } },
      Answer.of .records (Journal.recordsText journal.records))
  | .records => (r, Answer.of .records (Journal.recordsText r.session.journal.records))
  | .recordsFor operation =>
    (r, Answer.of .records (Journal.recordsText (r.session.journal.recordsFor operation)))
  | .writeLines path =>
    let (storage, result) := r.session.journal.writeLines r.session.storage path
    (r.withStorage storage, Answer.of (.written path) result)
  | .placeFile path text =>
    match r.session.storage.write path (Octets.ofText text) with
    | .error refusal => (r, .failed (.storage refusal))
    | .ok storage => (r.withStorage storage, .done)
  | .makeDirectory path =>
    let (storage, result) := r.session.storage.makeDirectories path
    (r.withStorage storage, Answer.of (fun _ => .done) (Fault.ofStorage result))
  | .showFile path => (r, Answer.of .text (r.session.storage.text path))
  | .listing => (r, .files r.session.storage.listing)
  | .generate path =>
    let (storage, result) := Sample.generate r.session.storage path
    let r := r.withStorage storage
    (r, match result with
      | .error fault => .failed fault
      | .ok () => Answer.of (.written path) (storage.text path))

def steps (r : Run) : List Step → Run × List Answer
  | [] => (r, [])
  | s :: rest =>
    let (next, answer) := r.step s
    let (last, answers) := next.steps rest
    (last, answer :: answers)

end Run

end NinjaFile
