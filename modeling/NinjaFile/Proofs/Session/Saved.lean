import NinjaFile.Proofs.Reachable
import NinjaFile.Proofs.Session.Saves

/-!
# What a save leaves behind

A save can end by leaving its file alone or by writing it, and either way it comes to
the same session but for the words of one record: the file holds the text, the journal
has one record more, and then the callback runs (`Session.save_of_writable`). The text
is the one that streaming appends to a sink, and the one that the digest is of.

So a save whose file can be opened does what it is for, whatever the flag is and
whether its callback gives up or not (`Run.saved_of_writable`).
-/

namespace NinjaFile

/-! ## Texts -/

/-- What streaming appends to a sink is the text, whatever the sink holds already. -/
theorem Sink.text_writeAll_pieces {d : Document} {text : String} (h : d.render = .ok text)
    (sink : Sink) : (sink.writeAll (Piece.written d.pieces)).text = sink.text ++ text := by
  rw [text_writeAll, Piece.written_of_join (Fault.ofOverlong_eq_ok.1 h)]

theorem Document.digest_of_render {d : Document} {text : String} (h : d.render = .ok text) :
    d.digest = .ok (Sha256.hex (Octets.ofText text)) := by
  rw [digest, h]
  rfl

theorem Manifest.exists_digest {d : Document} {digest : String} (h : d.digest = .ok digest) :
    ∃ m, ofDocument d = .ok m ∧ m.digest = digest := by
  rw [ofDocument, h]
  exact ⟨_, rfl, rfl⟩

/-! ## One save -/

namespace Session

variable {s : Session} {p : Path} {text : String} {location : Location}

def recordOf (s : Session) (p : Path) (opened : Bool) : Record :=
  if opened then
    { level := "info"
      operation := "save"
      path := some p.toString
      message := "Wrote Ninja file."
      extra := some (.record [("rules", .int s.ruleCount), ("edges", .int s.edgeCount)]) }
  else
    { level := "info"
      operation := "save_skipped"
      path := some p.toString
      message := "Existing file is up to date."
      extra := none }

/-- A session whose file at a location holds some octets, with one more record. -/
def filed (s : Session) (location : Location) (octets : List UInt8) (record : Record) : Session :=
  { s with
    storage := s.storage.put location (.file octets)
    journal := s.journal.log record }

theorem file_filed (hOpen : s.storage.writable p = .ok location) (octets : List UInt8)
    (record : Record) :
    (s.filed location octets record).storage.resolve p = .ok location ∧
      (s.filed location octets record).storage.node? location = some (.file octets) := by
  obtain ⟨hResolve, hNode⟩ := Storage.writable_eq_ok.1 hOpen
  exact ⟨Storage.resolve_put s.storage octets hNode hResolve,
    Storage.node?_put_self s.storage (.file octets) (Storage.all_eq_false_of_node? hNode)⟩

/-- **A save whose file can be opened** comes to a session in which the file holds the text, whether
it was opened or not. -/
theorem save_of_writable (hText : s.document.render = .ok text)
    (hOpen : s.storage.writable p = .ok location) (flag : Option Bool)
    (callback : Option Callback) :
    ∃ opened, s.save p flag callback =
      (s.filed location (Octets.ofText text) (s.recordOf p opened)).finish opened callback := by
  have hWritten := Storage.write_of_writable hOpen (Octets.ofText text)
  rcases save_cases hText p flag callback with
    ⟨refusal, hWrite, -⟩ | ⟨-, hRead, hSave⟩ | ⟨storage, hWrite, -, hSave⟩
  · cases hWritten.symm.trans hWrite
  · -- the file that was left alone holds what would have been written
    have hSame := hWritten.symm.trans (Storage.write_eq_self hRead)
    refine ⟨false, ?_⟩
    rw [hSave, skipped, filed, Except.ok.inj hSame]
    rfl
  · cases hWritten.symm.trans hWrite
    exact ⟨true, hSave⟩

end Session

/-! ## Runs -/

namespace Run

/-- What a save that is reported and answered leaves of a run, if its file is at a location and its
document has a text. -/
structure Saved (before after : Run) (p : Path) (location : Location) (text : String)
    (callback : Option Callback) (report : SaveReport) (answer : Answer) : Prop where
  /-- The path leads to the file. -/
  resolves : after.session.storage.resolve p = .ok location
  /-- The file holds the text and nothing else. -/
  file : after.session.storage.node? location = some (.file (Octets.ofText text))
  /-- Every other file and directory is as it was. -/
  others : ∀ other, other ≠ location →
    after.session.storage.node? other = before.session.storage.node? other
  /-- The journal has one more record, by whether the file was opened. -/
  journal : after.session.journal =
    before.session.journal.log (before.session.recordOf p report.opened)
  /-- The declarations are as they were, and so is all else. -/
  rest : after = { before with session :=
    { before.session with
      storage := after.session.storage
      journal := after.session.journal } }
  /-- The callback is called once if there is one, with the files and the journal as they stay. -/
  calls : report.calls = callback.toList.map fun _ =>
    ⟨after.session.storage, after.session.journal⟩
  /-- Without a callback nothing fails. -/
  quiet : callback = none → report.result = .ok ()
  /-- With one the save ends as it does. -/
  called : ∀ c ∈ callback, report.result = c after.session.storage
  /-- A save that does not fail is answered by its path, with the text as the callback saw it and as
  it is found afterwards. -/
  answered : report.result = .ok () →
    answer = .saved p report.opened (callback.toList.map fun _ => text) text
  /-- One that fails is answered by the fault of its callback, which saw the text. -/
  failed : ∀ fault, report.result = .error fault →
    answer = .saveFailed fault (callback.toList.map fun _ => text)

theorem seenTexts_calls {s : Session} {p : Path} {text : String} (h : s.storage.text p = .ok text)
    (callback : Option Callback) :
    seenTexts p (callback.toList.map fun _ => ⟨s.storage, s.journal⟩) =
      callback.toList.map fun _ => text := by
  cases callback with
  | none => rfl
  | some c =>
      simp only [seenTexts, Option.toList_some, List.map_cons, List.map_nil, List.filterMap_cons, h,
        List.filterMap_nil]

/-- **One step.** -/
theorem saved_step {r : Run} {p : Path} {text : String} {location : Location}
    (hText : r.session.document.render = .ok text)
    (hOpen : r.session.storage.writable p = .ok location) (flag : Option Bool)
    (callback : Option Callback) :
    Saved r (r.step (.save p flag callback)).1 p location text callback
      (r.session.save p flag callback).2 (r.step (.save p flag callback)).2 := by
  obtain ⟨opened, hSave⟩ := Session.save_of_writable hText hOpen flag callback
  obtain ⟨hResolves, hFile⟩ :=
    Session.file_filed hOpen (Octets.ofText text) (r.session.recordOf p opened)
  generalize hFiled : r.session.filed location (Octets.ofText text)
    (r.session.recordOf p opened) = filed at hSave hResolves hFile
  have hShown : filed.storage.text p = .ok text :=
    Storage.text_of_read (Storage.read_eq_ok.2 ⟨location, hResolves, hFile⟩)
  have hSeen : seenTexts p (filed.finish opened callback).2.calls =
      callback.toList.map fun _ => text := by
    rw [Session.calls_finish, seenTexts_calls hShown]
  have hStep : r.step (.save p flag callback) = ({ r with session := filed },
      saveAnswer p filed (filed.finish opened callback).2) := by
    simp only [step, hSave, Session.fst_finish]
  rw [hStep, hSave]
  constructor
  case resolves => exact hResolves
  case file => exact hFile
  case others =>
    subst hFiled
    exact fun other h => Storage.node?_put_of_ne _ _ h
  case journal =>
    subst hFiled
    rw [Session.opened_finish]
    rfl
  case rest =>
    subst hFiled
    rfl
  case calls => exact Session.calls_finish _ _ _
  case quiet =>
    rintro rfl
    rfl
  case called =>
    rintro c rfl
    rfl
  case answered =>
    intro hResult
    simp only [saveAnswer, hSeen, hResult, hShown, Answer.of]
  case failed =>
    intro fault hResult
    simp only [saveAnswer, hSeen, hResult]

/-- **A save whose file can be opened does what it is for.** Let the document have a text. Then the
file holds it, nothing else in the storage has changed, the declarations have not, the journal has
one more record, and the callback ran once and saw all this; if it gave up, that is the only fault.
The text is the one that streaming appends to any sink, and its digest is the one that is answered
and the one in a manifest. -/
theorem saved_of_writable {r : Run} {p : Path} {text : String} {location : Location}
    (hText : r.session.document.render = .ok text)
    (hOpen : r.session.storage.writable p = .ok location) (flag : Option Bool)
    (callback : Option Callback) :
    let after := (r.step (.save p flag callback)).1
    let report := (r.session.save p flag callback).2
    let answer := (r.step (.save p flag callback)).2
    Saved r after p location text callback report answer ∧
      (∀ sink, (({ r with sink } : Run).step .stream).1.sink.text = sink.text ++ text ∧
        (({ r with sink } : Run).step .stream).2 = .text (sink.text ++ text)) ∧
      (after.step .digest).2 = .digest (Sha256.hex (Octets.ofText text)) ∧
      ∃ m, Manifest.ofDocument after.session.document = .ok m ∧
        m.digest = Sha256.hex (Octets.ofText text) := by
  intro after report answer
  have hDocument : after.session.document = r.session.document :=
    document_save r.session p flag callback
  have hDigest : after.session.document.digest = .ok (Sha256.hex (Octets.ofText text)) := by
    rw [hDocument, Document.digest_of_render hText]
  refine ⟨saved_step hText hOpen flag callback, ?_, ?_, Manifest.exists_digest hDigest⟩
  · intro sink
    have hStream := Sink.text_writeAll_pieces hText sink
    refine ⟨hStream, ?_⟩
    rw [step]
    simp only [hText, hStream]
    rfl
  · rw [step, hDigest]
    rfl

def upToDate : Run where
  session := {
    document := { buildDir := some "out" }
    storage := ⟨[(["build.ninja"], .file (Octets.ofText "builddir=out\n"))]⟩ }

/-- Its file is left alone, and a callback that gives up has seen the file and the record. -/
theorem saved_of_writable_small :
    let report := (upToDate.session.save ⟨["build.ninja"]⟩ (some true)
      (some fun _ => .error .callbackFailed)).2
    report.opened = false ∧
      (upToDate.step (.save ⟨["build.ninja"]⟩ (some true)
        (some fun _ => .error .callbackFailed))).2 =
          .saveFailed .callbackFailed ["builddir=out\n"] ∧
      report.calls.map (fun moment => moment.journal.records.length) = [1] := by
  intro report
  have hText : upToDate.session.document.render = .ok "builddir=out\n" := rfl
  have hOpen : upToDate.session.storage.writable ⟨["build.ninja"]⟩ = .ok ["build.ninja"] := by
    decide +kernel
  obtain ⟨hSaved, -⟩ :=
    saved_of_writable hText hOpen (some true) (some fun _ => .error .callbackFailed)
  have hResult := hSaved.called _ rfl
  refine ⟨by decide +kernel, hSaved.failed _ hResult, ?_⟩
  rw [hSaved.calls, hSaved.journal]
  rfl

end Run

end NinjaFile
