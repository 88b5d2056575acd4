import NinjaFile.Proofs.Journal
import NinjaFile.Proofs.Storage.Files
import NinjaFile.Session.Step

/-!
# Exports as files

Manifests and journals are exported in one way (`filed`): the export is written out in
full, and only then its file is opened. A journal makes the directories that lead to its
file before that. So something hinders an export while it has touched no file yet, or all
of it comes into its file (`Export.ending_step`), and no file is damaged either way
(`Run.exported_or_untouched`).
-/

namespace NinjaFile

/-! ## Written out, then filed -/

section Filed

variable {α : Type} (x : Except Fault α) (octets : α → List UInt8) (s : Storage) (p : Path)

/-- An export that is written out first, and whose file is written then. -/
def filed : Except Fault (Storage × α) := do
  let a ← x
  let s ← Fault.ofStorage (s.write p (octets a))
  return (s, a)

/-- It cannot be written out, or its file cannot be opened, or its file holds it. -/
theorem filed_cases :
    (∃ fault, x = .error fault ∧ filed x octets s p = .error fault) ∨
    (∃ a refusal, x = .ok a ∧ s.writable p = .error refusal ∧
      filed x octets s p = .error (.storage refusal)) ∨
    ∃ a location, x = .ok a ∧ s.writable p = .ok location ∧
      filed x octets s p = .ok (s.put location (.file (octets a)), a) := by
  cases x with
  | error fault => exact Or.inl ⟨fault, rfl, rfl⟩
  | ok a =>
      right
      cases hOpen : s.writable p with
      | error refusal =>
          refine Or.inl ⟨a, refusal, rfl, rfl, ?_⟩
          show (Fault.ofStorage (s.write p (octets a)) >>= _) = _
          rw [Storage.write_of_refused hOpen]
          rfl
      | ok location =>
          refine Or.inr ⟨a, location, rfl, rfl, ?_⟩
          show (Fault.ofStorage (s.write p (octets a)) >>= _) = _
          rw [Storage.write_of_writable hOpen]
          rfl

end Filed

theorem Manifest.writeJson_eq (m : Manifest) (s : Storage) (p : Path) :
    m.writeJson s p = filed m.toJson Octets.ofText s p :=
  rfl

theorem Manifest.writeCbor_eq (m : Manifest) (s : Storage) (p : Path) :
    m.writeCbor s p = filed (.ok m.toCbor) id s p :=
  rfl

/-- A journal is filed as manifests are, once its directories are made. -/
theorem Journal.writeLines_of_ready {j : Journal} {s after : Storage} {p : Path}
    (h : s.makeDirectories p.parent = (after, .ok ())) :
    j.writeLines s p = match filed j.lines Octets.ofText after p with
      | .error fault => (after, .error fault)
      | .ok (last, text) => (last, .ok text) := by
  rw [writeLines, h, filed]
  cases j.lines with
  | error fault => rfl
  | ok text =>
      dsimp only [bind, Except.bind]
      cases after.write p (Octets.ofText text) with
      | error refusal => rfl
      | ok last => rfl

/-! ## Lines -/

/-- The JSON text of what was logged, on one line and with the names in order. -/
def Record.jsonLine (r : Record) : Except Fault String :=
  Fault.ofUnwritable ((Value.record
    ([("level", .text r.level), ("operation", .text r.operation), ("path", r.path.elim .null .text),
      ("message", .text r.message)] ++ r.extra.toList.map fun v => ("extra", v))).jsonText .inline
        true)

/-- The lines of records with a line break between each two and one behind the last. -/
def Record.joinedLines (records : List Record) : Except Fault String :=
  (records.mapM jsonLine).map fun lines => "\n".intercalate lines ++ "\n"

theorem Journal.line_eq_jsonLine (r : Record) : Journal.line r = r.jsonLine := by
  obtain ⟨level, operation, path, message, extra⟩ := r
  cases path <;> cases extra <;> rfl

theorem Journal.lines_eq_joinedLines (j : Journal) : j.lines = Record.joinedLines j.records := by
  have hLine : Journal.line = Record.jsonLine := funext line_eq_jsonLine
  rw [lines, Record.joinedLines, hLine]
  rfl

/-! ## Exports -/

/-- What is exported of a run: a manifest that was kept, in one of two forms, or the journal. -/
inductive Export where
  | json (index : Nat)
  | cbor (index : Nat)
  | lines
  deriving DecidableEq

namespace Export

def step (p : Path) : Export → Step
  | .json index => .exportJson index p
  | .cbor index => .exportCbor index p
  | .lines => .writeLines p

/-- The octets of an export, if it can be written out; of a journal those of its joined lines. -/
def octets (r : Run) : Export → Except Fault (List UInt8)
  | .json index =>
    match r.kept[index]? with
    | none => .error .noSuchEntry
    | some m => m.toJson.map Octets.ofText
  | .cbor index =>
    match r.kept[index]? with
    | none => .error .noSuchEntry
    | some m => .ok m.toCbor
  | .lines => (Record.joinedLines r.session.journal.records).map Octets.ofText

/-- What is made ready before an export is written out: for a journal the directories that lead to
its file. -/
def ready (s : Storage) (p : Path) : Export → Storage × Except Storage.Refusal Unit
  | .lines => s.makeDirectories p.parent
  | _ => (s, .ok ())

theorem grown_ready (s : Storage) (p : Path) (x : Export) : s.Grown (x.ready s p).1 := by
  cases x with
  | lines => exact Storage.grown_makeDirectories s p.parent
  | _ => exact Storage.Grown.refl s

end Export

/-- The octets of the text or of the bytes that an answer gives back. -/
def Answer.exported? : Answer → Option (List UInt8)
  | .exportedText exported true => some (Octets.ofText exported)
  | .exportedOctets exported true => some exported
  | .written _ exported => some (Octets.ofText exported)
  | _ => none

namespace Export

/-- What keeps an export from its file, and the fault that this is. -/
inductive Hindered (r : Run) (p : Path) (x : Export) : Fault → Prop where
  | unready {refusal : Storage.Refusal}
      (h : (x.ready r.session.storage p).2 = .error refusal) : Hindered r p x (.storage refusal)
  | unwritten {fault : Fault} (h : x.octets r = .error fault) : Hindered r p x fault
  | unopened {refusal : Storage.Refusal}
      (h : (x.ready r.session.storage p).1.writable p = .error refusal) :
      Hindered r p x (.storage refusal)

theorem same_of_put {s : Storage} {p : Path} {location : Location}
    (h : s.writable p = .ok location) (octets : List UInt8) :
    (((s.put location (.file octets)).read p).toOption == some octets) = true := by
  rw [Storage.read_of_write (Storage.write_of_writable h octets)]
  exact beq_self_eq_true _

/-- What an export comes to: something hinders it, and then the run is as it was but for what was
made ready; or it is put into its file and given back. -/
inductive Ending (r : Run) (p : Path) (x : Export) : Run × Answer → Prop where
  | hindered {fault : Fault} (h : x.Hindered r p fault) :
      Ending r p x (r.withStorage (x.ready r.session.storage p).1, .failed fault)
  | filed {octets : List UInt8} {location : Location} {answer : Answer}
      (hOctets : x.octets r = .ok octets)
      (hOpen : (x.ready r.session.storage p).1.writable p = .ok location)
      (hAnswer : answer.exported? = some octets) :
      Ending r p x
        (r.withStorage ((x.ready r.session.storage p).1.put location (.file octets)), answer)

theorem ending_json (r : Run) (p : Path) (index : Nat) :
    (json index).Ending r p (r.step (.exportJson index p)) := by
  rw [Run.step]
  cases hKept : r.kept[index]? with
  | none =>
      refine Ending.hindered (Hindered.unwritten ?_)
      rw [octets, hKept]
  | some m =>
      have hOctets : (json index).octets r = m.toJson.map Octets.ofText := by rw [octets, hKept]
      dsimp only
      rw [Manifest.writeJson_eq]
      rcases filed_cases m.toJson Octets.ofText r.session.storage p with
        ⟨fault, hText, hFiled⟩ | ⟨text, refusal, -, hOpen, hFiled⟩ |
        ⟨text, location, hText, hOpen, hFiled⟩
      · rw [hFiled]
        rw [hText] at hOctets
        exact Ending.hindered (Hindered.unwritten hOctets)
      · rw [hFiled]
        exact Ending.hindered (Hindered.unopened hOpen)
      · rw [hText] at hOctets
        rw [hFiled]
        refine Ending.filed hOctets hOpen ?_
        rw [same_of_put hOpen]
        rfl

theorem ending_cbor (r : Run) (p : Path) (index : Nat) :
    (cbor index).Ending r p (r.step (.exportCbor index p)) := by
  rw [Run.step]
  cases hKept : r.kept[index]? with
  | none =>
      refine Ending.hindered (Hindered.unwritten ?_)
      rw [octets, hKept]
  | some m =>
      have hOctets : (cbor index).octets r = .ok m.toCbor := by rw [octets, hKept]
      dsimp only
      rw [Manifest.writeCbor_eq]
      rcases filed_cases (.ok m.toCbor) id r.session.storage p with
        ⟨fault, hText, -⟩ | ⟨found, refusal, -, hOpen, hFiled⟩ |
        ⟨found, location, hText, hOpen, hFiled⟩
      · cases hText
      · rw [hFiled]
        exact Ending.hindered (Hindered.unopened hOpen)
      · cases hText
        rw [hFiled]
        refine Ending.filed hOctets hOpen ?_
        rw [id, same_of_put hOpen]
        rfl

theorem ending_lines (r : Run) (p : Path) : lines.Ending r p (r.step (.writeLines p)) := by
  rw [Run.step]
  rcases hMade : r.session.storage.makeDirectories p.parent with ⟨s, refusal | _⟩
  · -- a journal whose directories are refused stops before its records are looked at
    obtain rfl : (lines.ready r.session.storage p).1 = s := by rw [ready, hMade]
    rw [Journal.writeLines, hMade]
    exact Ending.hindered (Hindered.unready (by rw [ready, hMade]))
  · obtain rfl : (lines.ready r.session.storage p).1 = s := by rw [ready, hMade]
    have hOctets : lines.octets r = r.session.journal.lines.map Octets.ofText := by
      rw [Journal.lines_eq_joinedLines]
      rfl
    rw [Journal.writeLines_of_ready hMade]
    rcases filed_cases r.session.journal.lines Octets.ofText (lines.ready r.session.storage p).1 p
      with ⟨fault, hText, hFiled⟩ | ⟨text, refusal, -, hOpen, hFiled⟩ |
      ⟨text, location, hText, hOpen, hFiled⟩
    · rw [hText] at hOctets
      rw [hFiled]
      exact Ending.hindered (Hindered.unwritten hOctets)
    · rw [hFiled]
      exact Ending.hindered (Hindered.unopened hOpen)
    · rw [hText] at hOctets
      rw [hFiled]
      exact Ending.filed hOctets hOpen rfl

/-- **What an export comes to**, whatever is exported. -/
theorem ending_step (r : Run) (p : Path) (x : Export) : x.Ending r p (r.step (x.step p)) := by
  cases x with
  | json index => exact ending_json r p index
  | cbor index => exact ending_cbor r p index
  | lines => exact ending_lines r p

end Export

/-! ## Failed or finished -/

/-- **Exports damage no file.** An export that fails does so for something that hindered it, and
leaves every file as it was and creates none: for a manifest the run is just as it was, and for a
journal there may be directories that are new. One that does not fail leaves its octets, all of
them, in the file at its path and gives them back, and no other file is changed or created. -/
theorem Run.exported_or_untouched (r : Run) (p : Path) (x : Export) :
    (∃ fault, x.Hindered r p fault ∧ (r.step (x.step p)).2 = .failed fault ∧
      (r.step (x.step p)).1 = r.withStorage (x.ready r.session.storage p).1 ∧
      r.session.storage.Grown (r.step (x.step p)).1.session.storage ∧
      r.session.storage.SameFiles (r.step (x.step p)).1.session.storage) ∨
    ∃ octets location, x.octets r = .ok octets ∧
      (r.step (x.step p)).2.exported? = some octets ∧
      (r.step (x.step p)).1 = r.withStorage (r.step (x.step p)).1.session.storage ∧
      (r.step (x.step p)).1.session.storage.resolve p = .ok location ∧
      (r.step (x.step p)).1.session.storage.fileAt? location = some octets ∧
      ∀ other, other ≠ location →
        (r.step (x.step p)).1.session.storage.fileAt? other = r.session.storage.fileAt? other := by
  have hGrown := x.grown_ready r.session.storage p
  have hEnding := x.ending_step r p
  generalize r.step (x.step p) = ended at hEnding ⊢
  cases hEnding with
  | hindered hHindered => exact Or.inl ⟨_, hHindered, rfl, rfl, hGrown, hGrown.sameFiles⟩
  | @filed octets location answer hOctets hOpen hAnswer =>
      obtain ⟨hResolve, hFree⟩ := Storage.writable_eq_ok.1 hOpen
      refine Or.inr ⟨octets, location, hOctets, hAnswer, rfl, ?_, ?_, ?_⟩
      · exact Storage.resolve_put _ octets hFree hResolve
      · exact Storage.fileAt?_put_self hOpen octets
      · intro other hOther
        exact (Storage.fileAt?_put_of_ne _ _ hOther).trans (hGrown.sameFiles other)

/-- A manifest with octets in a rule, which JSON does not have. -/
def octetsManifest : Manifest :=
  { digest := "d", rules := [[(.text "command", .bytes [0])]] }

/-- A run with two records in its journal and a manifest, beside a directory and a file. -/
def exporting : Run where
  session :=
    { journal := Journal.small
      storage := ⟨[(["out"], .directory), (["old"], .file [0x20])]⟩ }
  kept := [octetsManifest]

/-- The journal is written in lines, and the manifest over the old file; it is refused where there is
a directory. -/
theorem Run.exported_or_untouched_small :
    ((exporting.step (.writeLines ⟨["log"]⟩)).1.session.storage.fileAt? ["log"] =
        some (Octets.ofText Journal.smallText) ∧
      (exporting.step (.writeLines ⟨["log"]⟩)).1.session.storage.fileAt? ["old"] =
        some [0x20]) ∧
    ((exporting.step (.exportCbor 0 ⟨["old"]⟩)).1.session.storage.fileAt? ["old"] =
        some octetsManifest.toCbor ∧
      (exporting.step (.exportCbor 0 ⟨["old"]⟩)).2.exported? = some octetsManifest.toCbor) ∧
    ∃ fault, (exporting.step (.exportCbor 0 ⟨["out"]⟩)).2 = .failed fault ∧
      exporting.session.storage.SameFiles
        (exporting.step (.exportCbor 0 ⟨["out"]⟩)).1.session.storage := by
  have hLog (s : Storage) : s.resolve ⟨["log"]⟩ = .ok ["log"] := rfl
  have hOld (s : Storage) : s.resolve ⟨["old"]⟩ = .ok ["old"] := rfl
  refine ⟨?_, ?_, ?_⟩
  · have hReady : Export.lines.ready exporting.session.storage ⟨["log"]⟩ =
        (exporting.session.storage, .ok ()) := by
      rw [Export.ready, Storage.makeDirectories]
      rfl
    have hOctets : Export.lines.octets exporting = .ok (Octets.ofText Journal.smallText) := by
      rw [Export.octets, exporting, ← Journal.lines_eq_joinedLines, Journal.lines_small]
      rfl
    rcases Run.exported_or_untouched exporting ⟨["log"]⟩ .lines with
      ⟨fault, hHindered, -⟩ | ⟨octets, location, hWritten, -, -, hResolve, hFile, hOthers⟩
    · cases hHindered with
      | unready h =>
          rw [hReady] at h
          cases h
      | unwritten h => cases hOctets.symm.trans h
      | unopened h =>
          rw [hReady] at h
          cases h
    · cases (hLog _).symm.trans hResolve
      cases hOctets.symm.trans hWritten
      exact ⟨hFile, hOthers ["old"] (by decide)⟩
  · rcases Run.exported_or_untouched exporting ⟨["old"]⟩ (.cbor 0) with
      ⟨fault, hHindered, -⟩ | ⟨octets, location, hWritten, hAnswer, -, hResolve, hFile, -⟩
    · cases hHindered with
      | unready h => cases h
      | unwritten h => cases h
      | unopened h => cases h
    · cases (hOld _).symm.trans hResolve
      cases hWritten
      exact ⟨hFile, hAnswer⟩
  · have hFailed : (exporting.step (.exportCbor 0 ⟨["out"]⟩)).2 =
        .failed (.storage (.obstacle .isDirectory ⟨["out"]⟩)) := rfl
    rcases Run.exported_or_untouched exporting ⟨["out"]⟩ (.cbor 0) with
      ⟨fault, -, hFault, -, -, hSame⟩ | ⟨octets, location, -, hAnswer, -⟩
    · exact ⟨fault, hFault, hSame⟩
    · rw [Export.step, hFailed] at hAnswer
      cases hAnswer

end NinjaFile
