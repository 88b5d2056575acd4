import NinjaFile.Proofs.Reachable
import NinjaFile.Proofs.Session.Saves
import NinjaFile.Proofs.Storage.Files

/-!
# Saves that do not finish

A save opens its file and streams the document into it, so a document that cannot be
written whole stops in its file: what was there is gone, and the texts of the pieces in
front of the fault are there instead (`Session.save_unwritable`). A save is therefore not
all or nothing (`Session.not_allOrNothing_overlong`).

What a save that fails before its callback has done is known all the same
(`Session.unfinished_save`). It has logged nothing. If its file was never opened,
because it was refused or because there was no text to compare it with, then nothing
has happened. Otherwise this one file has changed, and it holds a document that breaks
off in front of an integer that is too long.
-/

namespace NinjaFile

/-! ## Pieces in front of a fault -/

theorem Piece.exists_rest_of_all {pieces : List Piece} {refusal : Numeral.Overlong}
    (h : all pieces = .error refusal) :
    ∃ rest, pieces = (written pieces).map .ok ++ .error refusal :: rest := by
  induction pieces with
  | nil => cases h
  | cons piece rest ih =>
      cases piece with
      | error other =>
          cases h
          exact ⟨rest, rfl⟩
      | ok text =>
          have hRest : all rest = .error refusal := by
            rw [all] at h
            cases hAll : all rest with
            | error other => rfl -- there is only one refusal
            | ok texts =>
                rw [hAll] at h
                cases h
          obtain ⟨behind, hBehind⟩ := ih hRest
          refine ⟨behind, ?_⟩
          rw [written, List.map_cons, List.cons_append, ← hBehind]

theorem Document.exists_rest_of_render {d : Document} {fault : Fault}
    (h : d.render = .error fault) :
    fault = .overlong ∧
      ∃ rest, d.pieces = (Piece.written d.pieces).map .ok ++ .error .overlong :: rest := by
  rw [render, Piece.join] at h
  cases hAll : Piece.all d.pieces with
  | ok texts =>
      rw [hAll] at h
      cases h
  | error refusal =>
      rw [hAll] at h
      cases h
      exact ⟨rfl, Piece.exists_rest_of_all hAll⟩

/-! ## One save -/

namespace Session

variable {s : Session} {p : Path} {flag : Option Bool} {callback : Option Callback}
  {fault : Fault}

/-- A save whose document broke off in its file, at a location. -/
def stopped (s : Session) (location : Location) (fault : Fault) : Session × SaveReport :=
  ({ s with storage := s.storage.put location (.file (writtenOctets s.document)) },
    ⟨.error fault, true, []⟩)

theorem persist_unwritable (hText : s.document.render = .error fault) :
    (∃ refusal, s.storage.writable p = .error refusal ∧
      s.persist p callback = s.refused refusal) ∨
    ∃ location, s.storage.writable p = .ok location ∧
      s.persist p callback = s.stopped location fault := by
  cases hOpen : s.storage.writable p with
  | error refusal =>
      refine Or.inl ⟨refusal, rfl, ?_⟩
      rw [persist, Storage.write_of_refused hOpen]
      rfl
  | ok location =>
      refine Or.inr ⟨location, rfl, ?_⟩
      rw [persist, Storage.write_of_writable hOpen, hText]
      rfl

/-- **What a save of a document without a text comes to.** Its file is refused, or it is there and
is to be compared with the text, or the document breaks off in it. -/
theorem save_unwritable (hText : s.document.render = .error fault) (p : Path)
    (flag : Option Bool) (callback : Option Callback) :
    (∃ refusal, s.storage.writable p = .error refusal ∧
      s.save p flag callback = s.refused refusal) ∨
    (flag.getD s.onlyIfChanged = true ∧ (∃ found, s.storage.read p = .ok found) ∧
      s.save p flag callback = (s, ⟨.error fault, false, []⟩)) ∨
    ((flag.getD s.onlyIfChanged = true → ∀ found, s.storage.read p ≠ .ok found) ∧
      ∃ location, s.storage.writable p = .ok location ∧
        s.save p flag callback = s.stopped location fault) := by
  have persisted (hSave : s.save p flag callback = s.persist p callback)
      (hNone : flag.getD s.onlyIfChanged = true → ∀ found, s.storage.read p ≠ .ok found) :
      (∃ refusal, s.storage.writable p = .error refusal ∧
        s.save p flag callback = s.refused refusal) ∨
      ((flag.getD s.onlyIfChanged = true → ∀ found, s.storage.read p ≠ .ok found) ∧
        ∃ location, s.storage.writable p = .ok location ∧
          s.save p flag callback = s.stopped location fault) := by
    rw [hSave]
    exact (persist_unwritable hText).imp_right fun hStopped => ⟨hNone, hStopped⟩
  by_cases hFlag : flag.getD s.onlyIfChanged = true
  · cases hFile : s.storage.file? p with
    | error refusal =>
        have hClosed := Storage.writable_of_write.1 refusal
          (Storage.write_eq_error_of_file? hFile [])
        refine Or.inl ⟨refusal, hClosed, ?_⟩
        simp only [save, if_pos hFlag, upToDate, hFile]
        rfl
    | ok found? =>
        cases found? with
        | none =>
            have hSave : s.save p flag callback = s.persist p callback := by
              simp only [save, if_pos hFlag, upToDate, hFile]
            refine (persisted hSave fun _ found hRead => ?_).imp_right Or.inr
            rw [Storage.file?_eq_some.2 hRead] at hFile
            cases hFile
        | some found =>
            refine Or.inr (Or.inl ⟨hFlag, ⟨found, Storage.file?_eq_some.1 hFile⟩, ?_⟩)
            have hNoText : octets s.document = .error fault := by
              rw [octets, hText]
              rfl
            have hUpToDate : s.upToDate p = .error fault := by
              simp only [upToDate, hFile, hNoText]
              rfl
            rw [save, if_pos hFlag, hUpToDate]
  · have hSave : s.save p flag callback = s.persist p callback := by rw [save, if_neg hFlag]
    exact (persisted hSave fun h => absurd h hFlag).imp_right Or.inr

/-! ## Not all or nothing -/

/-- A save that fails before its callback has changed no file, created none and logged nothing. -/
def AllOrNothing (s : Session) (p : Path) (flag : Option Bool) (callback : Option Callback) :
    Prop :=
  ∀ fault, (s.save p flag callback).2.result = .error fault →
    (s.save p flag callback).2.calls = [] →
      s.storage.SameFiles (s.save p flag callback).1.storage ∧
        (s.save p flag callback).1.journal = s.journal

def leastOverlong : Nat := 10 ^ Numeral.limit

/-- A header, a binding of an integer that is too long, and an old file. -/
def overlong : Session where
  document := { header := some "h", bindings := [⟨.text "a", .int leastOverlong⟩] }
  storage := ⟨[(["build.ninja"], .file (Octets.ofText "old\n"))]⟩

theorem text?_leastOverlong : (Scalar.int leastOverlong).text? = .error .overlong := by
  have hLong : ¬ (Numeral.digits leastOverlong).length ≤ Numeral.limit := by
    rw [Numeral.digits, Nat.length_toDigits_le_iff (by decide) (by decide)]
    exact Nat.lt_irrefl _
  rw [Scalar.text?, Numeral.ofInt?, Int.natAbs_natCast, if_neg hLong]
  rfl

/-- The binding is what breaks the document off. -/
theorem pieces_overlong : overlong.document.pieces = [.ok "h\n\n", .error .overlong] := by
  have hBinding : Binding.piece ⟨.text "a", .int leastOverlong⟩ = .error .overlong := by
    rw [Binding.piece, text?_leastOverlong]
    rfl
  have hHeader : "" ++ "h" ++ "\n\n" = "h\n\n" := by decide
  have hPieces : overlong.document.pieces =
      [.ok ("" ++ "h" ++ "\n\n"), Binding.piece ⟨.text "a", .int leastOverlong⟩] := rfl
  rw [hPieces, hBinding, hHeader]

theorem save_overlong : overlong.save ⟨["build.ninja"]⟩ none none =
    ({ overlong with storage := ⟨[(["build.ninja"], .file (Octets.ofText "h\n\n"))]⟩ },
      ⟨.error .overlong, true, []⟩) := by
  have hText : overlong.document.render = .error .overlong := by
    rw [Document.render, pieces_overlong]
    rfl
  have hOpen : overlong.storage.writable ⟨["build.ninja"]⟩ = .ok ["build.ninja"] := by
    decide +kernel
  rcases save_unwritable hText ⟨["build.ninja"]⟩ none none with
    ⟨refusal, hClosed, -⟩ | ⟨hFlag, -⟩ | ⟨-, location, hOpened, hSave⟩
  · cases hOpen.symm.trans hClosed
  · cases hFlag
  · cases hOpen.symm.trans hOpened
    have hWritten : writtenOctets overlong.document = Octets.ofText "h\n\n" := by
      rw [writtenOctets, pieces_overlong]
      decide +kernel
    rw [hSave, stopped, hWritten]
    rfl

/-- **A save is not all or nothing.** The document is one that a header and a binding declare, and
its save fails before any callback; but the old text of the file is gone. -/
theorem not_allOrNothing_overlong :
    overlong.document.Reachable ∧ ¬ overlong.AllOrNothing ⟨["build.ninja"]⟩ none none := by
  constructor
  · have hEdits : ({} : Document).edits
        [.header (some "h"), .bind (.text "a") (.int leastOverlong)] = .ok overlong.document := rfl
    exact Document.Reachable.start.edits _ hEdits
  · intro h
    have hFault : (overlong.save ⟨["build.ninja"]⟩ none none).2.result = .error .overlong := by
      rw [save_overlong]
    have hCalls : (overlong.save ⟨["build.ninja"]⟩ none none).2.calls = [] := by
      rw [save_overlong]
    obtain ⟨hFiles, -⟩ := h .overlong hFault hCalls
    have hHeld := hFiles ["build.ninja"]
    rw [save_overlong] at hHeld
    revert hHeld
    decide +kernel

/-! ## What an unfinished save has done -/

/-- A save between two sessions broke off behind some texts, in the file at a location. -/
structure Interrupted (s after : Session) (p : Path) (texts : List String)
    (location : Location) : Prop where
  pieces : ∃ rest, s.document.pieces = texts.map .ok ++ .error .overlong :: rest
  opened : s.storage.writable p = .ok location
  resolves : after.storage.resolve p = .ok location
  file : after.storage.fileAt? location = some (Octets.ofText (String.join texts))
  others : ∀ other, other ≠ location → after.storage.fileAt? other = s.storage.fileAt? other
  rest : after = { s with storage := after.storage }

theorem interrupted_stopped {location : Location} {rest : List Piece}
    (hPieces : s.document.pieces =
      (Piece.written s.document.pieces).map .ok ++ .error .overlong :: rest)
    (hOpen : s.storage.writable p = .ok location) :
    Interrupted s (s.stopped location fault).1 p (Piece.written s.document.pieces) location := by
  obtain ⟨hResolve, hFree⟩ := Storage.writable_eq_ok.1 hOpen
  constructor
  case pieces => exact ⟨rest, hPieces⟩
  case opened => exact hOpen
  case resolves => exact Storage.resolve_put _ _ hFree hResolve
  case file => exact Storage.fileAt?_put_self hOpen _
  case others => exact fun other hOther => Storage.fileAt?_put_of_ne _ _ hOther
  case rest => rfl

/-- The end of a save comes behind its last fault but that of the callback. -/
theorem called_of_fault (t : Session) (opened : Bool)
    (hFault : (t.finish opened callback).2.result = .error fault) :
    (t.finish opened callback).2.calls ≠ [] := by
  cases callback with
  | none => cases hFault
  | some c =>
      rw [calls_finish]
      exact List.cons_ne_nil _ _

/-- **What a save that fails before its callback has done.** Either its file was not opened and the
session is as it was: the file was refused, or with the flag for unchanged files it was there and
there was no text to compare it with. Or its file was opened and holds the texts of the pieces in
front of an integer that is too long, and nothing else has changed. -/
theorem unfinished_save (hFault : (s.save p flag callback).2.result = .error fault)
    (hCalls : (s.save p flag callback).2.calls = []) :
    ((s.save p flag callback).1 = s ∧ (s.save p flag callback).2.opened = false ∧
      ((∃ refusal, s.storage.writable p = .error refusal ∧ fault = .storage refusal) ∨
        (flag.getD s.onlyIfChanged = true ∧ (∃ found, s.storage.read p = .ok found) ∧
          s.document.render = .error fault))) ∨
    ((s.save p flag callback).2.opened = true ∧ fault = .overlong ∧
      (flag.getD s.onlyIfChanged = true → ∀ found, s.storage.read p ≠ .ok found) ∧
      ∃ texts location, Interrupted s (s.save p flag callback).1 p texts location) := by
  cases hText : s.document.render with
  | ok text =>
      rcases save_cases hText p flag callback with
        ⟨refusal, hWrite, hSave⟩ | ⟨-, -, hSave⟩ | ⟨storage, -, -, hSave⟩
      · rw [hSave] at hFault ⊢
        cases hFault
        exact Or.inl ⟨rfl, rfl, Or.inl ⟨refusal, Storage.writable_of_write.1 refusal hWrite, rfl⟩⟩
      · rw [hSave] at hFault hCalls
        exact absurd hCalls (called_of_fault _ _ hFault)
      · rw [hSave] at hFault hCalls
        exact absurd hCalls (called_of_fault _ _ hFault)
  | error other =>
      rcases save_unwritable hText p flag callback with
        ⟨refusal, hClosed, hSave⟩ | ⟨hFlag, hFound, hSave⟩ | ⟨hNone, location, hOpen, hSave⟩
      · rw [hSave] at hFault ⊢
        cases hFault
        exact Or.inl ⟨rfl, rfl, Or.inl ⟨refusal, hClosed, rfl⟩⟩
      · rw [hSave] at hFault ⊢
        cases hFault
        exact Or.inl ⟨rfl, rfl, Or.inr ⟨hFlag, hFound, rfl⟩⟩
      · obtain ⟨rfl, rest, hPieces⟩ := Document.exists_rest_of_render hText
        rw [hSave] at hFault ⊢
        cases hFault
        exact Or.inr ⟨rfl, rfl, hNone, _, location, interrupted_stopped hPieces hOpen⟩

/-- The header is in the file, up to the binding. -/
theorem unfinished_save_small :
    (overlong.save ⟨["build.ninja"]⟩ none none).2.result = .error .overlong ∧
      (overlong.save ⟨["build.ninja"]⟩ none none).2.calls = [] ∧
      ∃ texts location, Interrupted overlong (overlong.save ⟨["build.ninja"]⟩ none none).1
        ⟨["build.ninja"]⟩ texts location := by
  have hFault : (overlong.save ⟨["build.ninja"]⟩ none none).2.result = .error .overlong := by
    rw [save_overlong]
  have hCalls : (overlong.save ⟨["build.ninja"]⟩ none none).2.calls = [] := by
    rw [save_overlong]
  refine ⟨hFault, hCalls, ?_⟩
  rcases unfinished_save hFault hCalls with ⟨-, hClosed, -⟩ | ⟨-, -, -, hInterrupted⟩
  · rw [save_overlong] at hClosed
    cases hClosed
  · exact hInterrupted

end Session

end NinjaFile
