import NinjaFile.Proofs.Text.Octets
import NinjaFile.Session.Step

/-!
# What a save comes to

A save of a document that has a text comes to one of three things
(`Session.save_cases`): its file cannot be opened and nothing happens, its file
holds the text already and is left alone, or its file is written. Everything else
about saves follows from this and from two facts about files: one that was read
can be written (`Storage.exists_write`), and writing what it holds already changes
nothing (`Storage.write_eq_self`).
-/

namespace NinjaFile

/-! ## Files -/

namespace Storage

variable {s : Storage} {p : Path} {octets : List UInt8}

theorem read_eq_ok : s.read p = .ok octets ↔
    ∃ location, s.resolve p = .ok location ∧ s.node? location = some (.file octets) := by
  unfold read
  rw [Outcome.bind_eq_ok]
  constructor
  · rintro ⟨location, hResolve, h⟩
    split at h
    · cases h
    · cases h
    · rename_i found hNode
      cases h
      exact ⟨location, hResolve, hNode⟩
  · rintro ⟨location, hResolve, hNode⟩
    refine ⟨location, hResolve, ?_⟩
    rw [hNode]
    rfl

theorem text_of_read {text : String} (h : s.read p = .ok (Octets.ofText text)) :
    s.text p = .ok text := by
  refine Outcome.bind_eq_ok.2 ⟨Octets.ofText text, ?_, ?_⟩
  · rw [h]
    rfl
  · rw [Octets.toText?_ofText]
    rfl

theorem writable_of_read (h : s.read p = .ok octets) :
    ∃ location, s.writable p = .ok location ∧ s.node? location = some (.file octets) := by
  obtain ⟨location, hResolve, hNode⟩ := read_eq_ok.1 h
  refine ⟨location, writable_eq_ok.2 ⟨hResolve, ?_⟩, hNode⟩
  rw [hNode]
  intro hDirectory
  cases hDirectory

theorem exists_write (h : s.read p = .ok octets) (more : List UInt8) :
    ∃ after, s.write p more = .ok after := by
  obtain ⟨location, hWritable, -⟩ := writable_of_read h
  exact ⟨s.put location (.file more), write_of_writable hWritable more⟩

/-- **Writing what a file holds changes nothing.** -/
theorem write_eq_self (h : s.read p = .ok octets) : s.write p octets = .ok s := by
  obtain ⟨location, hWritable, hNode⟩ := writable_of_read h
  rw [write_of_writable hWritable, put_eq_self s hNode]

theorem file?_eq_some : s.file? p = .ok (some octets) ↔ s.read p = .ok octets := by
  unfold file?
  cases s.read p with
  | ok found => simp
  | error refusal =>
      constructor
      · intro h
        split at h
        · rename_i hEq
          cases hEq
        · cases h
        · cases h
      · intro h
        cases h

/-- What keeps a path from being looked at keeps it from being written, for the same reason. -/
theorem write_eq_error_of_file? {refusal : Refusal} (h : s.file? p = .error refusal)
    (octets : List UInt8) : s.write p octets = .error refusal := by
  cases hResolve : s.resolve p with
  | error found =>
      have hRead : s.read p = .error found := by
        rw [read, hResolve]
        rfl
      have hWrite : s.write p octets = .error found := by
        rw [write, writable, hResolve]
        rfl
      rw [hWrite]
      rw [file?, hRead] at h
      split at h
      · rename_i hEq
        cases hEq
      · rename_i path hEq
        cases hEq
        cases h
        rfl
      · cases h
  | ok location =>
      -- a path that leads somewhere is looked at without any error
      rw [file?, read, hResolve] at h
      dsimp only [bind, Except.bind] at h
      generalize s.node? location = node? at h
      rcases node? with _ | (_ | _) <;> cases h

end Storage

/-! ## Saves -/

namespace Session

variable {s : Session} {p : Path} {callback : Option Callback} {text : String}

theorem opened_finish (s : Session) (opened : Bool) (callback : Option Callback) :
    (s.finish opened callback).2.opened = opened := by
  cases callback <;> rfl

theorem calls_finish (s : Session) (opened : Bool) (callback : Option Callback) :
    (s.finish opened callback).2.calls = callback.toList.map fun _ => ⟨s.storage, s.journal⟩ := by
  cases callback <;> rfl

theorem writtenOctets_of_render {d : Document} (h : d.render = .ok text) :
    writtenOctets d = Octets.ofText text := by
  rw [writtenOctets, Piece.written_of_join (Fault.ofOverlong_eq_ok.1 h)]

theorem octets_of_render {d : Document} (h : d.render = .ok text) :
    octets d = .ok (Octets.ofText text) := by
  rw [octets, h]
  rfl

/-- A session whose file was refused, and the report of it. -/
def refused (s : Session) (refusal : Storage.Refusal) : Session × SaveReport :=
  (s, ⟨.error (.storage refusal), false, []⟩)

def skipped (s : Session) (p : Path) (callback : Option Callback) : Session × SaveReport :=
  finish { s with journal := s.journal.log (skippedRecord p) } false callback

/-- A session that wrote its file, after which the storage is the given one. -/
def wrote (s : Session) (p : Path) (storage : Storage) (callback : Option Callback) :
    Session × SaveReport :=
  finish { s with storage, journal := s.journal.log (savedRecord s p) } true callback

theorem persist_eq (hText : s.document.render = .ok text) : s.persist p callback =
    match s.storage.write p (Octets.ofText text) with
    | .error refusal => s.refused refusal
    | .ok storage => s.wrote p storage callback := by
  rw [persist, writtenOctets_of_render hText]
  cases s.storage.write p (Octets.ofText text) with
  | error refusal => rfl
  | ok storage =>
      simp only [hText]
      rfl

/-- **What a save comes to.** Its file is refused, or left alone because the session keeps unchanged
files and the file holds the text, or it is written. -/
theorem save_cases (hText : s.document.render = .ok text) (p : Path) (flag : Option Bool)
    (callback : Option Callback) :
    (∃ refusal, s.storage.write p (Octets.ofText text) = .error refusal ∧
      s.save p flag callback = s.refused refusal) ∨
    (flag.getD s.onlyIfChanged = true ∧ s.storage.read p = .ok (Octets.ofText text) ∧
      s.save p flag callback = s.skipped p callback) ∨
    (∃ storage, s.storage.write p (Octets.ofText text) = .ok storage ∧
      (flag.getD s.onlyIfChanged = true → s.storage.read p ≠ .ok (Octets.ofText text)) ∧
      s.save p flag callback = s.wrote p storage callback) := by
  have persisted (hSave : s.save p flag callback = s.persist p callback)
      (hDiffers : flag.getD s.onlyIfChanged = true →
        s.storage.read p ≠ .ok (Octets.ofText text)) :
      (∃ refusal, s.storage.write p (Octets.ofText text) = .error refusal ∧
        s.save p flag callback = s.refused refusal) ∨
      (∃ storage, s.storage.write p (Octets.ofText text) = .ok storage ∧
        (flag.getD s.onlyIfChanged = true → s.storage.read p ≠ .ok (Octets.ofText text)) ∧
        s.save p flag callback = s.wrote p storage callback) := by
    rw [hSave, persist_eq hText]
    cases hWrite : s.storage.write p (Octets.ofText text) with
    | error refusal => exact Or.inl ⟨refusal, rfl, rfl⟩
    | ok storage => exact Or.inr ⟨storage, rfl, hDiffers, rfl⟩
  by_cases hFlag : flag.getD s.onlyIfChanged = true
  · cases hFile : s.storage.file? p with
    | error refusal =>
        left
        refine ⟨refusal, Storage.write_eq_error_of_file? hFile _, ?_⟩
        simp only [save, if_pos hFlag, upToDate, hFile]
        rfl
    | ok found? =>
        cases found? with
        | none =>
            have hSave : s.save p flag callback = s.persist p callback := by
              simp only [save, if_pos hFlag, upToDate, hFile]
            refine (persisted hSave fun _ hRead => ?_).imp_right Or.inr
            rw [Storage.file?_eq_some.2 hRead] at hFile
            cases hFile
        | some found =>
            have hRead := Storage.file?_eq_some.1 hFile
            have hUpToDate : s.upToDate p = .ok (found == Octets.ofText text) := by
              simp only [upToDate, hFile, octets_of_render hText]
              rfl
            by_cases hSame : found = Octets.ofText text
            · right
              left
              refine ⟨hFlag, hSame ▸ hRead, ?_⟩
              rw [save, if_pos hFlag, hUpToDate, beq_iff_eq.2 hSame]
              rfl
            · have hSave : s.save p flag callback = s.persist p callback := by
                rw [save, if_pos hFlag, hUpToDate, beq_eq_false_iff_ne.2 hSame]
              refine (persisted hSave fun _ hOther => hSame ?_).imp_right Or.inr
              exact Except.ok.inj (hRead.symm.trans hOther)
  · have hSave : s.save p flag callback = s.persist p callback := by rw [save, if_neg hFlag]
    exact (persisted hSave fun h => absurd h hFlag).imp_right Or.inr

end Session

end NinjaFile
