import NinjaFile.Proofs.Session.Saves
import NinjaFile.Proofs.Session.Short

/-!
# A skipped file looks written

Whether a save leaves its file alone or writes it cannot be told from outside, but
for what the record of the save says. `Run.observe` is what can be seen of a step:
its answer, the files that its callback sees, the files behind it, and the levels and
paths in the journal. A run is observed alike if every save in it always writes
(`Run.observations_writing`).

The two runs go through states that differ in their journals only. A step that is no
save does not look at the journal (`Run.step_withJournal`), and a save comes to the
same result with either journal (`Session.save_writing`), because writing what a file
holds already changes nothing.
-/

namespace NinjaFile

/-! ## What is observed -/

/-- The levels and paths of the records of a journal. -/
def Journal.outline (j : Journal) : List (String × Option String) :=
  j.records.map fun r => (r.level, r.path)

@[simp]
theorem Journal.outline_log (j : Journal) (r : Record) :
    (j.log r).outline = j.outline ++ [(r.level, r.path)] := by
  simp [outline, log]

/-- An answer that does not tell whether a file was opened. -/
def Answer.unopened : Answer → Answer
  | .saved path _ seen shown => .saved path false seen shown
  | answer => answer

namespace Step

/-- The same step, in which a save always writes. -/
def writing : Step → Step
  | .save path _ callback => .save path (some false) callback
  | s => s

def isAboutJournal : Step → Bool
  | .log _ | .records | .recordsFor _ | .writeLines _ => true
  | _ => false

end Step

structure Observation where
  /-- The answer, or the fault. -/
  answer : Answer
  /-- The files as each call of the callback sees them. -/
  calls : List Storage
  /-- The files behind the step. -/
  storage : Storage
  /-- The levels and paths in the journal behind the step. -/
  journal : List (String × Option String)

namespace Run

/-- The files as each call of a callback in a step sees them. -/
def calls (r : Run) : Step → List Storage
  | .save path flag callback =>
    (r.session.save path flag callback).2.calls.map fun moment => moment.storage
  | _ => []

def observe (r : Run) (s : Step) : Observation where
  answer := (r.step s).2.unopened
  calls := r.calls s
  storage := (r.step s).1.session.storage
  journal := (r.step s).1.session.journal.outline

def observations : Run → List Step → List Observation
  | _, [] => []
  | r, s :: rest => r.observe s :: observations (r.step s).1 rest

end Run

/-! ## One save -/

namespace Session

def withJournal (s : Session) (journal : Journal) : Session :=
  { s with journal }

/-- Two outcomes of a save that are seen alike: the sessions differ in their journals only, and in
these by what is not observed. -/
structure SeenAlike (a b : Session × SaveReport) : Prop where
  session : a.1 = b.1.withJournal a.1.journal
  journal : a.1.journal.outline = b.1.journal.outline
  result : a.2.result = b.2.result
  calls : a.2.calls.map (fun moment => moment.storage) =
    b.2.calls.map fun moment => moment.storage

theorem seenAlike_finish {s t : Session} (hSession : s = t.withJournal s.journal)
    (hJournal : s.journal.outline = t.journal.outline) (opened opened' : Bool)
    (callback : Option Callback) :
    SeenAlike (s.finish opened callback) (t.finish opened' callback) := by
  have hStorage : s.storage = t.storage := by
    rw [hSession]
    rfl
  cases callback with
  | none => exact ⟨hSession, hJournal, rfl, rfl⟩
  | some callback =>
      refine ⟨hSession, hJournal, ?_, ?_⟩
      · show callback s.storage = callback t.storage
        rw [hStorage]
      · show [s.storage] = [t.storage]
        rw [hStorage]

/-- **One save.** A save that always writes is seen as the save itself, with another journal that
tells the same levels and paths. -/
theorem save_writing {s : Session} {text : String} (hText : s.document.render = .ok text)
    {journal : Journal} (hJournal : journal.outline = s.journal.outline) (p : Path)
    (flag : Option Bool) (callback : Option Callback) :
    SeenAlike ((s.withJournal journal).save p (some false) callback)
      (s.save p flag callback) := by
  have hText' : (s.withJournal journal).document.render = .ok text := hText
  rcases save_cases hText' p (some false) callback with
    ⟨refusal, hWrite, hSave⟩ | ⟨hFlag, -, -⟩ | ⟨storage, hWrite, -, hSave⟩
  · -- what cannot be written is not found up to date either
    rcases save_cases hText p flag callback with
      ⟨refusal', hWrite', hSave'⟩ | ⟨-, hRead, -⟩ | ⟨storage', hWrite', -, -⟩
    · rw [hSave, hSave']
      cases hWrite.symm.trans hWrite'
      exact ⟨rfl, hJournal, rfl, rfl⟩
    · cases hWrite.symm.trans (Storage.write_eq_self hRead)
    · cases hWrite.symm.trans hWrite'
  · cases hFlag
  · rcases save_cases hText p flag callback with
      ⟨refusal', hWrite', -⟩ | ⟨-, hRead, hSave'⟩ | ⟨storage', hWrite', -, hSave'⟩
    · cases hWrite.symm.trans hWrite'
    · -- writing what the file holds already leaves the files as they are
      cases hWrite.symm.trans (Storage.write_eq_self hRead)
      rw [hSave, hSave', wrote, skipped]
      refine seenAlike_finish rfl ?_ true false callback
      show (journal.log _).outline = (s.journal.log _).outline
      rw [Journal.outline_log, Journal.outline_log, hJournal]
      rfl
    · cases hWrite.symm.trans hWrite'
      rw [hSave, hSave', wrote, wrote]
      refine seenAlike_finish rfl ?_ true true callback
      show (journal.log _).outline = (s.journal.log _).outline
      rw [Journal.outline_log, Journal.outline_log, hJournal]
      rfl

end Session

/-! ## Runs -/

namespace Run

def withJournal (r : Run) (journal : Journal) : Run :=
  { r with session := r.session.withJournal journal }

/-- A step that is no save and is not about the journal does not look at it, and leaves it alone. -/
theorem step_withJournal (r : Run) (journal : Journal) {s : Step} (hs : s.isAboutJournal = false)
    (hSave : ∀ path flag callback, s ≠ .save path flag callback) :
    (r.withJournal journal).step s = ((r.step s).1.withJournal journal, (r.step s).2) ∧
      (r.step s).1.session.journal = r.session.journal := by
  cases s with
  | log | records | recordsFor | writeLines => cases hs
  | save path flag callback => exact absurd rfl (hSave path flag callback)
  | edit | takeManifest | showManifest | exportJson | exportCbor | placeFile =>
      simp only [step, withJournal, Session.withJournal, withStorage]
      repeat' split
      all_goals exact ⟨rfl, rfl⟩
  | _ => exact ⟨rfl, rfl⟩

theorem saveAnswer_of_seenAlike {a b : Session × SaveReport} (h : Session.SeenAlike a b)
    (p : Path) : (saveAnswer p a.1 a.2).unopened = (saveAnswer p b.1 b.2).unopened := by
  have hSeen : seenTexts p a.2.calls = seenTexts p b.2.calls := by
    have hTexts (calls : List Moment) : seenTexts p calls =
        (calls.map fun moment => moment.storage).filterMap fun storage =>
          (storage.text p).toOption := by
      rw [seenTexts, List.filterMap_map]
      congr 1
      funext moment
      rw [Function.comp]
      cases moment.storage.text p <;> rfl
    rw [hTexts, hTexts, h.calls]
  have hStorage : a.1.storage = b.1.storage := by
    rw [h.session]
    rfl
  simp only [saveAnswer, hSeen, h.result, hStorage]
  cases b.2.result with
  | error fault => rfl
  | ok done =>
      cases b.1.storage.text p <;> rfl

/-- **One step.** It is seen alike with another journal if a save always writes, and leads to states
that again differ in their journals only. -/
theorem observe_writing {r : Run} (hDocument : r.session.document.Short) {s : Step}
    (hs : s.isAboutJournal = false) {journal : Journal}
    (hJournal : journal.outline = r.session.journal.outline) :
    (r.withJournal journal).observe s.writing = r.observe s ∧
      ∃ after, ((r.withJournal journal).step s.writing).1 = (r.step s).1.withJournal after ∧
        after.outline = (r.step s).1.session.journal.outline := by
  by_cases hSave : ∃ path flag callback, s = .save path flag callback
  · obtain ⟨path, flag, callback, rfl⟩ := hSave
    obtain ⟨text, hText⟩ := hDocument.exists_render
    have hAlike := Session.save_writing hText hJournal path flag callback
    constructor
    · have hAnswer := saveAnswer_of_seenAlike hAlike path
      have hStorage : ((r.session.withJournal journal).save path (some false) callback).1.storage =
          (r.session.save path flag callback).1.storage := by
        rw [hAlike.session]
        rfl
      show Observation.mk _ _ _ _ = Observation.mk _ _ _ _
      exact congr (congr (congr (congrArg Observation.mk hAnswer) hAlike.calls) hStorage)
        hAlike.journal
    · exact ⟨_, congrArg (fun session => ({ r with session } : Run)) hAlike.session,
        hAlike.journal⟩
  · have hSave : ∀ path flag callback, s ≠ .save path flag callback := by
      rintro path flag callback rfl
      exact hSave ⟨path, flag, callback, rfl⟩
    have hWriting : s.writing = s := by
      cases s <;> first | rfl | exact absurd rfl (hSave _ _ _)
    have hCalls (q : Run) : q.calls s = [] := by
      cases s <;> first | rfl | exact absurd rfl (hSave _ _ _)
    obtain ⟨hStep, hKept⟩ := step_withJournal r journal hs hSave
    rw [hWriting, observe, observe, hStep, hCalls, hCalls, hKept]
    refine ⟨?_, journal, rfl, hJournal⟩
    show Observation.mk _ _ _ journal.outline = _
    rw [hJournal]
    rfl

/-- Runs from states that differ in their journals only are observed alike. -/
theorem observations_withJournal {r : Run} (hDocument : r.session.document.Short)
    {steps : List Step} (hShort : ∀ s ∈ steps, s.isShort = true)
    (hSteps : ∀ s ∈ steps, s.isAboutJournal = false) {journal : Journal}
    (hJournal : journal.outline = r.session.journal.outline) :
    (r.withJournal journal).observations (steps.map Step.writing) = r.observations steps := by
  induction steps generalizing r journal with
  | nil => rfl
  | cons s rest ih =>
      obtain ⟨hSeen, after, hNext, hAfter⟩ :=
        observe_writing hDocument (hSteps s List.mem_cons_self) hJournal
      have hRest := ih (short_step hDocument (hShort s List.mem_cons_self))
        (fun t ht => hShort t (List.mem_cons_of_mem _ ht))
        (fun t ht => hSteps t (List.mem_cons_of_mem _ ht)) hAfter
      rw [List.map_cons, observations, observations, hSeen, hNext, hRest]

/-- **A skipped file looks written.** In a run without long integers that does not look at the
journal, every step is answered alike, calls its callback on the same files, and leaves the same
files and the same levels and paths in the journal, if every save in the run always writes. -/
theorem observations_writing {r : Run} (hDocument : r.session.document.Short) {steps : List Step}
    (hShort : ∀ s ∈ steps, s.isShort = true) (hSteps : ∀ s ∈ steps, s.isAboutJournal = false) :
    r.observations (steps.map Step.writing) = r.observations steps := by
  show (r.withJournal r.session.journal).observations (steps.map Step.writing) =
    r.observations steps
  exact observations_withJournal hDocument hShort hSteps rfl

/-- Saves of one document, the second of which has nothing to do, with a callback that gives up. -/
def resaves : List Step :=
  [.save ⟨["build.ninja"]⟩ (some true) none,
    .save ⟨["build.ninja"]⟩ (some true) (some fun _ => .error .noSuchEntry),
    .edit (.header (some "# generated")), .save ⟨["build.ninja"]⟩ none none]

/-- The second save is skipped, which only the operations in the journal tell. -/
theorem observations_writing_small :
    observations {} (resaves.map Step.writing) = observations {} resaves ∧
      (steps {} resaves).1.session.journal.records.map (fun r => r.operation) =
        ["save", "save_skipped", "save"] ∧
      (steps {} (resaves.map Step.writing)).1.session.journal.records.map (fun r => r.operation) =
        ["save", "save", "save"] := by
  refine ⟨?_, by decide +kernel, by decide +kernel⟩
  refine observations_writing (Document.short_of_no_bindings rfl rfl) ?_ ?_
  · simp [resaves, Step.isShort, Document.Edit.isShort]
  · simp [resaves, Step.isAboutJournal]

end Run

end NinjaFile
