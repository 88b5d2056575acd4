import NinjaFile.Proofs.Session.Saves
import NinjaFile.Proofs.Session.Short
import NinjaFile.Proofs.Text.Octets

/-!
# Files that are written when the text has changed

A save gets past its file by opening it or by skipping it, and the report tells which
(`SaveReport.Passed`). Either way the file then holds the text of the document
(`Session.read_of_passed`), and a save that got past neither has left all as it was. As
long as nothing but saves to its path touches the file, it goes on holding the text
of the latest save that got past it, whatever the steps are (`Run.read_steps`). So the
next save that keeps unchanged files opens the file exactly when the document has
another text by then (`Run.opened_iff_changed`).
-/

namespace NinjaFile

/-! ## One save -/

/-- A save got past its file: it opened the file, or came without that to its end or to its
callback, which is to skip the file. -/
def SaveReport.Passed (report : SaveReport) : Prop :=
  report.opened = true ∨ report.result = .ok () ∨ report.calls ≠ []

namespace Session

variable {s : Session} {p : Path} {text : String}

theorem passed_finish (s : Session) (opened : Bool) (callback : Option Callback) :
    (s.finish opened callback).2.Passed := by
  cases callback with
  | none => exact Or.inr (Or.inl rfl)
  | some c => exact Or.inr (Or.inr (List.cons_ne_nil _ _))

theorem not_passed_refused (s : Session) (refusal : Storage.Refusal) :
    ¬(s.refused refusal).2.Passed := by
  rintro (hOpened | hResult | hCalls)
  · cases hOpened
  · cases hResult
  · exact hCalls rfl

/-- **After a save that got past its file, the file holds the text.** -/
theorem read_of_passed (hText : s.document.render = .ok text) {flag : Option Bool}
    {callback : Option Callback} (h : (s.save p flag callback).2.Passed) :
    (s.save p flag callback).1.storage.read p = .ok (Octets.ofText text) := by
  rcases save_cases hText p flag callback with
    ⟨refusal, -, hSave⟩ | ⟨-, hRead, hSave⟩ | ⟨storage, hWrite, -, hSave⟩
  · rw [hSave] at h
    exact absurd h (not_passed_refused s refusal)
  · rw [hSave, skipped, fst_finish]
    exact hRead
  · rw [hSave, wrote, fst_finish]
    exact Storage.read_of_write hWrite

/-- A save that did not get past its file left everything as it was. -/
theorem save_of_not_passed (hText : s.document.render = .ok text) {flag : Option Bool}
    {callback : Option Callback} (h : ¬(s.save p flag callback).2.Passed) :
    (s.save p flag callback).1 = s := by
  rcases save_cases hText p flag callback with
    ⟨refusal, -, hSave⟩ | ⟨-, -, hSave⟩ | ⟨storage, -, -, hSave⟩
  · rw [hSave]
    rfl
  · rw [hSave] at h
    exact absurd (passed_finish _ _ _) h
  · rw [hSave] at h
    exact absurd (passed_finish _ _ _) h

/-- What a save that keeps unchanged files does to a file that holds a text. -/
theorem opened_iff_ne (hText : s.document.render = .ok text) {held : String}
    (hRead : s.storage.read p = .ok (Octets.ofText held)) {flag : Option Bool}
    (hFlag : flag.getD s.onlyIfChanged = true) (callback : Option Callback) :
    ((s.save p flag callback).2.opened = true ↔ text ≠ held) ∧
      (text = held → (s.save p flag callback).1.journal.records = s.journal.records ++
        [{ level := "info"
           operation := "save_skipped"
           path := some p.toString
           message := "Existing file is up to date."
           extra := none }]) := by
  rcases save_cases hText p flag callback with
    ⟨refusal, hWrite, -⟩ | ⟨-, hSame, hSave⟩ | ⟨storage, -, hDiffers, hSave⟩
  · -- a file that was read can be written
    obtain ⟨after, hAfter⟩ := Storage.exists_write hRead (Octets.ofText text)
    rw [hWrite] at hAfter
    cases hAfter
  · have hOctets : Octets.ofText text = Octets.ofText held :=
      Except.ok.inj (hSame.symm.trans hRead)
    have hEq : text = held := by
      have hBack := congrArg Octets.toText? hOctets
      rw [Octets.toText?_ofText, Octets.toText?_ofText] at hBack
      exact Option.some.inj hBack
    rw [hSave, skipped, opened_finish, fst_finish]
    exact ⟨⟨fun h => absurd h (by decide), fun h => absurd hEq h⟩, fun _ => rfl⟩
  · have hNe : text ≠ held := by
      rintro rfl
      exact hDiffers hFlag hRead
    rw [hSave, wrote, opened_finish]
    exact ⟨⟨fun _ => hNe, fun _ => rfl⟩, fun hEq => absurd hEq hNe⟩

end Session

/-! ## Runs -/

namespace Run

/-- Something holds of every step of a run in the state in which it is taken. -/
def Along (P : Run → Step → Prop) : Run → List Step → Prop
  | _, [] => True
  | r, s :: rest => P r s ∧ Along P (r.step s).1 rest

def Passes (p : Path) (r : Run) (s : Step) : Prop :=
  ∃ flag callback, s = .save p flag callback ∧ (r.session.save p flag callback).2.Passed

/-- The step is a save to a path, or leaves the file at the path as it is. -/
def Spares (p : Path) (r : Run) (s : Step) : Prop :=
  (∃ flag callback, s = .save p flag callback) ∨
    ∀ octets, r.session.storage.read p = .ok octets →
      (r.step s).1.session.storage.read p = .ok octets

/-- **One step.** The file at a path keeps its octets in a step that spares it, unless the step
saves to the path and gets past the file. -/
theorem read_step {p : Path} {r : Run} {s : Step} (hShort : r.session.document.Short)
    (hSpares : Spares p r s) (hFails : ¬Passes p r s) {octets : List UInt8}
    (hRead : r.session.storage.read p = .ok octets) :
    (r.step s).1.session.storage.read p = .ok octets := by
  rcases hSpares with ⟨flag, callback, rfl⟩ | hKept
  · obtain ⟨text, hText⟩ := hShort.exists_render
    have hQuiet : ¬(r.session.save p flag callback).2.Passed :=
      fun hPassed => hFails ⟨flag, callback, rfl, hPassed⟩
    show (r.session.save p flag callback).1.storage.read p = .ok octets
    rw [Session.save_of_not_passed hText hQuiet]
    exact hRead
  · exact hKept octets hRead

/-- **Whole runs.** -/
theorem read_steps {p : Path} {r : Run} {steps : List Step} (hDocument : r.session.document.Short)
    (hShort : ∀ s ∈ steps, s.isShort = true) (hAlone : r.Along (Spares p) steps)
    (hLatest : r.Along (fun q s => ¬Passes p q s) steps) {octets : List UInt8}
    (hRead : r.session.storage.read p = .ok octets) :
    (r.steps steps).1.session.storage.read p = .ok octets := by
  induction steps generalizing r with
  | nil => exact hRead
  | cons s rest ih =>
      obtain ⟨hSpares, hAlone⟩ := hAlone
      obtain ⟨hFails, hLatest⟩ := hLatest
      apply ih (short_step hDocument (hShort s List.mem_cons_self)) _ hAlone hLatest
      · exact read_step hDocument hSpares hFails hRead
      · intro t ht
        exact hShort t (List.mem_cons_of_mem _ ht)

/-- **A file is written exactly when the text has changed.** Take a save to a path that gets past
its file, in any state of a session without long integers, and any steps behind it that spare the
file and among which no save to the path gets past it. Then the file holds the text that the document
had at the save, and a save to the path that keeps unchanged files opens the file if and only if the
document has another text now; otherwise it logs that it skipped the file. -/
theorem opened_iff_changed {p : Path} {r : Run} {flag : Option Bool} {callback : Option Callback}
    {between : List Step} (hDocument : r.session.document.Short)
    (hShort : ∀ s ∈ between, s.isShort = true) (hPassed : Passes p r (.save p flag callback))
    (hAlone : (r.step (.save p flag callback)).1.Along (Spares p) between)
    (hLatest : (r.step (.save p flag callback)).1.Along (fun q s => ¬Passes p q s) between) :
    ∃ before now, r.session.document.render = .ok before ∧
      (r.step (.save p flag callback)).1.session.storage.read p = .ok (Octets.ofText before) ∧
      (r.steps (.save p flag callback :: between)).1.session.document.render = .ok now ∧
      (r.steps (.save p flag callback :: between)).1.session.storage.read p =
        .ok (Octets.ofText before) ∧
      ∀ flag' callback',
        let last := (r.steps (.save p flag callback :: between)).1.session
        flag'.getD last.onlyIfChanged = true →
          ((last.save p flag' callback').2.opened = true ↔ now ≠ before) ∧
          (now = before →
            (last.save p flag' callback').1.journal.records = last.journal.records ++
              [{ level := "info"
                 operation := "save_skipped"
                 path := some p.toString
                 message := "Existing file is up to date."
                 extra := none }]) := by
  obtain ⟨before, hBefore⟩ := hDocument.exists_render
  have hSaved : (r.step (.save p flag callback)).1.session.storage.read p =
      .ok (Octets.ofText before) := by
    obtain ⟨flag', callback', hStep, hReport⟩ := hPassed
    cases hStep
    exact Session.read_of_passed hBefore hReport
  have hAfter : (r.step (.save p flag callback)).1.session.document.Short :=
    short_step hDocument rfl
  obtain ⟨now, hNow⟩ := (short_steps hAfter hShort).exists_render
  have hHeld := read_steps hAfter hShort hAlone hLatest hSaved
  refine ⟨before, now, hBefore, hSaved, hNow, hHeld, ?_⟩
  intro flag' callback' last hFlag
  exact Session.opened_iff_ne hNow hHeld hFlag callback'

/-- A session that saves a document, and changes its header twice behind the save. -/
def headed (last : Option String) : Run :=
  (({ session := { document := { buildDir := some "out" } } } : Run).steps
    [.save ⟨["build.ninja"]⟩ none none, .edit (.header (some "# generated")), .render,
      .edit (.header last)]).1

/-- Another save skips the file if the header is back, and logs that, and it opens the file
otherwise. -/
theorem opened_iff_changed_small :
    (((headed none).session.save ⟨["build.ninja"]⟩ (some true) none).2.opened = false ∧
      ((headed none).session.save ⟨["build.ninja"]⟩ (some true) none).1.journal.records =
        (headed none).session.journal.records ++
          [{ level := "info"
             operation := "save_skipped"
             path := some "build.ninja"
             message := "Existing file is up to date."
             extra := none }]) ∧
      ((headed (some "")).session.save ⟨["build.ninja"]⟩ (some true) none).2.opened = true := by
  have hDocument (last : Option String) :
      (headed last).session.document = { header := last, buildDir := some "out" } := by
    simp only [headed, steps, step, Document.edit, document_save]
  have hPassed : Passes ⟨["build.ninja"]⟩ { session := { document := { buildDir := some "out" } } }
      (.save ⟨["build.ninja"]⟩ none none) := by
    refine ⟨none, none, rfl, ?_⟩
    exact Or.inl (by decide +kernel)
  have hShort (last : Option String) :
      ∀ s ∈ [.edit (.header (some "# generated")), .render, .edit (.header last)],
        Step.isShort s = true := by
    simp [Step.isShort, Document.Edit.isShort]
  have hSaves (last : Option String) :=
    opened_iff_changed (Document.short_of_no_bindings rfl rfl) (hShort last) hPassed
      ⟨Or.inr fun _ h => h, Or.inr fun _ h => h, Or.inr fun _ h => h, trivial⟩
      ⟨by simp [Passes], by simp [Passes], by simp [Passes], trivial⟩
  constructor
  · obtain ⟨before, now, hBefore, -, hNow, -, hSave⟩ := hSaves none
    have hSame : now = before := by
      change (headed none).session.document.render = .ok now at hNow
      rw [hDocument] at hNow
      exact Except.ok.inj (hNow.symm.trans hBefore)
    obtain ⟨hOpened, hSkipped⟩ := hSave (some true) none rfl
    exact ⟨Bool.eq_false_iff.2 fun h => hOpened.1 h hSame, hSkipped hSame⟩
  · obtain ⟨before, now, hBefore, -, hNow, -, hSave⟩ := hSaves (some "")
    have hNe : now ≠ before := by
      change (headed (some "")).session.document.render = .ok now at hNow
      rw [hDocument] at hNow
      rw [← show "\n\nbuilddir=out\n" = now from Except.ok.inj hNow,
        ← show "builddir=out\n" = before from Except.ok.inj hBefore]
      decide
    exact (hSave (some true) none rfl).1.2 hNe

end Run

end NinjaFile
