import NinjaFile.Proofs.Session.Counts
import NinjaFile.Proofs.Session.Saves
import NinjaFile.Proofs.Views

/-!
# Failed steps leave no trace

A session can fail at an edge without targets, or at a save whose file cannot be opened,
and goes on as if the step had not been taken. So a run comes to the same end without the
steps that failed, and the others are answered alike (`Run.steps_accepted`).

What has to be shown is that a step which is answered by a fault has changed nothing
(`Run.step_eq_of_fault`), and so that a step which has changed something is answered
without one: an accepted declaration because its clause can be shown
(`Run.isFault_editAnswer`), and a save that found or wrote its text because it can read
the file (`Run.save_of_quiet`).
-/

namespace NinjaFile

/-! ## Answers -/

def Answer.isFault : Answer → Bool
  | .failed _ | .saveFailed .. => true
  | _ => false

/-- A step in which no long integer is declared and no callback gives up, and which has no part that
could be left behind if another part fails. -/
def Step.Quiet : Step → Prop
  | .edit change => change.isShort = true ∧ ∀ f ∈ change.flags, f.isShort = true
  | .save _ _ callback => ∀ c ∈ callback, ∀ storage, c storage = .ok ()
  | .log _ | .writeLines _ | .makeDirectory _ | .generate _ => False
  | _ => True

theorem Document.exists_rule_of_edit {d d' : Document} {index : Nat} {change : Rule.Edit}
    (h : d.edit (.editRule index change) = .ok d') : ∃ r, d'.rules[index]? = some r := by
  obtain ⟨r, hIndex, rfl⟩ := edit_editRule_eq_ok.1 h
  obtain ⟨hBound, -⟩ := List.getElem?_eq_some_iff.1 hIndex
  exact ⟨_, List.getElem?_set_self hBound⟩

theorem Document.exists_edge_of_edit {d d' : Document} {index : Nat} {change : Edge.Edit}
    (h : d.edit (.editEdge index change) = .ok d') : ∃ e, d'.edges[index]? = some e := by
  obtain ⟨e, e', hIndex, -, rfl⟩ := edit_editEdge_eq_ok.1 h
  obtain ⟨hBound, -⟩ := List.getElem?_eq_some_iff.1 hIndex
  exact ⟨_, List.getElem?_set_self hBound⟩

namespace Run

/-- **An accepted declaration is answered without a fault.** -/
theorem isFault_editAnswer {d : Document} {s : Session} {change : Document.Edit}
    (hEdit : d.edit change = .ok s.document) (hDocument : s.document.Showable)
    (hShort : change.isShort = true) : (editAnswer s change).isFault = false := by
  cases change with
  | bind name value =>
      obtain ⟨hName, hValue⟩ := Bool.and_eq_true_iff.1 hShort
      obtain ⟨view, hView⟩ := Binding.exists_view (b := ⟨name, value⟩) hName hValue
      rw [editAnswer, hView]
      rfl
  | rule name =>
      obtain ⟨view, hView⟩ := Rule.exists_view (r := { name }) (by simp [Rule.flags])
      rw [editAnswer, hView]
      rfl
  | edge targets =>
      obtain ⟨view, hView⟩ := Edge.exists_view (e := { targets := targets.toList }) (by simp)
      rw [editAnswer, hView]
      rfl
  | editRule index change =>
      obtain ⟨r, hIndex⟩ := Document.exists_rule_of_edit hEdit
      obtain ⟨view, hView⟩ := Rule.exists_view (hDocument.flags r (List.mem_of_getElem? hIndex))
      simp only [editAnswer, hIndex, hView]
      rfl
  | editEdge index change =>
      obtain ⟨e, hIndex⟩ := Document.exists_edge_of_edit hEdit
      obtain ⟨view, hView⟩ :=
        Edge.exists_view (hDocument.short.edges e (List.mem_of_getElem? hIndex))
      simp only [editAnswer, hIndex, hView]
      rfl
  | _ => rfl

/-- **A save with a callback that does not give up** changes nothing, or it is answered without a
fault. -/
theorem save_of_quiet {s : Session} {text : String} (hText : s.document.render = .ok text) (p : Path)
    (flag : Option Bool) {callback : Option Callback}
    (hCallback : ∀ c ∈ callback, ∀ storage, c storage = .ok ()) :
    (s.save p flag callback).1 = s ∨
      (saveAnswer p (s.save p flag callback).1 (s.save p flag callback).2).isFault = false := by
  -- the file can be read behind a save that found its text there or wrote it
  have answered (t : Session) (opened : Bool)
      (hRead : t.storage.read p = .ok (Octets.ofText text)) :
      (saveAnswer p (t.finish opened callback).1 (t.finish opened callback).2).isFault =
        false := by
    have hFile : t.storage.text p = .ok text := Storage.text_of_read hRead
    have hResult : (t.finish opened callback).2.result = .ok () := by
      cases callback with
      | none => rfl
      | some c => exact hCallback c rfl t.storage
    simp only [saveAnswer, hResult, Session.fst_finish, hFile]
    rfl
  rcases Session.save_cases hText p flag callback with
    ⟨refusal, -, hSave⟩ | ⟨-, hRead, hSave⟩ | ⟨storage, hWrite, -, hSave⟩
  · left
    rw [hSave]
    rfl
  · right
    rw [hSave]
    exact answered _ _ hRead
  · right
    rw [hSave]
    exact answered _ _ (Storage.read_of_write hWrite)

/-- **One step.** If it is answered by a fault it has changed nothing. -/
theorem step_eq_of_fault {r : Run} (hDocument : r.session.document.Showable) {s : Step}
    (hQuiet : s.Quiet) (hFault : (r.step s).2.isFault = true) : (r.step s).1 = r := by
  cases s with
  | edit change =>
      simp only [step] at hFault ⊢
      cases hEdit : r.session.document.edit change with
      | error fault => rfl
      | ok document =>
          obtain ⟨hShort, hFlags⟩ := hQuiet
          have hShown := hDocument.edit hShort hFlags hEdit
          simp only [hEdit] at hFault
          rw [isFault_editAnswer hEdit hShown hShort] at hFault
          cases hFault
  | save path flag callback =>
      obtain ⟨text, hText⟩ := hDocument.short.exists_render
      rcases save_of_quiet hText path flag hQuiet with hSame | hAnswered
      · show ({ r with session := (r.session.save path flag callback).1 } : Run) = r
        rw [hSame]
      · cases hAnswered.symm.trans hFault
  | stream =>
      obtain ⟨text, hText⟩ := hDocument.short.exists_render
      simp only [step, hText] at hFault
      cases hFault
  | takeManifest | showManifest | exportJson | exportCbor | placeFile =>
      simp only [step] at hFault ⊢
      repeat' split at hFault
      all_goals first | rfl | cases hFault
  | onlyIfChanged => cases hFault
  | log | writeLines | makeDirectory | generate => cases hQuiet
  | _ => rfl

/-! ## Runs -/

theorem showable_step {r : Run} (h : r.session.document.Showable) {s : Step} (hQuiet : s.Quiet) :
    (r.step s).1.session.document.Showable := by
  rcases document_step r s with hSame | ⟨change, rfl, hEdit⟩
  · rw [hSame]
    exact h
  · exact h.edit hQuiet.1 hQuiet.2 hEdit

/-- The steps of a run that are not answered by a fault. -/
def accepted : Run → List Step → List Step
  | _, [] => []
  | r, s :: rest =>
    if (r.step s).2.isFault then accepted (r.step s).1 rest else s :: accepted (r.step s).1 rest

/-- **Failed steps leave no trace.** -/
theorem steps_accepted {r : Run} (hDocument : r.session.document.Showable) {steps : List Step}
    (hQuiet : ∀ s ∈ steps, s.Quiet) :
    r.steps (r.accepted steps) =
      ((r.steps steps).1, (r.steps steps).2.filter fun answer => !answer.isFault) := by
  induction steps generalizing r with
  | nil => rfl
  | cons s rest ih =>
      have hFirst := hQuiet s List.mem_cons_self
      have hRest := ih (showable_step hDocument hFirst)
        fun t ht => hQuiet t (List.mem_cons_of_mem _ ht)
      have hSteps : r.steps (s :: rest) =
          (((r.step s).1.steps rest).1, (r.step s).2 :: ((r.step s).1.steps rest).2) := rfl
      by_cases hFault : (r.step s).2.isFault = true
      · -- the run without the step goes on from the same state
        have hSame := step_eq_of_fault hDocument hFirst hFault
        rw [accepted, if_pos hFault, hSteps, List.filter_cons_of_neg (by simp [hFault])]
        rw [hSame] at hRest ⊢
        exact hRest
      · have hNext : r.steps (s :: (r.step s).1.accepted rest) =
            (((r.step s).1.steps ((r.step s).1.accepted rest)).1,
              (r.step s).2 :: ((r.step s).1.steps ((r.step s).1.accepted rest)).2) := rfl
        rw [accepted, if_neg hFault, hSteps, List.filter_cons_of_pos (by simp [hFault]), hNext,
          hRest]

/-- A refused edge in front of the edge that is changed, and a save to a directory that is not
there in front of one that writes its file. -/
def stumbles : List Step :=
  [.edit (.edge (.many [])), .edit (.edge (.one "a.o")), .save ⟨["out", "build.ninja"]⟩ none none,
    .edit (.editEdge 0 (.rule "cc")), .save ⟨["build.ninja"]⟩ none none, .counts]

/-- The change is still one of the first edge. -/
theorem steps_accepted_small :
    accepted {} stumbles =
        [.edit (.edge (.one "a.o")), .edit (.editEdge 0 (.rule "cc")),
          .save ⟨["build.ninja"]⟩ none none, .counts] ∧
      steps {} (accepted {} stumbles) =
        ((steps {} stumbles).1, (steps {} stumbles).2.filter fun answer => !answer.isFault) := by
  constructor
  · rfl
  · have hEmpty : ({} : Document).Showable :=
      ⟨Document.short_of_no_bindings rfl rfl, by simp⟩
    apply steps_accepted hEmpty
    simp [stumbles, Step.Quiet, Document.Edit.isShort, Document.Edit.flags, Edge.Edit.isShort]

end Run

end NinjaFile
