import NinjaFile.Proofs.Tables
import NinjaFile.Session.Step

/-!
# Reachable documents

A builder starts with an empty document and changes it by declarations. One that
is refused changes nothing, so the reachable documents are those that accepted
declarations lead to. What holds of every edge of a reachable document is an
invariant of the single edge (`Edge.Sound`), kept by each change to it.

The last section ties the notion to sessions: whatever the steps of a session
are, the document is only ever changed by declarations.
-/

namespace NinjaFile

/-- The documents that declarations lead to. Those that are refused leave a document as it is. -/
inductive Document.Reachable : Document → Prop where
  | start : Reachable {}
  | edit {d d' : Document} {change : Document.Edit} (before : Reachable d)
      (accepted : d.edit change = .ok d') : Reachable d'

/-! ## Accepted declarations -/

namespace Document

variable {d d' : Document}

theorem edit_edge_eq_ok {targets : Names} :
    d.edit (.edge targets) = .ok d' ↔
      targets.toList ≠ [] ∧ d' = { d with edges := d.edges ++ [{ targets := targets.toList }] } := by
  rw [edit, addEdge]
  by_cases hTargets : targets.toList.isEmpty = true
  · rw [if_pos hTargets]
    constructor
    · intro h
      cases h
    · rintro ⟨hSome, -⟩
      exact absurd (List.isEmpty_iff.1 hTargets) hSome
  · rw [if_neg hTargets]
    constructor
    · intro h
      cases h
      exact ⟨fun hNone => hTargets (List.isEmpty_iff.2 hNone), rfl⟩
    · rintro ⟨-, rfl⟩
      rfl

theorem edit_editRule_eq_ok {index : Nat} {change : Rule.Edit} :
    d.edit (.editRule index change) = .ok d' ↔
      ∃ r, d.rules[index]? = some r ∧ d' = { d with rules := d.rules.set index (r.edit change) } := by
  rw [edit]
  cases d.rules[index]? with
  | none => simp
  | some r => simp [eq_comm]

theorem edit_editEdge_eq_ok {index : Nat} {change : Edge.Edit} :
    d.edit (.editEdge index change) = .ok d' ↔
      ∃ e e', d.edges[index]? = some e ∧ e.edit change = .ok e' ∧
        d' = { d with edges := d.edges.set index e' } := by
  rw [edit]
  cases d.edges[index]? with
  | none => simp
  | some e =>
      constructor
      · intro h
        obtain ⟨e', hEdge, hSet⟩ := Outcome.bind_eq_ok.1 h
        cases hSet
        exact ⟨e, e', rfl, Fault.ofOverlong_eq_ok.1 hEdge, rfl⟩
      · rintro ⟨_, e', hSame, hEdge, rfl⟩
        cases hSame
        exact Outcome.bind_eq_ok.2 ⟨e', Fault.ofOverlong_eq_ok.2 hEdge, rfl⟩

end Document

/-! ## Edges -/

/-- What holds of an edge however it came about: it has a target, and no name is bound twice. -/
structure Edge.Sound (e : Edge) : Prop where
  target : e.targets ≠ []
  names : (e.bindings.map Prod.fst).Nodup

theorem Edge.Sound.edit {e e' : Edge} {change : Edge.Edit} (h : e.Sound)
    (hEdit : e.edit change = .ok e') : e'.Sound := by
  cases change with
  | bind name value =>
      obtain ⟨text, -, hPut⟩ := Outcome.bind_eq_ok.1 hEdit
      cases hPut
      exact ⟨h.target, Entries.distinct_iff_nodup.1
        (Entries.distinct_put (Entries.distinct_iff_nodup.2 h.names))⟩
  | _ =>
      cases hEdit
      exact ⟨h.target, h.names⟩

namespace Document

/-- After a declaration every edge is one from before, a fresh one with a target, or one from before
with a change of its own. -/
theorem mem_edges_of_edit {d d' : Document} {change : Edit} (h : d.edit change = .ok d')
    {e : Edge} (he : e ∈ d'.edges) :
    e ∈ d.edges ∨ (∃ targets, targets ≠ [] ∧ e = { targets }) ∨
      ∃ e₀ ∈ d.edges, ∃ change, e₀.edit change = .ok e := by
  cases change with
  | edge targets =>
      obtain ⟨hTargets, rfl⟩ := edit_edge_eq_ok.1 h
      rcases List.mem_append.1 he with he | he
      · exact Or.inl he
      · rw [List.mem_singleton] at he
        exact Or.inr (Or.inl ⟨targets.toList, hTargets, he⟩)
  | editRule index change =>
      obtain ⟨r, -, rfl⟩ := edit_editRule_eq_ok.1 h
      exact Or.inl he
  | editEdge index change =>
      obtain ⟨e₀, e₁, hIndex, hEdge, rfl⟩ := edit_editEdge_eq_ok.1 h
      rcases List.mem_or_eq_of_mem_set he with he | rfl
      · exact Or.inl he
      · exact Or.inr (Or.inr ⟨e₀, List.mem_of_getElem? hIndex, change, hEdge⟩)
  | _ =>
      cases h
      exact Or.inl he

/-- Every edge of a reachable document has a target and binds no name twice. -/
theorem Reachable.sound {d : Document} (h : d.Reachable) : ∀ e ∈ d.edges, e.Sound := by
  induction h with
  | start =>
      intro e he
      cases he
  | edit before accepted ih =>
      intro e he
      rcases mem_edges_of_edit accepted he with he | ⟨targets, hTargets, rfl⟩ | ⟨e₀, he₀, c, hEdit⟩
      · exact ih e he
      · exact ⟨hTargets, List.nodup_nil⟩
      · exact (ih e₀ he₀).edit hEdit

theorem Reachable.edits {d d' : Document} (h : d.Reachable) (changes : List Edit)
    (hEdits : d.edits changes = .ok d') : d'.Reachable := by
  induction changes generalizing d with
  | nil =>
      cases hEdits
      exact h
  | cons change changes ih =>
      obtain ⟨next, hNext, hRest⟩ := Outcome.bind_eq_ok.1 hEdits
      exact ih (.edit h hNext) hRest

end Document

/-! ## Sessions -/

theorem Session.fst_finish (s : Session) (opened : Bool) (callback : Option Callback) :
    (s.finish opened callback).1 = s := by
  cases callback <;> rfl

namespace Run

/-- A save changes the files and the journal, and nothing else of its session. -/
theorem exists_save (s : Session) (p : Path) (flag : Option Bool) (callback : Option Callback) :
    ∃ journal storage, (s.save p flag callback).1 = { s with journal, storage } := by
  have hPersist : ∃ journal storage,
      (s.persist p callback).1 = { s with journal, storage } := by
    unfold Session.persist
    split
    · exact ⟨_, _, rfl⟩
    · split
      · exact ⟨_, _, rfl⟩
      · exact ⟨_, _, Session.fst_finish _ _ _⟩
  unfold Session.save
  split
  · split
    · exact ⟨_, _, rfl⟩
    · exact ⟨_, _, Session.fst_finish _ _ _⟩
    · exact hPersist
  · exact hPersist

theorem document_save (s : Session) (p : Path) (flag : Option Bool)
    (callback : Option Callback) : (s.save p flag callback).1.document = s.document := by
  obtain ⟨journal, storage, hSave⟩ := exists_save s p flag callback
  rw [hSave]

/-- **One step.** It leaves the document and the counts alone, or it is an accepted declaration and
adds to the counts what that declares. -/
theorem declared_step (r : Run) (s : Step) :
    ((r.step s).1.session.document = r.session.document ∧
      (r.step s).1.session.ruleCount = r.session.ruleCount ∧
      (r.step s).1.session.edgeCount = r.session.edgeCount) ∨
    ∃ change, s = .edit change ∧
      r.session.document.edit change = .ok (r.step s).1.session.document ∧
      (r.step s).1.session.ruleCount = r.session.ruleCount + change.newRules ∧
      (r.step s).1.session.edgeCount = r.session.edgeCount + change.newEdges := by
  cases s with
  | edit change =>
      simp only [step]
      cases hEdit : r.session.document.edit change with
      | error fault => exact Or.inl ⟨rfl, rfl, rfl⟩
      | ok document => exact Or.inr ⟨change, rfl, hEdit, rfl, rfl⟩
  | save path flag callback =>
      left
      obtain ⟨journal, storage, hSave⟩ := exists_save r.session path flag callback
      show (r.session.save path flag callback).1.document = _ ∧
        (r.session.save path flag callback).1.ruleCount = _ ∧
        (r.session.save path flag callback).1.edgeCount = _
      rw [hSave]
      exact ⟨rfl, rfl, rfl⟩
  | takeManifest | showManifest | exportJson | exportCbor | placeFile =>
      left
      simp only [step]
      repeat' split
      all_goals exact ⟨rfl, rfl, rfl⟩
  | _ => exact Or.inl ⟨rfl, rfl, rfl⟩

theorem document_step (r : Run) (s : Step) :
    (r.step s).1.session.document = r.session.document ∨
      ∃ change, s = .edit change ∧
        r.session.document.edit change = .ok (r.step s).1.session.document := by
  rcases declared_step r s with ⟨hSame, -⟩ | ⟨change, hStep, hEdit, -⟩
  · exact Or.inl hSame
  · exact Or.inr ⟨change, hStep, hEdit⟩

/-- **Whole runs.** From a reachable document a session gets to reachable documents only. -/
theorem reachable_steps {r : Run} (h : r.session.document.Reachable) (steps : List Step) :
    (r.steps steps).1.session.document.Reachable := by
  induction steps generalizing r with
  | nil => exact h
  | cons s rest ih =>
      have hNext : (r.step s).1.session.document.Reachable := by
        rcases document_step r s with hSame | ⟨change, -, hEdit⟩
        · rw [hSame]
          exact h
        · exact .edit h hEdit
      exact ih hNext

end Run

end NinjaFile
