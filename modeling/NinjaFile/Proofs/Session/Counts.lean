import NinjaFile.Config
import NinjaFile.Proofs.Reachable

/-!
# Counted declarations

A session counts rules and edges as they are declared, and keeps the rules and edges
themselves in lists. The counts follow the lists (`Run.Reachable.counted`): an accepted
declaration adds to a list exactly what it adds to the count (`Document.length_of_edit`),
and no other step touches either (`Run.declared_step`).
-/

namespace NinjaFile

theorem Document.length_of_edit {d d' : Document} {change : Edit} (h : d.edit change = .ok d') :
    d'.rules.length = d.rules.length + change.newRules ∧
      d'.edges.length = d.edges.length + change.newEdges := by
  cases change with
  | rule name =>
      cases h
      exact ⟨List.length_append, rfl⟩
  | edge targets =>
      obtain ⟨-, rfl⟩ := edit_edge_eq_ok.1 h
      exact ⟨rfl, List.length_append⟩
  | editRule index change =>
      obtain ⟨r, -, rfl⟩ := edit_editRule_eq_ok.1 h
      exact ⟨List.length_set, rfl⟩
  | editEdge index change =>
      obtain ⟨e, e', -, -, rfl⟩ := edit_editEdge_eq_ok.1 h
      exact ⟨rfl, List.length_set⟩
  | _ =>
      cases h
      exact ⟨rfl, rfl⟩

structure Session.Counted (s : Session) : Prop where
  rules : s.ruleCount = s.document.rules.length
  edges : s.edgeCount = s.document.edges.length

theorem Manifest.length_of_ofDocument {d : Document} {m : Manifest} (h : ofDocument d = .ok m) :
    m.rules.length = d.rules.length ∧ m.edges.length = d.edges.length := by
  obtain ⟨_, -, hManifest⟩ := Outcome.bind_eq_ok.1 h
  cases hManifest
  exact ⟨List.length_map _, List.length_map _⟩

namespace Run

/-- The runs that come about: a session is started by a configuration, with any files and with a
journal that may hold records already, and goes on by steps. -/
inductive Reachable : Run → Prop where
  | start (c : Config) (journal : Journal) (storage : Storage) :
      Reachable { session := { Session.ofConfig c journal with storage } }
  | step {r : Run} (before : Reachable r) (s : Step) : Reachable (r.step s).1

theorem Reachable.steps {r : Run} (h : r.Reachable) (steps : List Step) :
    (r.steps steps).1.Reachable := by
  induction steps generalizing r with
  | nil => exact h
  | cons s rest ih => exact ih (h.step s)

/-! ## Steps -/

theorem counted_step {r : Run} (h : r.session.Counted) (s : Step) :
    (r.step s).1.session.Counted := by
  rcases declared_step r s with ⟨hDocument, hRules, hEdges⟩ | ⟨change, -, hEdit, hRules, hEdges⟩
  · constructor
    · rw [hRules, hDocument, h.rules]
    · rw [hEdges, hDocument, h.edges]
  · obtain ⟨hMoreRules, hMoreEdges⟩ := Document.length_of_edit hEdit
    constructor
    · rw [hRules, hMoreRules, h.rules]
    · rw [hEdges, hMoreEdges, h.edges]

/-! ## Whole runs -/

/-- **The counts are right in every state of a session.** -/
theorem Reachable.counted {r : Run} (h : r.Reachable) : r.session.Counted := by
  induction h with
  | start c journal storage => exact ⟨rfl, rfl⟩
  | step before s ih => exact counted_step ih s

theorem Reachable.document {r : Run} (h : r.Reachable) : r.session.document.Reachable := by
  induction h with
  | start c journal storage =>
      exact Document.Reachable.start.edits [.header c.header, .version c.requiredVersion,
        .buildDir c.buildDir, .defaultTarget c.defaultTarget] rfl
  | step before s ih => exact reachable_steps ih [s]

end Run

end NinjaFile
