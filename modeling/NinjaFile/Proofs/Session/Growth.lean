import NinjaFile.Proofs.Session.Counts

/-!
# Declarations are only added to

Whatever the later steps of a session are, nothing that was declared is taken back
(`Run.grows_steps`). Rules, edges and bindings keep their places, names, targets and
values, and an edge only gets more inputs and more names that it binds. A rule may get
another command and an edge another rule: those are not part of the relation
`Document.Grows`.

It is enough to look at one accepted declaration (`Document.grows_edit`), since growing
is a preorder. The last theorem puts this together with what holds of every state of a
session by itself: the counts are right, and every edge has a target and binds no name
twice.
-/

namespace NinjaFile

theorem map_set_of_eq {α β : Type} {f : α → β} {l : List α} {i : Nat} {a b : α}
    (h : l[i]? = some a) (hSame : f b = f a) : (l.set i b).map f = l.map f := by
  obtain ⟨hBound, hItem⟩ := List.getElem?_eq_some_iff.1 h
  have hBound' : i < (l.map f).length := by rwa [List.length_map]
  have hMapped : (l.map f)[i] = f a := by rw [List.getElem_map, hItem]
  rw [List.map_set, hSame, ← hMapped, List.set_getElem_self]

/-! ## Edges -/

namespace Edge

/-- A list of inputs that has at most been added to. Once it is set it stays so. -/
structure InputsGrow (inputs inputs' : Option (List String)) : Prop where
  set : inputs.isSome = true → inputs'.isSome = true
  names : inputs.getD [] <+: inputs'.getD []

protected theorem InputsGrow.refl (inputs : Option (List String)) : InputsGrow inputs inputs :=
  ⟨id, List.prefix_rfl⟩

theorem InputsGrow.trans {a b c : Option (List String)} (h : InputsGrow a b)
    (h' : InputsGrow b c) : InputsGrow a c :=
  ⟨h'.set ∘ h.set, h.names.trans h'.names⟩

theorem inputsGrow_append (inputs : Option (List String)) (more : Names) :
    InputsGrow inputs (append inputs more) :=
  ⟨fun _ => rfl, List.prefix_append _ _⟩

/-- An edge that has at most been added to: it has more inputs behind those it had, and it binds
more names behind those it bound. -/
structure Grows (e e' : Edge) : Prop where
  sources : InputsGrow e.sources e'.sources
  dependencies : InputsGrow e.dependencies e'.dependencies
  orderOnly : InputsGrow e.orderOnly e'.orderOnly
  names : e.bindings.map Prod.fst <+: e'.bindings.map Prod.fst

protected theorem Grows.refl (e : Edge) : e.Grows e :=
  ⟨.refl _, .refl _, .refl _, List.prefix_rfl⟩

theorem Grows.trans {a b c : Edge} (h : a.Grows b) (h' : b.Grows c) : a.Grows c :=
  ⟨h.sources.trans h'.sources, h.dependencies.trans h'.dependencies,
    h.orderOnly.trans h'.orderOnly, h.names.trans h'.names⟩

/-- **One change to an edge** adds to it and keeps its targets. -/
theorem grows_edit {e e' : Edge} {change : Edit} (h : e.edit change = .ok e') :
    e.Grows e' ∧ e'.targets = e.targets := by
  cases change with
  | bind name value =>
      obtain ⟨text, -, hPut⟩ := Outcome.bind_eq_ok.1 h
      cases hPut
      refine ⟨⟨.refl _, .refl _, .refl _, ?_⟩, rfl⟩
      -- a name that is bound already keeps its place
      show _ <+: (Entries.put (· == ·) text value e.bindings).map Prod.fst
      rw [Entries.keys_put]
      split
      · exact List.prefix_rfl
      · exact List.prefix_append _ _
  | sources names =>
      cases h
      exact ⟨⟨inputsGrow_append _ _, .refl _, .refl _, List.prefix_rfl⟩, rfl⟩
  | dependencies names =>
      cases h
      exact ⟨⟨.refl _, inputsGrow_append _ _, .refl _, List.prefix_rfl⟩, rfl⟩
  | orderOnly names =>
      cases h
      exact ⟨⟨.refl _, .refl _, inputsGrow_append _ _, List.prefix_rfl⟩, rfl⟩
  | rule | pool =>
      cases h
      exact ⟨⟨.refl _, .refl _, .refl _, List.prefix_rfl⟩, rfl⟩

end Edge

/-! ## Documents -/

structure Document.Grows (d d' : Document) : Prop where
  /-- Rules keep their places and names. -/
  rules : d.rules.map (·.name) <+: d'.rules.map (·.name)
  /-- Edges keep their places and targets. -/
  targets : d.edges.map (·.targets) <+: d'.edges.map (·.targets)
  /-- Bindings keep their places, names and values. -/
  bindings : d.bindings <+: d'.bindings
  /-- Each edge has at most been added to. -/
  edges : ∀ (i : Nat) (e : Edge), d.edges[i]? = some e → ∃ e', d'.edges[i]? = some e' ∧ e.Grows e'

namespace Document

protected theorem Grows.refl (d : Document) : d.Grows d :=
  ⟨List.prefix_rfl, List.prefix_rfl, List.prefix_rfl, fun _ e he => ⟨e, he, .refl e⟩⟩

theorem Grows.trans {a b c : Document} (h : a.Grows b) (h' : b.Grows c) : a.Grows c where
  rules := h.rules.trans h'.rules
  targets := h.targets.trans h'.targets
  bindings := h.bindings.trans h'.bindings
  edges := by
    intro i e he
    obtain ⟨e', he', hGrows⟩ := h.edges i e he
    obtain ⟨e'', he'', hGrows'⟩ := h'.edges i e' he'
    exact ⟨e'', he'', hGrows.trans hGrows'⟩

theorem edges_append {edges more : List Edge} (i : Nat) (e : Edge) (he : edges[i]? = some e) :
    ∃ e', (edges ++ more)[i]? = some e' ∧ e.Grows e' := by
  obtain ⟨hBound, -⟩ := List.getElem?_eq_some_iff.1 he
  exact ⟨e, by rwa [List.getElem?_append_left hBound], .refl e⟩

theorem edges_set {edges : List Edge} {index : Nat} {e e' : Edge} (hIndex : edges[index]? = some e)
    (hGrows : e.Grows e') (i : Nat) (f : Edge) (hf : edges[i]? = some f) :
    ∃ f', (edges.set index e')[i]? = some f' ∧ f.Grows f' := by
  by_cases hSame : index = i
  · subst hSame
    obtain ⟨hBound, -⟩ := List.getElem?_eq_some_iff.1 hf
    cases hIndex.symm.trans hf
    exact ⟨e', List.getElem?_set_self hBound, hGrows⟩
  · exact ⟨f, by rwa [List.getElem?_set_ne hSame], .refl f⟩

/-- **One accepted declaration.** -/
theorem grows_edit {d d' : Document} {change : Edit} (h : d.edit change = .ok d') : d.Grows d' := by
  have hSelf := Grows.refl d
  cases change with
  | bind name value =>
      cases h
      exact ⟨hSelf.rules, hSelf.targets, List.prefix_append _ _, hSelf.edges⟩
  | rule name =>
      cases h
      refine ⟨?_, hSelf.targets, hSelf.bindings, hSelf.edges⟩
      rw [addRule, List.map_append]
      exact List.prefix_append _ _
  | edge targets =>
      obtain ⟨-, rfl⟩ := edit_edge_eq_ok.1 h
      refine ⟨hSelf.rules, ?_, hSelf.bindings, edges_append⟩
      rw [List.map_append]
      exact List.prefix_append _ _
  | editRule index change =>
      obtain ⟨r, hIndex, rfl⟩ := edit_editRule_eq_ok.1 h
      -- no change to a rule is one of its name
      have hName : (r.edit change).name = r.name := by cases change <;> rfl
      have hNames : (d.rules.set index (r.edit change)).map (·.name) = d.rules.map (·.name) :=
        map_set_of_eq hIndex hName
      exact ⟨hNames ▸ List.prefix_rfl, hSelf.targets, hSelf.bindings, hSelf.edges⟩
  | editEdge index change =>
      obtain ⟨e, e', hIndex, hEdge, rfl⟩ := edit_editEdge_eq_ok.1 h
      obtain ⟨hGrows, hTargets⟩ := Edge.grows_edit hEdge
      have hSame : (d.edges.set index e').map (·.targets) = d.edges.map (·.targets) :=
        map_set_of_eq hIndex hTargets
      exact ⟨hSelf.rules, hSame ▸ List.prefix_rfl, hSelf.bindings, edges_set hIndex hGrows⟩
  | _ =>
      cases h
      exact ⟨hSelf.rules, hSelf.targets, hSelf.bindings, hSelf.edges⟩

end Document

/-! ## Sessions -/

namespace Run

/-- **One step**, whether it fails or not. -/
theorem grows_step (r : Run) (s : Step) :
    r.session.document.Grows (r.step s).1.session.document := by
  rcases document_step r s with hSame | ⟨change, -, hEdit⟩
  · rw [hSame]
    exact .refl _
  · exact Document.grows_edit hEdit

/-- **Whole runs.** -/
theorem grows_steps (r : Run) (steps : List Step) :
    r.session.document.Grows (r.steps steps).1.session.document := by
  induction steps generalizing r with
  | nil => exact .refl _
  | cons s rest ih => exact (grows_step r s).trans (ih _)

/-- **Declarations are only added to.** From any state of a session its document grows, whatever
the next steps are. In the state itself the counts that it answers are the numbers of rules and
edges that its manifest records, and every edge has a target and binds no name twice. -/
theorem declarations_stay {r : Run} (h : r.Reachable) :
    (∀ steps, r.session.document.Grows (r.steps steps).1.session.document) ∧
      (r.step .counts).2 =
        .counts r.session.document.rules.length r.session.document.edges.length ∧
      (∀ m, Manifest.ofDocument r.session.document = .ok m →
        (r.step .counts).2 = .counts m.rules.length m.edges.length) ∧
      ∀ e ∈ r.session.document.edges, e.targets ≠ [] ∧ (e.bindings.map Prod.fst).Nodup := by
  have hCounts : (r.step .counts).2 =
      .counts r.session.document.rules.length r.session.document.edges.length := by
    show Answer.counts r.session.ruleCount r.session.edgeCount = _
    rw [h.counted.rules, h.counted.edges]
  refine ⟨grows_steps r, hCounts, ?_, ?_⟩
  · intro m hTaken
    obtain ⟨hRules, hEdges⟩ := Manifest.length_of_ofDocument hTaken
    rw [hRules, hEdges]
    exact hCounts
  · intro e he
    have hSound := h.document.sound e he
    exact ⟨hSound.target, hSound.names⟩

/-- The beginning of a session that declares a rule and an edge, and tries an edge without
targets. -/
def opening : Run :=
  (steps {} [.edit (.rule "cc"), .edit (.edge (.many [])), .edit (.edge (.one "a.o")),
    .edit (.editEdge 0 (.bind (.text "opt") (.int 2)))]).1

/-- An edge that is changed keeps the names it binds, and the one that was refused is not counted. -/
theorem declarations_stay_small :
    opening.Reachable ∧ opening.session.document.edges.length = 1 ∧
      (opening.step .counts).2 = .counts 1 1 ∧
      opening.session.document.Grows (opening.steps
        [.edit (.editEdge 0 (.bind (.text "std") (.int 11))), .edit (.edge (.one "b.o")),
          .edit (.editEdge 0 (.bind (.text "opt") (.int 3)))]).1.session.document := by
  have hOpening : opening.Reachable := (Reachable.start {} {} {}).steps _
  obtain ⟨hGrows, hCounts, -, -⟩ := declarations_stay hOpening
  exact ⟨hOpening, rfl, hCounts, hGrows _⟩

end Run

end NinjaFile
