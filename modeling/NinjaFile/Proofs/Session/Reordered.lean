import NinjaFile.Proofs.Rearranged
import NinjaFile.Session.Step

/-!
# Declarations in another order

What a declaration touches is one slot of a document (`Document.Edit.slot?`): a text of
which there is one, a list that is added to, or one field of one rule or edge. An edge
without targets is refused and touches none. Declarations that touch different slots can
be made in either order, so a session comes to the same state by rearranged declarations
if those that touch one slot keep their order and no rule or edge is changed before it is
there (`Run.steps_rearranged`).

Two declarations are compared by what they do to a document whether they are accepted or
not (`Document.declare`). Only those that meet in one list need an argument: adding behind
a list and changing an item of it commute if the item is there already
(`modify_append_of_lt`), and two changes do if they are to different items or to
different fields of one (`modify_modify_comm`).
-/

namespace NinjaFile

/-! ## Lists -/

theorem modify_append_of_lt {α : Type} {l : List α} {i : Nat} (h : i < l.length) (more : List α)
    (f : α → α) : (l ++ more).modify i f = l.modify i f ++ more := by
  have hLonger : i < (l ++ more).length := by
    rw [List.length_append]
    exact Nat.lt_add_right _ h
  rw [List.modify_eq_set_get f hLonger, List.modify_eq_set_get f h, List.set_append_left i _ h,
    List.get_eq_getElem, List.getElem_append_left h, List.get_eq_getElem]

theorem modify_modify_comm {α : Type} (f g : α → α) {i j : Nat} (l : List α)
    (h : i = j → ∀ a, g (f a) = f (g a)) :
    (l.modify i f).modify j g = (l.modify j g).modify i f := by
  by_cases hSame : i = j
  · subst hSame
    have hBoth : g ∘ f = f ∘ g := funext (h rfl)
    rw [List.modify_modify_eq, List.modify_modify_eq, hBoth]
  · exact List.modify_modify_ne f g l hSame

/-! ## Rules -/

inductive Rule.Slot where
  | command
  | description
  | depfile
  | restat
  | generator
  | pool
  deriving DecidableEq, Repr

def Rule.Edit.slot : Rule.Edit → Rule.Slot
  | .command _ => .command
  | .description _ => .description
  | .depfile _ => .depfile
  | .restat _ => .restat
  | .generator _ => .generator
  | .pool _ => .pool

theorem Rule.edit_comm (r : Rule) {a b : Edit} (h : a.slot ≠ b.slot) :
    (r.edit a).edit b = (r.edit b).edit a := by
  cases a <;> cases b <;> first | rfl | exact absurd rfl h

/-! ## Edges -/

inductive Edge.Slot where
  | rule
  | sources
  | dependencies
  | orderOnly
  | bindings
  | pool
  deriving DecidableEq, Repr

def Edge.Edit.slot : Edge.Edit → Edge.Slot
  | .rule _ => .rule
  | .sources _ => .sources
  | .dependencies _ => .dependencies
  | .orderOnly _ => .orderOnly
  | .bind _ _ => .bindings
  | .pool _ => .pool

namespace Edge

/-- The bindings of an edge after one more, or as they were if its name cannot be written. -/
def bound (e : Edge) (name value : Scalar) : List (String × Scalar) :=
  match name.text? with
  | .ok text => Entries.put (· == ·) text value e.bindings
  | .error _ => e.bindings

/-- An edge after a change, or as it was if the change is refused. -/
def declare (e : Edge) : Edit → Edge
  | .rule rule => { e with rule }
  | .sources names => { e with sources := append e.sources names }
  | .dependencies names => { e with dependencies := append e.dependencies names }
  | .orderOnly names => { e with orderOnly := append e.orderOnly names }
  | .bind name value => { e with bindings := e.bound name value }
  | .pool pool => { e with pool }

theorem declare_eq (e : Edge) (change : Edit) :
    e.declare change = (e.edit change).toOption.getD e := by
  cases change with
  | bind name value =>
      simp only [declare, bound, edit]
      cases name.text? <;> rfl
  | _ => rfl

theorem declare_comm (e : Edge) {a b : Edit} (h : a.slot ≠ b.slot) :
    (e.declare a).declare b = (e.declare b).declare a := by
  cases a <;> cases b <;> first | rfl | exact absurd rfl h

end Edge

/-! ## Documents -/

inductive Document.Slot where
  | header
  | version
  | buildDir
  | defaultTarget
  | bindings
  | rules
  | edges
  | inRule (index : Nat) (slot : Rule.Slot)
  | inEdge (index : Nat) (slot : Edge.Slot)
  deriving DecidableEq, Repr

/-- The edges that a declaration adds: none if it has no targets. -/
def Document.Edit.freshEdges : Document.Edit → List Edge
  | .edge targets => if targets.toList.isEmpty then [] else [{ targets := targets.toList }]
  | _ => []

def Document.Edit.slot? : Document.Edit → Option Document.Slot
  | .header _ => some .header
  | .version _ => some .version
  | .buildDir _ => some .buildDir
  | .defaultTarget _ => some .defaultTarget
  | .bind _ _ => some .bindings
  | .rule _ => some .rules
  | .edge targets => if targets.toList.isEmpty then none else some .edges
  | .editRule index change => some (.inRule index change.slot)
  | .editEdge index change => some (.inEdge index change.slot)

namespace Document

def hasClauseOf (d : Document) : Edit → Bool
  | .editRule index _ => decide (index < d.rules.length)
  | .editEdge index _ => decide (index < d.edges.length)
  | _ => true

/-- A document after a declaration, or as it was if the declaration is refused. -/
def declare (d : Document) : Edit → Document
  | .header header => { d with header }
  | .version version => { d with version }
  | .buildDir buildDir => { d with buildDir }
  | .defaultTarget defaultTarget => { d with defaultTarget }
  | .bind name value => d.addBinding ⟨name, value⟩
  | .rule name => d.addRule { name }
  | .edge targets => { d with edges := d.edges ++ (Edit.edge targets).freshEdges }
  | .editRule index change => { d with rules := d.rules.modify index (·.edit change) }
  | .editEdge index change => { d with edges := d.edges.modify index (·.declare change) }

/-- **What becomes of a declaration.** It is accepted, or it is refused and declares nothing. -/
theorem edit_cases (d : Document) (change : Edit) :
    (d.edit change = .ok (d.declare change) ∧ change.newEdges = change.freshEdges.length) ∨
      ∃ fault, d.edit change = .error fault ∧ d.declare change = d ∧ change.newRules = 0 ∧
        change.freshEdges = [] := by
  cases change with
  | edge targets =>
      simp only [edit, addEdge, declare, Edit.freshEdges]
      split
      · exact Or.inr ⟨_, rfl, by rw [List.append_nil], rfl, rfl⟩
      · exact Or.inl ⟨rfl, rfl⟩
  | editRule index change =>
      simp only [edit, declare, List.modify_eq_set_getElem?]
      cases d.rules[index]? with
      | none => exact Or.inr ⟨_, rfl, rfl, rfl, rfl⟩
      | some r => exact Or.inl ⟨rfl, rfl⟩
  | editEdge index change =>
      simp only [edit, declare, List.modify_eq_set_getElem?]
      cases hIndex : d.edges[index]? with
      | none => exact Or.inr ⟨_, rfl, rfl, rfl, rfl⟩
      | some e =>
          have hEdge := e.declare_eq change
          simp only [Option.map_eq_map, Option.map_some, Option.getD_some]
          cases hEdit : e.edit change with
          | ok e' =>
              rw [hEdit] at hEdge
              exact Or.inl ⟨by rw [hEdge]; rfl, rfl⟩
          | error fault =>
              rw [hEdit] at hEdge
              refine Or.inr ⟨_, rfl, ?_, rfl, rfl⟩
              obtain ⟨hBound, hItem⟩ := List.getElem?_eq_some_iff.1 hIndex
              rw [show e.declare change = d.edges[index] from hEdge.trans hItem.symm,
                List.set_getElem_self]
  | _ => exact Or.inl ⟨rfl, rfl⟩

theorem hasClauseOf_declare {d : Document} {change : Edit} (h : d.hasClauseOf change = true)
    (other : Edit) : (d.declare other).hasClauseOf change = true := by
  have hRules : d.rules.length ≤ (d.declare other).rules.length := by
    cases other with
    | rule name => exact (List.sublist_append_left _ _).length_le
    | editRule index change => exact Nat.le_of_eq (List.length_modify _ _ _).symm
    | _ => exact Nat.le_refl _
  have hEdges : d.edges.length ≤ (d.declare other).edges.length := by
    cases other with
    | edge targets => exact (List.sublist_append_left _ _).length_le
    | editEdge index change => exact Nat.le_of_eq (List.length_modify _ _ _).symm
    | _ => exact Nat.le_refl _
  cases change with
  | editRule index change => exact decide_eq_true (Nat.lt_of_lt_of_le (of_decide_eq_true h) hRules)
  | editEdge index change => exact decide_eq_true (Nat.lt_of_lt_of_le (of_decide_eq_true h) hEdges)
  | _ => rfl

theorem freshEdges_comm {first second : Names}
    (h : ∀ k, (Edit.edge first).slot? = some k → (Edit.edge second).slot? ≠ some k) :
    (Edit.edge first).freshEdges ++ (Edit.edge second).freshEdges =
      (Edit.edge second).freshEdges ++ (Edit.edge first).freshEdges := by
  by_cases hFirst : first.toList.isEmpty = true
  · simp only [Edit.freshEdges, if_pos hFirst, List.nil_append, List.append_nil]
  · by_cases hSecond : second.toList.isEmpty = true
    · simp only [Edit.freshEdges, if_pos hSecond, List.nil_append, List.append_nil]
    · exact absurd (if_neg hSecond) (h .edges (if_neg hFirst))

theorem declare_rule_comm {d : Document} {index : Nat} (h : index < d.rules.length) (name : String)
    (change : Rule.Edit) :
    (d.declare (.rule name)).declare (.editRule index change) =
      (d.declare (.editRule index change)).declare (.rule name) :=
  congrArg (fun rules => { d with rules }) (modify_append_of_lt h [{ name }] (·.edit change))

theorem declare_edge_comm {d : Document} {index : Nat} (h : index < d.edges.length)
    (targets : Names) (change : Edge.Edit) :
    (d.declare (.edge targets)).declare (.editEdge index change) =
      (d.declare (.editEdge index change)).declare (.edge targets) :=
  congrArg (fun edges => { d with edges })
    (modify_append_of_lt h (Edit.edge targets).freshEdges (·.declare change))

/-- **Independent declarations commute.** -/
theorem declare_comm {d : Document} {a b : Edit} (hFirst : d.hasClauseOf a = true)
    (hSecond : d.hasClauseOf b = true) (h : ∀ k, a.slot? = some k → b.slot? ≠ some k) :
    (d.declare a).declare b = (d.declare b).declare a := by
  cases a with
  | header | version | buildDir | defaultTarget | bind =>
      cases b <;> first | rfl | exact absurd rfl (h _ rfl)
  | rule name =>
      cases b with
      | rule => exact absurd rfl (h _ rfl)
      | editRule index change => exact declare_rule_comm (of_decide_eq_true hSecond) name change
      | _ => rfl
  | edge targets =>
      cases b with
      | edge others => simp only [declare, List.append_assoc, freshEdges_comm h]
      | editEdge index change =>
          exact declare_edge_comm (of_decide_eq_true hSecond) targets change
      | _ => rfl
  | editRule index change =>
      cases b with
      | rule name => exact (declare_rule_comm (of_decide_eq_true hFirst) name change).symm
      | editRule other change' =>
          have hDiffer (hSame : index = other) : change.slot ≠ change'.slot := by
            intro hSlot
            refine h (.inRule index change.slot) rfl ?_
            rw [hSame, hSlot]
            rfl
          exact congrArg (fun rules => { d with rules })
            (modify_modify_comm (·.edit change) (·.edit change') d.rules
              fun hSame r => r.edit_comm (hDiffer hSame))
      | _ => rfl
  | editEdge index change =>
      cases b with
      | edge targets => exact (declare_edge_comm (of_decide_eq_true hFirst) targets change).symm
      | editEdge other change' =>
          have hDiffer (hSame : index = other) : change.slot ≠ change'.slot := by
            intro hSlot
            refine h (.inEdge index change.slot) rfl ?_
            rw [hSame, hSlot]
            rfl
          exact congrArg (fun edges => { d with edges })
            (modify_modify_comm (·.declare change) (·.declare change') d.edges
              fun hSame e => e.declare_comm (hDiffer hSame))
      | _ => rfl

end Document

/-! ## Sessions -/

namespace Run

theorem fst_step_edit (r : Run) (change : Document.Edit) :
    (r.step (.edit change)).1 =
      { r with session := { r.session with
        document := r.session.document.declare change
        ruleCount := r.session.ruleCount + change.newRules
        edgeCount := r.session.edgeCount + change.freshEdges.length } } := by
  rcases r.session.document.edit_cases change with
    ⟨hEdit, hEdges⟩ | ⟨fault, hEdit, hSame, hRules, hEdges⟩
  · simp only [step, hEdit, hEdges]
  · simp only [step, hEdit, hSame, hRules, hEdges]
    rfl

def declarations : Calls Run Document.Edit Document.Slot where
  call r change := (r.step (.edit change)).1
  Ready r change := r.session.document.hasClauseOf change = true
  slot? := Document.Edit.slot?

theorem lawful_declarations : declarations.Lawful where
  ready := by
    intro r a b hReady
    show (r.step (.edit a)).1.session.document.hasClauseOf b = true
    rw [fst_step_edit]
    exact Document.hasClauseOf_declare hReady a
  swap := by
    intro r a b hFirst hSecond hIndependent
    have hDocument := Document.declare_comm hFirst hSecond hIndependent
    show ((r.step (.edit a)).1.step (.edit b)).1 = ((r.step (.edit b)).1.step (.edit a)).1
    simp only [fst_step_edit, hDocument, Nat.add_right_comm _ a.newRules,
      Nat.add_right_comm _ a.freshEdges.length]

theorem run_declarations (r : Run) (changes : List Document.Edit) :
    (r.steps (changes.map .edit)).1 = declarations.run r changes := by
  induction changes generalizing r with
  | nil => rfl
  | cons change rest ih => exact ih (r.step (.edit change)).1

/-- **The order of independent declarations does not matter.** Two sequences of the same
declarations, refused ones among them, lead to the same session and so to the same text, digest,
manifest and counts, if no rule or edge is changed before it is there and the declarations that
touch one slot have the same order. -/
theorem steps_rearranged {r : Run} {first second : List Document.Edit}
    (hFirst : declarations.Scoped r first) (hSecond : declarations.Scoped r second)
    (h : declarations.Rearranged first second) :
    (r.steps (first.map .edit)).1 = (r.steps (second.map .edit)).1 := by
  rw [run_declarations, run_declarations]
  exact Calls.run_eq_of_rearranged lawful_declarations hFirst hSecond h

instance (r : Run) (change : Document.Edit) : Decidable (declarations.Ready r change) :=
  inferInstanceAs (Decidable (_ = true))

/-- Declarations in the order of a build file, with one that is refused. -/
def orderly : List Document.Edit :=
  [.header (some "generated"), .rule "cc", .editRule 0 (.command "cc -c $in"), .edge (.many []),
    .edge (.one "a.o"), .editEdge 0 (.rule "cc"), .editEdge 0 (.sources (.one "a.c")),
    .editEdge 0 (.sources (.one "b.c")), .bind (.text "opt") (.int 2)]

def disorderly : List Document.Edit :=
  [.bind (.text "opt") (.int 2), .edge (.one "a.o"), .editEdge 0 (.sources (.one "a.c")),
    .rule "cc", .editEdge 0 (.sources (.one "b.c")), .header (some "generated"),
    .editEdge 0 (.rule "cc"), .editRule 0 (.command "cc -c $in"), .edge (.many [])]

/-- The two sources of the edge are the only declarations here that touch one slot. -/
theorem steps_rearranged_small :
    declarations.Scoped {} orderly ∧ declarations.Scoped {} disorderly ∧
      declarations.Rearranged orderly disorderly ∧
      (steps {} (orderly.map .edit)).1 = (steps {} (disorderly.map .edit)).1 := by
  have hFirst : declarations.Scoped {} orderly := by decide
  have hSecond : declarations.Scoped {} disorderly := by decide
  have hRearranged : declarations.Rearranged orderly disorderly := by decide
  exact ⟨hFirst, hSecond, hRearranged, steps_rearranged hFirst hSecond hRearranged⟩

end Run

end NinjaFile
