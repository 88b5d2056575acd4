import NinjaFile.Proofs.Session.Short
import NinjaFile.Proofs.Tables

/-!
# What changes make of an edge

An edge is declared by its targets and changed any number of times. What it is in the
end can be told from the changes alone (`Edge.ofChanges`): each of the three lists has
all names that were added to it, in order; a name is bound where it was first bound, to
the value it was last bound to; rule and pool are the last ones given.

It is enough that one more change makes of an edge what the changes up to it say
(`Edge.edit_ofChanges`), one case for each kind of change. Text and record of the edge
are then told from the changes as well (`Edge.edits_eq_ofChanges`). They differ in what
they make of a list that got no names: the text leaves it out, and the record only if no
change was about it.
-/

namespace NinjaFile.Edge

/-! ## Changes -/

namespace Edit

def sources? : Edit → Option Names
  | .sources names => some names
  | _ => none

def dependencies? : Edit → Option Names
  | .dependencies names => some names
  | _ => none

def orderOnly? : Edit → Option Names
  | .orderOnly names => some names
  | _ => none

/-- The text of the name that a change binds, and the value. -/
def binding? : Edit → Option (String × Scalar)
  | .bind name value => some (name.shown, value)
  | _ => none

def rule? : Edit → Option String
  | .rule name => some name
  | _ => none

/-- The pool that a change gives, which may be none. -/
def pool? : Edit → Option (Option String)
  | .pool name => some name
  | _ => none

end Edit

/-- An edge after several changes, up to the first that is refused. -/
def edits (e : Edge) (changes : List Edit) : Except Numeral.Overlong Edge :=
  changes.foldlM edit e

/-! ## The edge that changes tell -/

def lastRule (changes : List Edit) : String :=
  (changes.filterMap Edit.rule?).getLast?.getD Rule.phony

/-- The pool that was given last, if it was not none. -/
def lastPool (changes : List Edit) : Option String :=
  (changes.filterMap Edit.pool?).getLast?.join

/-- Every name that was bound, in order of the first bindings, with the value it was last bound
to. -/
def lastBindings (changes : List Edit) : List (String × Scalar) :=
  Entries.latest (changes.filterMap Edit.binding?)

/-- A list of inputs to which names were added, one call after the other. -/
def inputsOf (added : List Names) : Option (List String) :=
  if added.isEmpty then none else some (added.flatMap Names.toList)

def ofChanges (targets : Names) (changes : List Edit) : Edge where
  targets := targets.toList
  rule := lastRule changes
  sources := inputsOf (changes.filterMap Edit.sources?)
  dependencies := inputsOf (changes.filterMap Edit.dependencies?)
  orderOnly := inputsOf (changes.filterMap Edit.orderOnly?)
  bindings := lastBindings changes
  pool := lastPool changes

/-! ## One more change -/

theorem getD_inputsOf (added : List Names) :
    (inputsOf added).getD [] = added.flatMap Names.toList := by
  cases added <;> rfl

theorem inputsOf_append (added : List Names) (names : Names) :
    inputsOf (added ++ [names]) = append (inputsOf added) names := by
  rw [append, getD_inputsOf, inputsOf, if_neg (by simp), List.flatMap_append, List.flatMap_cons,
    List.flatMap_nil, List.append_nil]

/-- **One change** makes of an edge what the changes up to it say. -/
theorem edit_ofChanges (targets : Names) (changes : List Edit) {change : Edit}
    (hShort : change.isShort = true) :
    (ofChanges targets changes).edit change = .ok (ofChanges targets (changes ++ [change])) := by
  cases change with
  | bind name value =>
      obtain ⟨text, hText⟩ := Scalar.exists_text? (Bool.and_eq_true_iff.1 hShort).1
      have hShown := Scalar.shown_eq hText
      simp only [edit, hText, ofChanges, lastRule, lastPool, lastBindings, List.filterMap_append,
        List.filterMap_cons, List.filterMap_nil, Edit.rule?, Edit.sources?, Edit.dependencies?,
        Edit.orderOnly?, Edit.binding?, Edit.pool?, List.append_nil, hShown, Entries.latest_append]
      rfl
  | sources names | dependencies names | orderOnly names | rule name | pool name =>
      simp only [edit, ofChanges, lastRule, lastPool, lastBindings, List.filterMap_append,
        List.filterMap_cons, List.filterMap_nil, Edit.rule?, Edit.sources?, Edit.dependencies?,
        Edit.orderOnly?, Edit.binding?, Edit.pool?, List.append_nil, inputsOf_append,
        List.getLast?_concat, Option.getD_some, Option.join_some]

/-- **All changes.** None of them is refused. -/
theorem edits_append (targets : Names) (changes more : List Edit)
    (hShort : ∀ c ∈ more, c.isShort = true) :
    (ofChanges targets changes).edits more = .ok (ofChanges targets (changes ++ more)) := by
  induction more generalizing changes with
  | nil =>
      rw [List.append_nil]
      rfl
  | cons c more ih =>
      have hFirst := edit_ofChanges targets changes (hShort c List.mem_cons_self)
      have hRest := ih (changes ++ [c]) fun d hd => hShort d (List.mem_cons_of_mem _ hd)
      rw [edits, List.foldlM_cons, hFirst]
      show (ofChanges targets (changes ++ [c])).edits more = _
      rw [hRest, List.append_assoc]
      rfl

/-! ## The text that changes tell -/

/-- Names behind a mark, and nothing where there are none. -/
def marked (mark : String) (names : List String) : String :=
  if names = [] then "" else mark ++ " ".intercalate names

/-- All names that changes add to a list, which is given by what each change adds to it. -/
def namesOf (added? : Edit → Option Names) (changes : List Edit) : List String :=
  (changes.filterMap added?).flatMap Names.toList

/-- The first line of the edge that changes make of targets, up to the bindings. -/
def headlineOf (targets : Names) (changes : List Edit) : String :=
  "build " ++ " ".intercalate targets.toList ++ ": " ++ lastRule changes ++
    marked " " (namesOf Edit.sources? changes) ++
    marked " | " (namesOf Edit.dependencies? changes) ++
    marked " || " (namesOf Edit.orderOnly? changes)

def textOf (targets : Names) (changes : List Edit) : String :=
  headlineOf targets changes ++ String.join ((lastBindings changes).map bindingLine) ++ "\n" ++
    (lastPool changes).elim "" fun pool => "  pool = " ++ pool ++ "\n"

/-- Only a value that was bound is the last one of a name. -/
theorem isShort_lastBindings {changes : List Edit} (hShort : ∀ c ∈ changes, c.isShort = true)
    {b : String × Scalar} (hb : b ∈ lastBindings changes) : b.2.isShort = true := by
  obtain ⟨change, hChange, hBinding⟩ := List.mem_filterMap.1 (Entries.mem_of_mem_latest hb)
  cases change with
  | bind name value =>
      cases hBinding
      exact (Bool.and_eq_true_iff.1 (hShort _ hChange)).2
  | _ => cases hBinding

theorem join_pieces {e : Edge} (h : ∀ b ∈ e.bindings, b.2.isShort = true) :
    Piece.join e.pieces = .ok
      (e.headline ++ String.join (e.bindings.map bindingLine) ++ "\n" ++ poolLine e.pool) := by
  have hBindings : e.bindings.map bindingPiece = (e.bindings.map bindingLine).map .ok := by
    rw [List.map_map]
    exact List.map_congr_left fun b hb => bindingPiece_eq (h b hb)
  have hPieces : e.pieces =
      ((e.headline :: e.bindings.map bindingLine) ++ ["\n" ++ poolLine e.pool]).map .ok := by
    rw [pieces, hBindings, List.map_append]
    rfl
  rw [hPieces, Piece.join_map_ok, String.join_append, String.join_cons, String.join_cons,
    String.join_nil, String.append_empty, ← String.append_assoc]

theorem inputs_inputsOf (mark : String) (added : List Names) :
    inputs mark (inputsOf added) = marked mark (added.flatMap Names.toList) := by
  cases added with
  | nil => rfl
  | cons names added =>
      rw [inputsOf, if_neg (by simp)]
      cases (names :: added).flatMap Names.toList <;> rfl

theorem headline_ofChanges (targets : Names) (changes : List Edit) :
    (ofChanges targets changes).headline = headlineOf targets changes := by
  simp only [headline, headlineOf, namesOf, ofChanges, inputs_inputsOf]

/-- **The text** of the edge is the one that the changes tell. -/
theorem join_pieces_ofChanges (targets : Names) {changes : List Edit}
    (hShort : ∀ c ∈ changes, c.isShort = true) :
    Piece.join (ofChanges targets changes).pieces = .ok (textOf targets changes) := by
  have hBindings : ∀ b ∈ (ofChanges targets changes).bindings, b.2.isShort = true :=
    fun b hb => isShort_lastBindings hShort hb
  have hPool : poolLine (ofChanges targets changes).pool =
      (lastPool changes).elim "" fun pool => "  pool = " ++ pool ++ "\n" := by
    show poolLine (lastPool changes) = _
    cases lastPool changes <;> rfl
  rw [join_pieces hBindings, headline_ofChanges, hPool]
  rfl

/-! ## The record that changes tell -/

/-- The field of a list to which names were added; nothing if no change was about it. -/
def listField (name : String) (added : List Names) : List (String × Value) :=
  if added = [] then [] else [(name, .texts (added.flatMap Names.toList))]

/-- The field of the bindings; nothing where there are none. -/
def bindingsField (bindings : List (String × Scalar)) : List (String × Value) :=
  if bindings = [] then [] else [("assigns", .record (bindings.map fun b => (b.1, b.2.toValue)))]

def recordOf (targets : Names) (changes : List Edit) : List (String × Value) :=
  [("targets", .texts targets.toList), ("rule", .text (lastRule changes))] ++
    listField "sources" (changes.filterMap Edit.sources?) ++
    listField "dependencies" (changes.filterMap Edit.dependencies?) ++
    listField "order_deps" (changes.filterMap Edit.orderOnly?) ++
    bindingsField (lastBindings changes) ++
    (lastPool changes).elim [] fun pool => [("pool", .text pool)]

theorem optionalField_inputsOf (name : String) (added : List Names) :
    Value.optionalField name ((inputsOf added).map .texts) = listField name added := by
  cases added <;> rfl

theorem optionalField_bindings (bindings : List (String × Scalar)) :
    Value.optionalField "assigns" (bindingsValue? bindings) = bindingsField bindings := by
  cases bindings <;> rfl

/-- **The record** of the edge is the one that the changes tell. -/
theorem fields_ofChanges (targets : Names) (changes : List Edit) :
    (ofChanges targets changes).fields = recordOf targets changes := by
  have hPool : Value.optionalField "pool" ((lastPool changes).map .text) =
      (lastPool changes).elim [] fun pool => [("pool", .text pool)] := by
    cases lastPool changes <;> rfl
  simp only [fields, ofChanges, recordOf, optionalField_inputsOf, optionalField_bindings, hPool]

/-! ## Whole histories -/

/-- An edge that is changed nine times. The number and the text are one name, and the flag is
another; nothing is added to the dependencies, and one name without letters to the sources. -/
def nineChanges : List Edit :=
  [.bind (.int 1) (.text "a"), .sources (.many ["x"]), .bind (.bool true) (.bool false),
    .rule "cp", .dependencies (.many []), .bind (.text "1") (.int 2), .pool (some "slow"),
    .sources (.one ""), .rule "ln"]

end NinjaFile.Edge
