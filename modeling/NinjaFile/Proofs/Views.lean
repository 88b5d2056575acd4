import NinjaFile.Proofs.Manifest.Documents
import NinjaFile.Proofs.Session.Short

/-!
# Clauses that can be shown

A clause is shown by its text and by the JSON text of its record, and both are refused
for a long integer. A binding or an edge without long integers can be shown, and a rule
if none was given for a flag (`Binding.exists_view`, `Rule.exists_view`,
`Edge.exists_view`). Documents whose clauses can all be shown stay so under declarations
that bring no long integer in (`Document.Showable.edit`).
-/

namespace NinjaFile

/-! ## Values that have a JSON form -/

namespace Value

def Writable (v : Value) : Prop :=
  ∃ j, v.toJson false = .ok j

theorem writable_array {vs : List Value} (h : ∀ v ∈ vs, v.Writable) : (array vs).Writable := by
  have hItems : ∃ js, toJsonItems false vs = .ok js := by
    induction vs with
    | nil => exact ⟨[], rfl⟩
    | cons v vs ih =>
        obtain ⟨j, hFirst⟩ := h v List.mem_cons_self
        obtain ⟨js, hRest⟩ := ih fun w hw => h w (List.mem_cons_of_mem _ hw)
        exact ⟨j :: js, by rw [toJsonItems, hFirst, hRest]; rfl⟩
  obtain ⟨js, hItems⟩ := hItems
  exact ⟨.array js, by rw [toJson, hItems]; rfl⟩

theorem writable_record {fs : List (String × Value)} (h : ∀ f ∈ fs, f.2.Writable) :
    (record fs).Writable := by
  have hMembers : ∃ ms, members (toJsonEntries false (named fs)) = .ok ms := by
    induction fs with
    | nil => exact ⟨[], rfl⟩
    | cons f fs ih =>
        obtain ⟨name, v⟩ := f
        obtain ⟨j, hFirst⟩ := h (name, v) List.mem_cons_self
        obtain ⟨ms, hRest⟩ := ih fun g hg => h g (List.mem_cons_of_mem _ hg)
        refine ⟨(name, j) :: ms, ?_⟩
        show members ((text name, toJson false v) :: toJsonEntries false (named fs)) = _
        rw [members, hFirst, hRest]
        rfl
  obtain ⟨ms, hMembers⟩ := hMembers
  refine ⟨.object ms, ?_⟩
  show (members (toJsonEntries false (named fs)) >>= fun ms => .ok (Json.object ms)) = _
  rw [hMembers]
  rfl

theorem writable_text (s : String) : (text s).Writable :=
  ⟨_, rfl⟩

theorem writable_texts (names : List String) : (texts names).Writable := by
  apply writable_array
  intro v hv
  obtain ⟨s, -, rfl⟩ := List.mem_map.1 hv
  exact writable_text s

end Value

theorem Scalar.writable_toValue {s : Scalar} (h : s.isShort = true) : s.toValue.Writable := by
  cases s with
  | int n => exact ⟨.int n, if_pos (of_decide_eq_true h)⟩
  | text | bool => exact ⟨_, rfl⟩

def Flag.isShort : Flag → Bool
  | .int n => decide ((Numeral.digits n.natAbs).length ≤ Numeral.limit)
  | _ => true

theorem Flag.writable_toValue {f : Flag} (h : f.isShort = true) : f.toValue.Writable := by
  cases f with
  | int n => exact ⟨.int n, if_pos (of_decide_eq_true h)⟩
  | float x =>
      rw [toValue, Value.ofFloat]
      split
      · exact ⟨_, rfl⟩
      · exact ⟨_, rfl⟩
  | bool | text => exact ⟨_, rfl⟩

/-! ## Clauses that can be shown -/

theorem ClauseView.exists_of {text : Except Numeral.Overlong String} {written : String}
    {fields : List (String × Value)} (hText : text = .ok written)
    (hFields : ∀ f ∈ fields, f.2.Writable) : ∃ view, of text fields = .ok view := by
  obtain ⟨j, hForm⟩ := Value.writable_record hFields
  refine ⟨⟨written, j.toText .inline⟩, ?_⟩
  rw [of, hText, Value.jsonText, hForm]
  rfl

theorem Binding.exists_view {b : Binding} (hName : b.name.isShort = true)
    (hValue : b.value.isShort = true) : ∃ view, b.view = .ok view := by
  obtain ⟨text, hText⟩ := exists_piece hName hValue
  apply ClauseView.exists_of hText
  simp only [fields, List.forall_mem_cons, List.not_mem_nil, false_implies, implies_true, and_true]
  exact ⟨Scalar.writable_toValue hName, Scalar.writable_toValue hValue⟩

theorem Rule.exists_view {r : Rule} (hFlags : ∀ f ∈ r.flags, f.isShort = true) :
    ∃ view, r.view = .ok view := by
  apply ClauseView.exists_of rfl
  exact r.forall_fields Value.writable_text fun f hf => Flag.writable_toValue (hFlags f hf)

theorem Edge.exists_view {e : Edge} (h : ∀ b ∈ e.bindings, b.2.isShort = true) :
    ∃ view, e.view = .ok view := by
  obtain ⟨texts, hAll⟩ := Piece.exists_all (exists_pieces h)
  have hText : Piece.join e.pieces = .ok (String.join texts) := by
    rw [Piece.join, hAll]
    rfl
  apply ClauseView.exists_of hText
  refine e.forall_fields Value.writable_text Value.writable_texts ?_
  intro v hv
  rw [mem_bindingsValue? hv]
  apply Value.writable_record
  intro f hf
  obtain ⟨b, hb, rfl⟩ := List.mem_map.1 hf
  exact Scalar.writable_toValue (h b hb)

/-! ## Documents whose clauses can be shown -/

/-- A document without long integers, neither in its bindings nor for flags of its rules. -/
structure Document.Showable (d : Document) : Prop where
  short : d.Short
  flags : ∀ r ∈ d.rules, ∀ f ∈ r.flags, f.isShort = true

def Rule.Edit.flags : Rule.Edit → List Flag
  | .restat flag | .generator flag => flag.toList
  | _ => []

def Document.Edit.flags : Document.Edit → List Flag
  | .editRule _ change => change.flags
  | _ => []

theorem Rule.mem_flags_edit {r : Rule} {change : Edit} {f : Flag} (hf : f ∈ (r.edit change).flags) :
    f ∈ r.flags ∨ f ∈ change.flags := by
  cases change with
  | restat flag =>
      rcases List.mem_append.1 hf with hf | hf
      · exact Or.inr hf
      · exact Or.inl (List.mem_append_right _ hf)
  | generator flag =>
      rcases List.mem_append.1 hf with hf | hf
      · exact Or.inl (List.mem_append_left _ hf)
      · exact Or.inr hf
  | _ => exact Or.inl hf

theorem Document.Showable.edit {d d' : Document} {change : Document.Edit} (h : d.Showable)
    (hShort : change.isShort = true) (hFlags : ∀ f ∈ change.flags, f.isShort = true)
    (hEdit : d.edit change = .ok d') : d'.Showable := by
  refine ⟨h.short.edit hShort hEdit, ?_⟩
  cases change with
  | rule name =>
      cases hEdit
      intro r hr
      rcases List.mem_append.1 hr with hr | hr
      · exact h.flags r hr
      · cases List.mem_singleton.1 hr
        intro f hf
        cases hf
  | edge targets =>
      obtain ⟨-, rfl⟩ := edit_edge_eq_ok.1 hEdit
      exact h.flags
  | editRule index change =>
      obtain ⟨r, hIndex, rfl⟩ := edit_editRule_eq_ok.1 hEdit
      intro r' hr'
      rcases List.mem_or_eq_of_mem_set hr' with hr' | rfl
      · exact h.flags r' hr'
      · intro f hf
        rcases Rule.mem_flags_edit hf with hOld | hNew
        · exact h.flags r (List.mem_of_getElem? hIndex) f hOld
        · exact hFlags f hNew
  | editEdge index change =>
      obtain ⟨e, e', -, -, rfl⟩ := edit_editEdge_eq_ok.1 hEdit
      exact h.flags
  | _ =>
      cases hEdit
      exact h.flags

end NinjaFile
