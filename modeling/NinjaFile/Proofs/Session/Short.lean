import NinjaFile.Proofs.Layout.Documents
import NinjaFile.Proofs.Reachable

/-!
# Documents without long integers

A scalar can be written unless it is an integer of more than `Numeral.limit`
digits. A document whose bindings hold no such integer has a text
(`Document.Short.exists_render`), and it is still one after a declaration that
brings none in (`Document.Short.edit`), so along a session in which none is
declared every document can be written (`Run.short_steps`).
-/

namespace NinjaFile

/-! ## Scalars -/

def Scalar.isShort : Scalar → Bool
  | .int n => decide ((Numeral.digits n.natAbs).length ≤ Numeral.limit)
  | _ => true

theorem Scalar.exists_text? {s : Scalar} (h : s.isShort = true) : ∃ text, s.text? = .ok text := by
  cases s with
  | int n =>
      have hDigits : (Numeral.digits n.natAbs).length ≤ Numeral.limit := of_decide_eq_true h
      refine ⟨String.ofList (Numeral.ofInt n), ?_⟩
      rw [text?, Numeral.ofInt?, if_pos hDigits]
      rfl
  | text | bool => exact ⟨_, rfl⟩

/-! ## Documents -/

/-- A document without long integers among its bindings, inside an edge or not. -/
structure Document.Short (d : Document) : Prop where
  edges : ∀ e ∈ d.edges, ∀ b ∈ e.bindings, b.2.isShort = true
  bindings : ∀ b ∈ d.bindings, b.name.isShort = true ∧ b.value.isShort = true

theorem Piece.exists_all {pieces : List Piece} (h : ∀ p ∈ pieces, ∃ s, p = .ok s) :
    ∃ texts, all pieces = .ok texts := by
  induction pieces with
  | nil => exact ⟨[], rfl⟩
  | cons p pieces ih =>
      obtain ⟨s, rfl⟩ := h p List.mem_cons_self
      obtain ⟨texts, hAll⟩ := ih fun q hq => h q (List.mem_cons_of_mem _ hq)
      exact ⟨s :: texts, by rw [all, hAll]; rfl⟩

/-- The line of a binding of an edge, behind the end of the line before it. -/
def Edge.bindingLine (b : String × Scalar) : String :=
  "\n  " ++ b.1 ++ " = " ++ b.2.shown

theorem Edge.bindingPiece_eq {b : String × Scalar} (h : b.2.isShort = true) :
    bindingPiece b = .ok (bindingLine b) := by
  obtain ⟨value, hValue⟩ := Scalar.exists_text? h
  rw [bindingPiece, bindingLine, Scalar.shown_eq hValue, hValue]
  rfl

theorem Edge.exists_pieces {e : Edge} (h : ∀ b ∈ e.bindings, b.2.isShort = true) :
    ∀ p ∈ e.pieces, ∃ s, p = .ok s := by
  intro p hp
  rcases List.mem_append.1 hp with hp | hp
  · rcases List.mem_cons.1 hp with rfl | hp
    · exact ⟨_, rfl⟩
    · obtain ⟨b, hb, rfl⟩ := List.mem_map.1 hp
      exact ⟨_, bindingPiece_eq (h b hb)⟩
  · cases List.mem_singleton.1 hp
    exact ⟨_, rfl⟩

theorem Binding.exists_piece {b : Binding} (hName : b.name.isShort = true)
    (hValue : b.value.isShort = true) : ∃ s, b.piece = .ok s := by
  obtain ⟨name, hName⟩ := Scalar.exists_text? hName
  obtain ⟨value, hValue⟩ := Scalar.exists_text? hValue
  exact ⟨_, by rw [piece, hName, hValue]; rfl⟩

namespace Document

theorem exists_optionalPiece (before after : String) (text : Option String) :
    ∀ p ∈ optionalPiece before after text, ∃ s, p = .ok s := by
  intro p hp
  cases text with
  | none => cases hp
  | some text =>
      cases List.mem_singleton.1 hp
      exact ⟨_, rfl⟩

/-- **A document without long integers has a text.** -/
theorem Short.exists_render {d : Document} (h : d.Short) : ∃ text, d.render = .ok text := by
  have hPieces : ∀ p ∈ d.pieces, ∃ s, p = .ok s := by
    intro p hp
    simp only [pieces, List.mem_append] at hp
    rcases hp with (((((hp | hp) | hp) | hp) | hp) | hp) | hp
    · exact exists_optionalPiece _ _ _ p hp
    · exact exists_optionalPiece _ _ _ p hp
    · exact exists_optionalPiece _ _ _ p hp
    · obtain ⟨r, -, rfl⟩ := List.mem_map.1 hp
      exact ⟨_, rfl⟩
    · obtain ⟨e, he, hp⟩ := List.mem_flatMap.1 hp
      exact Edge.exists_pieces (h.edges e he) p hp
    · obtain ⟨b, hb, rfl⟩ := List.mem_map.1 hp
      exact Binding.exists_piece (h.bindings b hb).1 (h.bindings b hb).2
    · exact exists_optionalPiece _ _ _ p hp
  obtain ⟨texts, hAll⟩ := Piece.exists_all hPieces
  refine ⟨String.join texts, ?_⟩
  rw [render, Piece.join, hAll]
  rfl

theorem short_of_no_bindings {d : Document} (hEdges : d.edges = []) (hBindings : d.bindings = []) :
    d.Short := by
  constructor
  · simp [hEdges]
  · simp [hBindings]

end Document

/-! ## Declarations -/

def Edge.Edit.isShort : Edge.Edit → Bool
  | .bind name value => name.isShort && value.isShort
  | _ => true

def Document.Edit.isShort : Document.Edit → Bool
  | .bind name value => name.isShort && value.isShort
  | .editEdge _ change => change.isShort
  | _ => true

theorem Edge.short_edit {e e' : Edge} {change : Edge.Edit} (hChange : change.isShort = true)
    (h : ∀ b ∈ e.bindings, b.2.isShort = true) (hEdit : e.edit change = .ok e') :
    ∀ b ∈ e'.bindings, b.2.isShort = true := by
  cases change with
  | bind name value =>
      obtain ⟨text, -, hPut⟩ := Outcome.bind_eq_ok.1 hEdit
      cases hPut
      intro b hb
      rcases (Entries.mem_put hb).2 with hNew | hOld
      · rw [hNew]
        exact (Bool.and_eq_true_iff.1 hChange).2
      · obtain ⟨c, hc, hEq⟩ := List.mem_map.1 hOld
        rw [← hEq]
        exact h c hc
  | _ =>
      cases hEdit
      exact h

theorem Document.Short.edit {d d' : Document} {change : Document.Edit} (h : d.Short)
    (hChange : change.isShort = true) (hEdit : d.edit change = .ok d') : d'.Short := by
  cases change with
  | bind name value =>
      cases hEdit
      refine ⟨h.edges, ?_⟩
      intro b hb
      rcases List.mem_append.1 hb with hb | hb
      · exact h.bindings b hb
      · cases List.mem_singleton.1 hb
        exact Bool.and_eq_true_iff.1 hChange
  | edge targets =>
      obtain ⟨-, rfl⟩ := edit_edge_eq_ok.1 hEdit
      refine ⟨?_, h.bindings⟩
      intro e he
      rcases List.mem_append.1 he with he | he
      · exact h.edges e he
      · cases List.mem_singleton.1 he
        intro b hb
        cases hb
  | editRule index change =>
      obtain ⟨r, -, rfl⟩ := edit_editRule_eq_ok.1 hEdit
      exact ⟨h.edges, h.bindings⟩
  | editEdge index change =>
      obtain ⟨e, e', hIndex, hEdge, rfl⟩ := edit_editEdge_eq_ok.1 hEdit
      refine ⟨?_, h.bindings⟩
      intro f hf
      rcases List.mem_or_eq_of_mem_set hf with hf | rfl
      · exact h.edges f hf
      · exact Edge.short_edit hChange (h.edges e (List.mem_of_getElem? hIndex)) hEdge
  | _ =>
      cases hEdit
      exact ⟨h.edges, h.bindings⟩

/-! ## Sessions -/

def Step.isShort : Step → Bool
  | .edit change => change.isShort
  | _ => true

namespace Run

/-- **One step.** -/
theorem short_step {r : Run} {s : Step} (h : r.session.document.Short) (hs : s.isShort = true) :
    (r.step s).1.session.document.Short := by
  rcases document_step r s with hSame | ⟨change, rfl, hEdit⟩
  · rw [hSame]
    exact h
  · exact h.edit hs hEdit

/-- **Whole runs.** -/
theorem short_steps {r : Run} (h : r.session.document.Short) {steps : List Step}
    (hSteps : ∀ s ∈ steps, s.isShort = true) : (r.steps steps).1.session.document.Short := by
  induction steps generalizing r with
  | nil => exact h
  | cons s rest ih =>
      exact ih (short_step h (hSteps s List.mem_cons_self))
        fun t ht => hSteps t (List.mem_cons_of_mem _ ht)

end Run

end NinjaFile
