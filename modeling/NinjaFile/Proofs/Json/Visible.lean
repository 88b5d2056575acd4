import NinjaFile.Json.Printer
import NinjaFile.Proofs.Decimal.Style
import NinjaFile.Proofs.Json.Tidy

/-!
# Values on one line

A value that is printed on one line is printed in visible ASCII (`isVisible_print`): a
character that is not visible ASCII can only come from a string, and there it is
written behind a backslash. So no line break can occur, and every octet of the text is
one character.
-/

namespace NinjaFile

namespace Json

def isVisible (c : Char) : Bool :=
  ' ' ≤ c && c ≤ '~'

theorem ne_newline_of_isVisible {c : Char} (h : isVisible c = true) : c ≠ '\n' := by
  rintro rfl
  cases h

theorem toNat_lt_of_isVisible {c : Char} (h : isVisible c = true) : c.toNat < 0x80 := by
  rw [isVisible, Bool.and_eq_true, decide_eq_true_eq, decide_eq_true_eq] at h
  have hHigh : c.toNat ≤ '~'.toNat := h.2
  have hTilde : '~'.toNat = 0x7E := by decide
  omega

/-! ## Strings -/

theorem isVisible_digit {n : Nat} (h : n < 16) : isVisible (Hex.digit n) = true := by
  have hAll : (List.range 16).all (fun n => isVisible (Hex.digit n)) = true := by decide
  exact List.all_eq_true.1 hAll n (List.mem_range.2 h)

theorem isVisible_fixed {width n : Nat} : ∀ c ∈ Hex.fixed width n, isVisible c = true := by
  induction width generalizing n with
  | zero => exact fun c hc => absurd hc List.not_mem_nil
  | succ width ih =>
      intro c hc
      rcases List.mem_append.1 hc with hc | hc
      · exact ih c hc
      · rw [List.mem_singleton.1 hc]
        exact isVisible_digit (Nat.mod_lt _ (by decide))

theorem isVisible_quoteChar (c : Char) : ∀ d ∈ quoteChar c, isVisible d = true := by
  unfold quoteChar
  iterate 7
    split
    · exact List.all_eq_true.1 (by decide)
  split
  · rename_i hVisible
    intro d hd
    rw [List.mem_singleton.1 hd, isVisible, decide_eq_true hVisible.1, decide_eq_true hVisible.2]
    rfl
  · intro d hd
    obtain ⟨unit, -, hd⟩ := List.mem_flatMap.1 hd
    rw [unitEscape] at hd
    rcases List.mem_cons.1 hd with rfl | hd
    · rfl
    rcases List.mem_cons.1 hd with rfl | hd
    · rfl
    exact isVisible_fixed d hd

theorem isVisible_quote (cs : List Char) : ∀ c ∈ quote cs, isVisible c = true := by
  intro c hc
  rw [quote] at hc
  rcases List.mem_append.1 hc with hc | hc
  · rcases List.mem_cons.1 hc with rfl | hc
    · rfl
    · obtain ⟨d, -, hd⟩ := List.mem_flatMap.1 hc
      exact isVisible_quoteChar d c hd
  · rw [List.mem_singleton.1 hc]
    rfl

/-! ## Words -/

theorem isVisible_of_isDigit {c : Char} (h : isDigit c = true) : isVisible c = true := by
  rw [isDigit, Bool.and_eq_true, decide_eq_true_eq, decide_eq_true_eq] at h
  rw [isVisible, Bool.and_eq_true, decide_eq_true_eq, decide_eq_true_eq]
  exact ⟨Char.le_trans (by decide) h.1, Char.le_trans h.2 (by decide)⟩

theorem isVisible_of_isNumeric {c : Char} (h : Decimal.isNumeric c = true) : isVisible c = true := by
  simp only [Decimal.isNumeric, Bool.or_eq_true, beq_iff_eq] at h
  rcases h with (((hDigit | rfl) | rfl) | rfl) | rfl
  · exact isVisible_of_isDigit hDigit
  all_goals rfl

theorem isVisible_ofInt (n : Int) : ∀ c ∈ Numeral.ofInt n, isVisible c = true := by
  have digits : ∀ c ∈ Numeral.digits n.natAbs, isVisible c = true := fun c hc =>
    isVisible_of_isDigit (Numeral.isDigit_of_mem_digits hc)
  unfold Numeral.ofInt
  split
  · exact List.forall_mem_cons.2 ⟨rfl, digits⟩
  · exact digits

theorem isVisible_text (x : Binary64) : ∀ c ∈ style.text x, isVisible c = true := by
  intro c hc
  rcases style.mem_text x c hc with hNan | hInfinity | hNumeric
  · exact List.all_eq_true.1 (by decide : style.nan.toList.all isVisible = true) c hNan
  · exact List.all_eq_true.1 (by decide : style.infinity.toList.all isVisible = true) c hInfinity
  · exact isVisible_of_isNumeric hNumeric

/-! ## Values -/

def IsVisible (j : Json) : Prop :=
  ∀ depth, ∀ c ∈ print .inline depth j, isVisible c = true

theorem isVisible_printItems {items : List Json} (h : ∀ j ∈ items, j.IsVisible) (depth : Nat) :
    ∀ c ∈ printItems .inline depth items, isVisible c = true := by
  induction items with
  | nil => exact fun c hc => absurd hc List.not_mem_nil
  | cons j items ih =>
      obtain ⟨hItem, hItems⟩ := List.forall_mem_cons.1 h
      simp only [printItems, Layout.inline, List.cons_append, List.nil_append,
        List.forall_mem_cons, List.forall_mem_append]
      exact ⟨rfl, rfl, hItem depth, ih hItems⟩

theorem isVisible_printMembers {members : List (String × Json)} (h : ∀ m ∈ members, m.2.IsVisible)
    (depth : Nat) : ∀ c ∈ printMembers .inline depth members, isVisible c = true := by
  induction members with
  | nil => exact fun c hc => absurd hc List.not_mem_nil
  | cons m members ih =>
      obtain ⟨hMember, hMembers⟩ := List.forall_mem_cons.1 h
      simp only [printMembers, Layout.inline, List.cons_append, List.nil_append,
        List.forall_mem_cons, List.forall_mem_append]
      exact ⟨rfl, rfl, ⟨isVisible_quote _, rfl, rfl, hMember depth⟩, ih hMembers⟩

/-- **One line, in visible ASCII.** -/
theorem isVisible_print {limit : Nat} {fractions : Bool} {j : Json} (h : Tidy limit fractions j) :
    j.IsVisible := by
  induction h with
  | null => exact fun depth => List.all_eq_true.1 rfl
  | bool b => exact fun depth => List.all_eq_true.1 (by cases b <;> rfl)
  | int => exact fun depth => isVisible_ofInt _
  | float allowed x => exact fun depth => isVisible_text x
  | text s => exact fun depth => isVisible_quote s.toList
  | @array items tidy ih =>
      intro depth
      rcases items with - | ⟨j, items⟩
      · exact List.all_eq_true.1 rfl
      · obtain ⟨hItem, hItems⟩ := List.forall_mem_cons.1 ih
        simp only [print, Layout.inline, List.cons_append, List.nil_append, List.append_nil,
          List.forall_mem_cons, List.forall_mem_append]
        exact ⟨rfl, ⟨hItem _, isVisible_printItems hItems _⟩, rfl, by simp⟩
  | @object members distinct tidy ih =>
      intro depth
      rcases members with - | ⟨m, members⟩
      · exact List.all_eq_true.1 rfl
      · obtain ⟨hMember, hMembers⟩ := List.forall_mem_cons.1 ih
        simp only [print, Layout.inline, List.cons_append, List.nil_append, List.append_nil,
          List.forall_mem_cons, List.forall_mem_append]
        exact ⟨rfl, ⟨⟨isVisible_quote _, rfl, rfl, hMember _⟩, isVisible_printMembers hMembers _⟩,
          rfl, by simp⟩

end Json

end NinjaFile
