import NinjaFile.Decimal.Style
import NinjaFile.Proofs.Decimal.Shortest
import NinjaFile.Proofs.Json.Numbers

/-!
# What the text of a double shows

The text of a double is made of digits and of the marks of a numeral, unless it is a
name (`mem_text`), and it shows whether the double is zero: the text of any other one
has a digit that is not zero (`exists_digit_text`). Neither the way a text is laid
out nor the zeros that are cut off its end hide such a digit.
-/

namespace NinjaFile

namespace Decimal

/-- A character of a numeral: a digit, a point, a sign, or the mark of an exponent. -/
def isNumeric (c : Char) : Bool :=
  Json.isDigit c || c == '.' || c == 'e' || c == '+' || c == '-'

theorem isNumeric_of_isDigit {c : Char} (h : Json.isDigit c = true) : isNumeric c = true := by
  simp [isNumeric, h]

/-! ## Layout -/

theorem mem_trimZeros {c : Char} {ds : List Char} (h : c ∈ ds) (hc : c ≠ '0') :
    c ∈ trimZeros ds := by
  have hSplit := List.takeWhile_append_dropWhile (p := (· == '0')) (l := ds.reverse)
  rw [trimZeros, List.mem_reverse]
  rw [← List.mem_reverse, ← hSplit] at h
  rcases List.mem_append.1 h with hZero | hKept
  · have hTrimmed := List.all_eq_true.1 (List.all_takeWhile (l := ds.reverse)) c hZero
    exact absurd (beq_iff_eq.1 hTrimmed) hc
  · exact hKept

theorem mem_of_mem_trimZeros {c : Char} {ds : List Char} (h : c ∈ trimZeros ds) : c ∈ ds := by
  rw [trimZeros, List.mem_reverse] at h
  exact List.mem_reverse.1 ((List.dropWhile_sublist _).subset h)

theorem isNumeric_of_mem_exponentText {c : Char} {e : Int} (h : c ∈ exponentText e) :
    isNumeric c = true := by
  rw [exponentText] at h
  rcases List.mem_cons.1 h with rfl | h
  · split <;> rfl
  · split at h
    · rcases List.mem_cons.1 h with rfl | h
      · rfl
      · exact isNumeric_of_isDigit (Numeral.isDigit_of_mem_digits h)
    · exact isNumeric_of_isDigit (Numeral.isDigit_of_mem_digits h)

theorem mem_place {c : Char} {ds : List Char} (h : c ∈ ds) (places : Int) :
    c ∈ place ds places := by
  unfold place
  split
  · split
    · exact List.mem_cons_of_mem _ (List.mem_cons_of_mem _ (List.mem_append_right _ h))
    · dsimp only
      split
      · exact List.mem_append_left _ (List.mem_append_left _ h)
      · rw [← List.take_append_drop places.toNat ds] at h
        rcases List.mem_append.1 h with hWhole | hFraction
        · exact List.mem_append_left _ hWhole
        · exact List.mem_append_right _ (List.mem_cons_of_mem _ hFraction)
  · rw [← List.take_append_drop 1 ds] at h
    apply List.mem_append_left
    rcases List.mem_append.1 h with hFirst | hOthers
    · exact List.mem_append_left _ hFirst
    · apply List.mem_append_right
      split
      · rename_i hNone
        rw [hNone] at hOthers
        cases hOthers
      · exact List.mem_cons_of_mem _ hOthers

theorem isNumeric_of_mem_place {ds : List Char} (h : ∀ d ∈ ds, isNumeric d = true) {places : Int} :
    ∀ c ∈ place ds places, isNumeric c = true := by
  have hZeros (n : Nat) : ∀ c ∈ List.replicate n '0', isNumeric c = true := by
    intro c hc
    rw [(List.mem_replicate.1 hc).2]
    rfl
  have hPart {part : List Char} (hPart : part.Sublist ds) : ∀ c ∈ part, isNumeric c = true :=
    fun c hc => h c (hPart.subset hc)
  unfold place
  split
  · split
    · simp only [List.cons_append, List.forall_mem_cons, List.forall_mem_append]
      exact ⟨rfl, rfl, hZeros _, h⟩
    · dsimp only
      split
      · simp only [List.forall_mem_append, List.forall_mem_cons]
        exact ⟨⟨h, hZeros _⟩, rfl, rfl, by simp⟩
      · simp only [List.forall_mem_append, List.forall_mem_cons]
        exact ⟨hPart (List.take_sublist _ _), rfl, hPart (List.drop_sublist _ _)⟩
  · simp only [List.forall_mem_append, List.forall_mem_cons]
    refine ⟨⟨hPart (List.take_sublist _ _), ?_⟩, rfl, fun c => isNumeric_of_mem_exponentText⟩
    split
    · simp
    · exact List.forall_mem_cons.2 ⟨rfl, hPart (List.drop_sublist _ _)⟩

theorem place_ne_nil (ds : List Char) (places : Int) : place ds places ≠ [] := by
  unfold place
  split
  · split
    · simp
    · dsimp only
      split <;> simp
  · simp

/-! ## Magnitudes -/

theorem isNumeric_of_mem_magnitudeText {significand : Nat} {exponent : Int} :
    ∀ c ∈ magnitudeText significand exponent, isNumeric c = true := by
  unfold magnitudeText
  split
  · exact List.all_eq_true.1 rfl
  · exact isNumeric_of_mem_place fun d hd =>
      isNumeric_of_isDigit (Numeral.isDigit_of_mem_digits (mem_of_mem_trimZeros hd))

theorem magnitudeText_ne_nil (significand : Nat) (exponent : Int) :
    magnitudeText significand exponent ≠ [] := by
  unfold magnitudeText
  split
  · simp
  · exact place_ne_nil _ _

/-! ## Doubles -/

theorem Style.mem_text (style : Style) (x : Binary64) :
    ∀ c ∈ style.text x, c ∈ style.nan.toList ∨ c ∈ style.infinity.toList ∨ isNumeric c = true := by
  have signed (negative : Bool) {cs : List Char}
      (h : ∀ c ∈ cs, c ∈ style.nan.toList ∨ c ∈ style.infinity.toList ∨ isNumeric c = true) :
      ∀ c ∈ if negative then '-' :: cs else cs,
        c ∈ style.nan.toList ∨ c ∈ style.infinity.toList ∨ isNumeric c = true := by
    split
    · exact List.forall_mem_cons.2 ⟨Or.inr (Or.inr rfl), h⟩
    · exact h
  unfold text
  dsimp only
  split
  · exact fun c hc => Or.inl hc
  · exact signed _ fun c hc => Or.inr (Or.inl hc)
  · exact signed _ fun c hc => Or.inr (Or.inr (isNumeric_of_mem_magnitudeText c hc))

/-- **The text of a finite double that is not zero has a digit that is not zero.** -/
theorem Style.exists_digit_text (style : Style) {x : Binary64} {negative : Bool}
    {significand : Nat} {exponent : Int} (h : x.datum = .finite negative significand exponent)
    (hPositive : significand ≠ 0) :
    ∃ c ∈ style.text x, Json.isDigit c = true ∧ c ≠ '0' := by
  have hDigits := shortest_pos_of_datum h hPositive
  obtain ⟨c, cs, hAll, hDigit⟩ :=
    Numeral.exists_digits (shortest .double significand exponent).digits
  have hNonzero : c ≠ '0' := Numeral.head_digits hDigits hAll
  refine ⟨c, ?_, hDigit, hNonzero⟩
  have hMagnitude : c ∈ magnitudeText significand exponent := by
    rw [magnitudeText, if_neg hPositive]
    exact mem_place (mem_trimZeros (hAll ▸ List.mem_cons_self) hNonzero) _
  rw [text, h]
  dsimp only
  split
  · exact List.mem_cons_of_mem _ hMagnitude
  · exact hMagnitude

end Decimal

end NinjaFile
