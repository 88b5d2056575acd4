import Mathlib.Data.List.Forall2

/-!
# Blocks of lines

A build file is a list of blocks. A block has one line that begins in the first
column, its head, and below it settings, lines of the form `  key = value`. The
text of a list of blocks determines the blocks (`Block.texts_injective`):

* line breaks occur only where lines end, so the text determines its lines;
* a head is not indented and a setting is, so a block ends where the next line
  is not indented;
* a key has no blank, so it ends at the first blank behind the indentation.
-/

namespace NinjaFile

/-! ## Uniqueness of a cut -/

theorem append_inj_of_test {α : Type} (p : α → Prop) :
    ∀ {xs ys r r' : List α}, (∀ x ∈ xs, p x) → (∀ y ∈ ys, p y) →
      (∀ x, r.head? = some x → ¬ p x) → (∀ y, r'.head? = some y → ¬ p y) →
      xs ++ r = ys ++ r' → xs = ys ∧ r = r'
  | [], [], _, _, _, _, _, _, h => ⟨rfl, h⟩
  | [], y :: ys, r, r', _, hy, hr, _, h => by
      have hHead : r.head? = some y := by
        rw [List.nil_append] at h
        rw [h]
        rfl
      exact absurd (hy y List.mem_cons_self) (hr y hHead)
  | x :: xs, [], r, r', hx, _, _, hr', h => by
      have hHead : r'.head? = some x := by
        rw [List.nil_append] at h
        rw [← h]
        rfl
      exact absurd (hx x List.mem_cons_self) (hr' x hHead)
  | x :: xs, y :: ys, r, r', hx, hy, hr, hr', h => by
      rw [List.cons_append, List.cons_append, List.cons.injEq] at h
      obtain ⟨rfl, h⟩ := h
      obtain ⟨rfl, rfl⟩ := append_inj_of_test p
        (fun a ha => hx a (List.mem_cons_of_mem _ ha))
        (fun a ha => hy a (List.mem_cons_of_mem _ ha)) hr hr' h
      exact ⟨rfl, rfl⟩

theorem append_cons_inj {α : Type} {a : α} {xs ys r r' : List α} (hx : a ∉ xs) (hy : a ∉ ys)
    (h : xs ++ a :: r = ys ++ a :: r') : xs = ys ∧ r = r' := by
  have hCut := append_inj_of_test (· ≠ a) (fun x hm he => hx (he ▸ hm))
    (fun y hm he => hy (he ▸ hm)) (by simp) (by simp) h
  exact ⟨hCut.1, (List.cons.inj hCut.2).2⟩

theorem forall₂_of_map_eq {α β γ : Type} {R : α → β → Prop} {f : α → γ} {g : β → γ} :
    ∀ {xs : List α} {ys : List β}, xs.map f = ys.map g →
      (∀ x ∈ xs, ∀ y ∈ ys, f x = g y → R x y) → List.Forall₂ R xs ys
  | [], [], _, _ => .nil
  | [], y :: ys, h, _ => by cases h
  | x :: xs, [], h, _ => by cases h
  | x :: xs, y :: ys, h, hR => by
      rw [List.map_cons, List.map_cons, List.cons.injEq] at h
      refine .cons (hR x List.mem_cons_self y List.mem_cons_self h.1) ?_
      exact forall₂_of_map_eq h.2 fun a ha b hb =>
        hR a (List.mem_cons_of_mem _ ha) b (List.mem_cons_of_mem _ hb)

/-! ## Lines -/

/-- A text of lines, each with a line break at its end. -/
def unlines (lines : List (List Char)) : List Char :=
  lines.flatMap (· ++ ['\n'])

@[simp]
theorem unlines_nil : unlines [] = [] :=
  rfl

@[simp]
theorem unlines_cons (line : List Char) (lines : List (List Char)) :
    unlines (line :: lines) = line ++ '\n' :: unlines lines := by
  simp [unlines]

theorem unlines_append (a b : List (List Char)) : unlines (a ++ b) = unlines a ++ unlines b :=
  List.flatMap_append

theorem unlines_injective :
    ∀ {as bs : List (List Char)}, (∀ a ∈ as, '\n' ∉ a) → (∀ b ∈ bs, '\n' ∉ b) →
      unlines as = unlines bs → as = bs
  | [], [], _, _, _ => rfl
  | [], b :: bs, _, _, h => by simp at h
  | a :: as, [], _, _, h => by simp at h
  | a :: as, b :: bs, ha, hb, h => by
      rw [unlines_cons, unlines_cons] at h
      obtain ⟨rfl, hRest⟩ :=
        append_cons_inj (ha a List.mem_cons_self) (hb b List.mem_cons_self) h
      rw [unlines_injective (fun x hx => ha x (List.mem_cons_of_mem _ hx))
        (fun x hx => hb x (List.mem_cons_of_mem _ hx)) hRest]

/-! ## Blocks -/

structure Block where
  head : String
  settings : List (String × String) := []

namespace Block

def line (setting : String × String) : List Char :=
  ' ' :: ' ' :: setting.1.toList ++ ' ' :: '=' :: ' ' :: setting.2.toList

def lines (b : Block) : List (List Char) :=
  b.head.toList :: b.settings.map line

def texts (blocks : List Block) : List Char :=
  unlines (blocks.flatMap lines)

/-- A setting on one line, whose key ends at the first blank. -/
def CleanSetting (setting : String × String) : Prop :=
  ' ' ∉ setting.1.toList ∧ '\n' ∉ setting.1.toList ∧ '\n' ∉ setting.2.toList

/-- A block whose lines are where they seem to be: no line break inside a line, no blank in front of
the head or inside a key. -/
structure Clean (b : Block) : Prop where
  head : '\n' ∉ b.head.toList
  column : b.head.toList.head? ≠ some ' '
  settings : ∀ s ∈ b.settings, CleanSetting s

theorem line_injective {s t : String × String} (hs : ' ' ∉ s.1.toList) (ht : ' ' ∉ t.1.toList)
    (h : line s = line t) : s = t := by
  simp only [line, List.cons_append, List.cons.injEq, true_and] at h
  obtain ⟨hKey, hValue⟩ := append_cons_inj hs ht h
  simp only [List.cons.injEq, true_and] at hValue
  exact Prod.ext (String.toList_injective hKey) (String.toList_injective hValue)

theorem Clean.not_mem_lines {b : Block} (h : b.Clean) : ∀ l ∈ b.lines, '\n' ∉ l := by
  intro l hl
  rcases List.mem_cons.1 hl with rfl | hl
  · exact h.head
  · obtain ⟨s, hs, rfl⟩ := List.mem_map.1 hl
    obtain ⟨-, hKey, hValue⟩ := h.settings s hs
    simp [line, hKey, hValue]

theorem lines_injective :
    ∀ {bs cs : List Block}, (∀ b ∈ bs, b.Clean) → (∀ c ∈ cs, c.Clean) →
      bs.flatMap lines = cs.flatMap lines → bs = cs
  | [], [], _, _, _ => rfl
  | [], c :: cs, _, _, h => by simp [lines] at h
  | b :: bs, [], _, _, h => by simp [lines] at h
  | b :: bs, c :: cs, hb, hc, h => by
      simp only [List.flatMap_cons, lines, List.cons_append, List.cons.injEq] at h
      obtain ⟨hHead, h⟩ := h
      -- settings are indented, and what follows them begins with a head, which is not
      have indented (a : Block) : ∀ l ∈ a.settings.map line, l.head? = some ' ' := by
        intro l hl
        obtain ⟨s, -, rfl⟩ := List.mem_map.1 hl
        rfl
      have stop {as : List Block} (has : ∀ a ∈ as, a.Clean) :
          ∀ l, (as.flatMap lines).head? = some l → l.head? ≠ some ' ' := by
        intro l hl
        cases as with
        | nil => cases hl
        | cons a as =>
            cases hl
            exact (has a List.mem_cons_self).column
      have hbs := fun x hx => hb x (List.mem_cons_of_mem _ hx)
      have hcs := fun x hx => hc x (List.mem_cons_of_mem _ hx)
      obtain ⟨hSettings, hRest⟩ := append_inj_of_test (·.head? = some ' ') (indented b)
        (indented c) (stop hbs) (stop hcs) h
      have hEq : b.settings = c.settings :=
        List.forall₂_eq_eq_eq ▸ forall₂_of_map_eq hSettings fun s hs t ht =>
          line_injective ((hb b List.mem_cons_self).settings s hs).1
            ((hc c List.mem_cons_self).settings t ht).1
      have hBlock : b = c := by
        cases b
        cases c
        cases String.toList_injective hHead
        cases hEq
        rfl
      rw [hBlock, lines_injective hbs hcs hRest]

/-- **Blocks.** The text of clean blocks determines the blocks. -/
theorem texts_injective {bs cs : List Block} (hb : ∀ b ∈ bs, b.Clean) (hc : ∀ c ∈ cs, c.Clean)
    (h : texts bs = texts cs) : bs = cs := by
  have free {as : List Block} (has : ∀ a ∈ as, a.Clean) :
      ∀ l ∈ as.flatMap lines, '\n' ∉ l := by
    intro l hl
    obtain ⟨a, ha, hl⟩ := List.mem_flatMap.1 hl
    exact (has a ha).not_mem_lines l hl
  exact lines_injective hb hc (unlines_injective (free hb) (free hc) h)

end Block

end NinjaFile
