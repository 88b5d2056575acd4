import NinjaFile.Proofs.Endings
import NinjaFile.Sorting.Runs

/-!
# Sorting items of two sides

A comparison may refuse a pair of items. Suppose that it answers only if both items
are on one side: then the sort refuses a pair too, or all items are on one side, and
it has put them in some order (`ends_sort`).

The sort does not compare all pairs, so it has to be seen that no two sides remain. The
invariant is that the items of every run are on one side. A run that is found is
compared item by item, an item that is put in its place is compared with one item of
the run at least, and so are two runs that are merged. No more than one comparison
matters each time; how a merge goes on behind it only has to keep the items.
-/

namespace NinjaFile.Sorting

open Outcome (Ends)
open scoped List

variable {α ε κ : Type} {refused : ε → Prop}

/-! ## Searches -/

/-- A search among some places makes a test at one of them. -/
theorem ends_bisect {test : Nat → Except ε Bool} {tells : Prop} (side : Side) (low : Nat)
    {high : Nat} (h : ∀ place, place < high → Ends refused (fun _ => tells) (test place)) :
    Ends refused (fun _ => low < high → tells) (bisect test side low high) := by
  fun_induction bisect test side low high with
  | case1 low high hLow bounds e hTest =>
      have hEnds := h _ bounds.2
      rw [hTest] at hEnds
      exact hEnds
  | case2 low high hLow bounds hTest ih =>
      have hEnds := h _ bounds.2
      rw [hTest] at hEnds
      exact (ih h).imp fun _ _ _ => hEnds
  | case3 low high hLow bounds hTest ih =>
      have hEnds := h _ bounds.2
      rw [hTest] at hEnds
      exact (ih fun place hPlace => h place (by omega)).imp fun _ _ _ => hEnds
  | case4 low high hLow => exact fun hLess => absurd hLess hLow

theorem ends_stride {test : Nat → Except ε Bool} {limit last next : Nat}
    (h : ∀ place, Ends refused (fun _ => True) (test place)) :
    Ends refused (fun _ => True) (stride test limit last next) := by
  fun_induction stride test limit last next with
  | case1 last next hNext e hTest =>
      have hEnds := h next
      rwa [hTest] at hEnds
  | case2 last next hNext hTest ih => exact ih
  | case3 => trivial
  | case4 => trivial

section

variable {passes : α → Except ε Bool} {tells : Prop} {items : List α}
  (h : ∀ item ∈ items, Ends refused (fun _ => tells) (passes item))

include h

theorem ends_at? (place : Nat) :
    Ends refused (fun _ => place < items.length → tells) (at? passes items place) := by
  unfold at?
  split
  · rename_i hNone
    intro hPlace
    rw [List.getElem?_eq_none_iff] at hNone
    omega
  · rename_i item hItem
    exact (h item (List.mem_of_getElem? hItem)).imp fun _ hTells _ => hTells

theorem ends_leading (side : Side) :
    Ends refused (fun _ => items ≠ [] → tells) (leading passes side items) := by
  have hAt := ends_at? h
  have hTest (place : Nat) : Ends refused (fun _ => True) (at? passes items place) :=
    (hAt place).imp fun _ _ => trivial
  unfold leading
  refine (hAt 0).bind fun answer hFirst => ?_
  have hTells : items ≠ [] → tells := fun hItems => hFirst (List.length_pos_iff.2 hItems)
  split
  · exact (ends_stride hTest).bind fun _ _ => (ends_bisect _ _ fun place _ => hTest place).imp
      fun _ _ => hTells
  · exact hTells

end

theorem ends_insert {before : α → α → Except ε Bool} {tells : Prop} {item : α} {run : List α}
    (h : ∀ other ∈ run, Ends refused (fun _ => tells) (before item other)) :
    Ends refused (fun out => out.Perm (item :: run) ∧ (run ≠ [] → tells))
      (insert before item run) := by
  have hStays : ∀ other ∈ run, Ends refused (fun _ => tells)
      (do return !(← before item other) : Except ε Bool) :=
    fun other hOther => (h other hOther).bind fun _ hTells => hTells
  have hPlace := ends_bisect .front 0 fun place hPlace =>
    (ends_at? hStays place).imp fun _ hTells => hTells hPlace
  refine hPlace.bind fun place hTells => ⟨?_, fun hRun => hTells (List.length_pos_iff.2 hRun)⟩
  have hMiddle : run.take place ++ item :: run.drop place ~
      item :: (run.take place ++ run.drop place) := List.perm_middle
  rwa [List.take_append_drop] at hMiddle

/-! ## Runs -/

def Alike (side : α → κ) (items : List α) : Prop :=
  ∀ a ∈ items, ∀ b ∈ items, side a = side b

/-- A comparison of items that is refused, or else tells that they are on one side. -/
def Compares (refused : ε → Prop) (side : α → κ) (before : α → α → Except ε Bool)
    (items : List α) : Prop :=
  ∀ a ∈ items, ∀ b ∈ items, Ends refused (fun _ => side a = side b) (before a b)

section

variable {side : α → κ} {before : α → α → Except ε Bool} {items : List α}

theorem alike_of_side {c : κ} (h : ∀ a ∈ items, side a = c) : Alike side items :=
  fun a ha b hb => (h a ha).trans (h b hb).symm

theorem Alike.of_perm {other : List α} (h : Alike side items) (hPerm : other.Perm items) :
    Alike side other :=
  fun a ha b hb => h a (hPerm.mem_iff.1 ha) b (hPerm.mem_iff.1 hb)

theorem Alike.append {a b : List α} (ha : Alike side a) (hb : Alike side b) {x y : α}
    (hx : x ∈ a) (hy : y ∈ b) (h : side x = side y) : Alike side (a ++ b) := by
  refine alike_of_side (c := side x) fun z hz => ?_
  rcases List.mem_append.1 hz with hz | hz
  · exact ha z hz x hx
  · exact (hb z hz y hy).trans h.symm

theorem Compares.mono {other : List α} (h : Compares refused side before items)
    (hSub : other ⊆ items) : Compares refused side before other :=
  fun a ha b hb => h a (hSub ha) b (hSub hb)

theorem ends_ascent {last : α} (h : Compares refused side before (last :: items)) :
    Ends refused (fun r => r.1 ++ r.2 = items ∧ ∀ a ∈ r.1, side a = side last)
      (ascent before last items) := by
  induction items generalizing last with
  | nil => exact ⟨rfl, by simp⟩
  | cons item items ih =>
      rw [ascent]
      refine (h item (by simp) last (by simp)).bind fun answer hSide => ?_
      split
      · exact ⟨rfl, by simp⟩
      · refine (ih (h.mono (List.subset_cons_self _ _))).bind fun r hRun => ?_
        obtain ⟨hSplit, hRun⟩ := hRun
        refine ⟨congrArg (item :: ·) hSplit, List.forall_mem_cons.2 ⟨hSide, ?_⟩⟩
        exact fun a ha => (hRun a ha).trans hSide

theorem ends_descent {last : α} (h : Compares refused side before (last :: items)) :
    Ends refused (fun r => r.1 ++ r.2 = items ∧ ∀ a ∈ r.1, side a = side last)
      (descent before last items) := by
  induction items generalizing last with
  | nil => exact ⟨rfl, by simp⟩
  | cons item items ih =>
      rw [descent]
      refine (h item (by simp) last (by simp)).bind fun answer hSide => ?_
      split
      · refine (ih (h.mono (List.subset_cons_self _ _))).bind fun r hRun => ?_
        obtain ⟨hSplit, hRun⟩ := hRun
        refine ⟨congrArg (item :: ·) hSplit, List.forall_mem_cons.2 ⟨hSide, ?_⟩⟩
        exact fun a ha => (hRun a ha).trans hSide
      · exact ⟨rfl, by simp⟩

/-- What is cut off the front of a list: a run on one side, which has an item if there is any. -/
structure CutOff (side : α → κ) (items run rest : List α) : Prop where
  perm : (run ++ rest).Perm items
  alike : Alike side run
  nonempty : items ≠ [] → run ≠ []

theorem ends_natural (h : Compares refused side before items) :
    Ends refused (fun r => CutOff side items r.1 r.2) (natural before items) := by
  match items, h with
  | [], _ => exact ⟨List.Perm.refl _, by simp [Alike], id⟩
  | [x], _ => exact ⟨List.Perm.refl _, by simp [Alike], fun _ => by simp⟩
  | x :: y :: items, h =>
      rw [natural]
      refine (h y (by simp) x (by simp)).bind fun answer hSide => ?_
      have hTail := h.mono (List.subset_cons_self x (y :: items))
      -- in either direction the items behind the second are like it
      have hCut {run rest : List α} (hSplit : run ++ rest = items)
          (hRun : ∀ a ∈ run, side a = side y) :
          CutOff side (x :: y :: items) (x :: y :: run) rest := by
        refine ⟨?_, ?_, fun _ => by simp⟩
        · rw [← hSplit]
          exact List.Perm.refl _
        · refine alike_of_side (c := side y) ?_
          simpa using ⟨hSide.symm, hRun⟩
      split
      · refine (ends_descent hTail).bind fun r hRun => ?_
        have hForward := hCut hRun.1 hRun.2
        have hReverse := List.reverse_perm (x :: y :: r.1)
        exact ⟨(hReverse.append_right r.2).trans hForward.perm, hForward.alike.of_perm hReverse,
          fun _ => by simp⟩
      · exact (ends_ascent hTail).bind fun r hRun => hCut hRun.1 hRun.2

theorem CutOff.insert {run left : List α} {item : α} (h : Compares refused side before items)
    (hCut : CutOff side items run (item :: left)) :
    Ends refused (fun out => CutOff side items out left) (insert before item run) := by
  have hMem : ∀ a ∈ item :: run, a ∈ items := by
    intro a ha
    apply hCut.perm.subset
    rcases List.mem_cons.1 ha with rfl | ha
    · simp
    · exact List.mem_append_left _ ha
  have hItems : items ≠ [] := List.ne_nil_of_mem (hMem item List.mem_cons_self)
  obtain ⟨first, hFirst⟩ := List.exists_mem_of_ne_nil run (hCut.nonempty hItems)
  have hCompare : ∀ other ∈ run, Ends refused (fun _ => side item = side first)
      (before item other) := by
    intro other hOther
    have hSide := h item (hMem item List.mem_cons_self) other (hMem other (by simp [hOther]))
    exact hSide.imp fun _ hSide => hSide.trans (hCut.alike other hOther first hFirst)
  refine (ends_insert hCompare).imp fun out hOut => ?_
  obtain ⟨hPerm, hSide⟩ := hOut
  have hAlike : Alike side (item :: run) := by
    refine alike_of_side (c := side first) (List.forall_mem_cons.2 ⟨hSide ?_, ?_⟩)
    · exact hCut.nonempty hItems
    · exact fun a ha => hCut.alike a ha first hFirst
  refine ⟨?_, hAlike.of_perm hPerm, fun _ => ?_⟩
  · exact ((hPerm.append_right left).trans List.perm_middle.symm).trans hCut.perm
  · exact fun hNil => by simp [hNil] at hPerm

theorem ends_nextRun (h : Compares refused side before items) (fill : Nat) :
    Ends refused (fun r => CutOff side items r.1 r.2) (nextRun before fill items) := by
  unfold nextRun
  refine (ends_natural h).bind fun r hCut => ?_
  obtain ⟨run, rest⟩ := r
  dsimp only at hCut ⊢
  generalize fill - run.length = missing
  -- the items that fill the run are put in one by one
  have hStart : CutOff side items run (rest.take missing ++ rest.drop missing) := by
    rwa [List.take_append_drop]
  have hFill := Outcome.ends_foldlM (fun run item => insert before item run)
    (fun left run => CutOff side items run (left ++ rest.drop missing))
    (fun item left run hRun => hRun.insert h) hStart
  exact hFill.bind fun filled hFilled => hFilled

/-! ## Merges -/

/-- What is left to be merged after some rounds, together with what was put out. -/
abbrev Keeps (first second : List α) (move : Move α) : Prop :=
  (move.out ++ (move.first ++ move.second)).Perm (first ++ second)

end

section

variable {m : Merging α ε} {first second : List α}

/-- Every item of either list can be compared with every item of the other, or is refused. -/
def Merging.Asks (refused : ε → Prop) (m : Merging α ε) (items : List α) : Prop :=
  ∀ a ∈ items, ∀ b ∈ items, Ends refused (fun _ => True) (m.ahead a b)

theorem Merging.Asks.mono {items other : List α} (h : m.Asks refused items)
    (hSub : other ⊆ items) : m.Asks refused other :=
  fun a ha b hb => h a (hSub ha) b (hSub hb)

theorem Merging.ends_moveFirst (h : m.Asks refused (first ++ second)) :
    Ends refused (Keeps first second) (m.moveFirst first second) := by
  cases second with
  | nil => exact List.Perm.refl _
  | cons head tail =>
      rw [moveFirst]
      have hStays : ∀ item ∈ first, Ends refused (fun _ => True)
          (do return !(← m.ahead head item) : Except ε Bool) :=
        fun item hItem => (h head (by simp) item (by simp [hItem])).bind fun _ _ => trivial
      refine (ends_leading hStays m.side).bind fun found _ => ?_
      have hSplit := List.take_append_drop found first
      dsimp only
      split
      · show (first.take found ++ (first.drop found ++ head :: tail)).Perm _
        rw [← List.append_assoc, hSplit]
      · show (first.take found ++ [head] ++ (first.drop found ++ tail)).Perm _
        calc first.take found ++ [head] ++ (first.drop found ++ tail)
            = first.take found ++ head :: (first.drop found ++ tail) := by simp
          _ ~ head :: (first.take found ++ (first.drop found ++ tail)) := List.perm_middle
          _ = head :: (first ++ tail) := by rw [← List.append_assoc, hSplit]
          _ ~ first ++ head :: tail := List.perm_middle.symm

theorem Merging.ends_moveSecond (h : m.Asks refused (first ++ second)) :
    Ends refused (Keeps first second) (m.moveSecond first second) := by
  cases first with
  | nil => exact List.Perm.refl _
  | cons head tail =>
      rw [moveSecond]
      have hAhead : ∀ item ∈ second, Ends refused (fun _ => True) (m.ahead item head) :=
        fun item hItem => h item (by simp [hItem]) head (by simp)
      refine (ends_leading hAhead m.side).bind fun found _ => ?_
      have hSplit := List.take_append_drop found second
      -- what was found stood behind the first list
      have hMoved : second.take found ++ (head :: tail ++ second.drop found) ~
          head :: tail ++ second := by
        calc second.take found ++ (head :: tail ++ second.drop found)
            ~ head :: tail ++ (second.take found ++ second.drop found) :=
              List.perm_append_comm_assoc _ _ _
          _ = head :: tail ++ second := by rw [hSplit]
      dsimp only
      split
      · exact hMoved
      · show second.take found ++ [head] ++ (tail ++ second.drop found) ~ _
        rw [List.append_assoc]
        exact hMoved

theorem ends_moves {one two : List α → List α → Except ε (Move α)}
    (hOne : Ends refused (Keeps first second) (one first second))
    (hTwo : ∀ a, Keeps first second a → Ends refused (Keeps a.first a.second)
      (two a.first a.second)) :
    Ends refused (Keeps first second) (do
      let a ← one first second
      if (finish? a.first a.second).isSome then return a
      else
        let b ← two a.first a.second
        return { b with out := a.out ++ b.out, found := max a.found b.found }) := by
  refine hOne.bind fun a hA => ?_
  split
  · exact hA
  · refine (hTwo a hA).bind fun b hB => ?_
    show a.out ++ b.out ++ (b.first ++ b.second) ~ first ++ second
    rw [List.append_assoc]
    exact (hB.append_left a.out).trans hA

theorem Merging.ends_moveBoth (h : m.Asks refused (first ++ second)) :
    Ends refused (Keeps first second) (m.moveBoth first second) := by
  have hLeft (a : Move α) (hA : Keeps first second a) : m.Asks refused (a.first ++ a.second) :=
    h.mono fun x hx => hA.subset (List.mem_append_right _ hx)
  unfold moveBoth
  cases m.side with
  | front =>
      exact ends_moves (ends_moveFirst h) fun a hA => ends_moveSecond (hLeft a hA)
  | back =>
      exact ends_moves (ends_moveSecond h) fun a hA => ends_moveFirst (hLeft a hA)

theorem perm_of_finish? {rest : List α} (h : finish? first second = some rest) :
    rest ~ first ++ second := by
  unfold finish? at h
  split at h
  · cases h
    simp
  · cases h
    simp
  · cases h
    exact List.perm_append_comm
  · cases h

theorem Merging.ends_run {rounds : Nat} {pace : Merging.Pace} {patience : Nat}
    (h : m.Asks refused (first ++ second)) :
    Ends refused (fun r => r.1 ~ first ++ second) (m.run rounds pace patience first second) := by
  induction rounds generalizing pace patience first second with
  | zero =>
      unfold run
      split
      · rename_i rest hFinish
        exact perm_of_finish? hFinish
      · exact List.Perm.refl _
  | succ rounds ih =>
      unfold run
      split
      · rename_i rest hFinish
        exact perm_of_finish? hFinish
      split
      · -- head by head: the one that is put out was in front of its list
        rename_i n a b x xs y ys hRounds hNone
        cases hRounds
        refine (h y (by simp) x (by simp)).bind fun answer _ => ?_
        cases answer with
        | true =>
            have hRest : m.Asks refused (x :: xs ++ ys) := h.mono fun z hz =>
              List.perm_middle.symm.subset (List.mem_cons_of_mem _ hz)
            exact (ih hRest).bind fun r hR => (hR.cons y).trans List.perm_middle.symm
        | false =>
            have hRest : m.Asks refused (xs ++ y :: ys) := h.mono (by simp)
            exact (ih hRest).bind fun r hR => hR.cons x
      · -- at one go
        rename_i n patience hRounds hNone
        cases hRounds
        refine (ends_moveBoth h).bind fun move hMove => ?_
        split
        · rename_i rest hFinish
          exact ((perm_of_finish? hFinish).append_left move.out).trans hMove
        · have hRest : m.Asks refused (move.first ++ move.second) :=
            h.mono fun x hx => hMove.subset (List.mem_append_right _ hx)
          split
          all_goals exact (ih hRest).bind fun r hR => (hR.append_left move.out).trans hMove
      · exact List.Perm.refl _

theorem Merging.ends_all {patience : Nat} (h : m.Asks refused (first ++ second)) :
    Ends refused (fun r => r.1 ~ first ++ second) (m.all patience first second) := by
  cases second with
  | nil =>
      rw [List.append_nil]
      exact List.Perm.refl _
  | cons head tail =>
      have hRest : m.Asks refused (first ++ tail) :=
        h.mono fun x hx => List.perm_middle.symm.subset (List.mem_cons_of_mem _ hx)
      exact (ends_run hRest).bind fun r hR => (hR.cons head).trans List.perm_middle.symm

end

section

variable {side : α → κ} {before : α → α → Except ε Bool} {a b : List α}

theorem reverse_drop_append (b : List α) (n : Nat) :
    (b.reverse.drop n).reverse ++ b.drop (b.reverse.drop n).length = b := by
  rw [List.drop_reverse, List.reverse_reverse, List.length_reverse, List.length_take,
    Nat.min_eq_left (Nat.sub_le _ _), List.take_append_drop]

/-- The merge of what is not in its place, the second list from its back. -/
theorem ends_unplaced {first second : List α}
    (h : Compares refused side before (first ++ second.reverse)) (patience : Nat) :
    Ends refused (fun r => r.1 ~ first ++ second.reverse)
      (if first.length ≤ second.length then
        Merging.all ⟨before, .front⟩ patience first second.reverse
      else
        (Merging.all ⟨fun x y => before y x, .back⟩ patience second first.reverse).map fun result =>
          (result.1.reverse, result.2)) := by
  split
  · refine Merging.ends_all fun x hx y hy => ?_
    exact (h x hx y hy).imp fun _ _ => trivial
  · have hFlip : second ++ first.reverse ~ first ++ second.reverse :=
      (((List.reverse_perm second).symm).append (List.reverse_perm first)).trans
        List.perm_append_comm
    have hAsks : Merging.Asks refused ⟨fun x y => before y x, .back⟩
        (second ++ first.reverse) := by
      intro x hx y hy
      exact (h y (hFlip.subset hy) x (hFlip.subset hx)).imp fun _ _ => trivial
    exact (Merging.ends_all hAsks).map fun r hR => ((List.reverse_perm r.1).trans hR).trans hFlip

/-- **Two runs become one**, and if both have an item they were on one side. -/
theorem ends_merge (h : Compares refused side before (a ++ b)) (ha : Alike side a)
    (hb : Alike side b) (patience : Nat) :
    Ends refused (fun r => r.1 ~ a ++ b ∧ Alike side r.1) (merge before patience a b) := by
  cases b with
  | nil =>
      have hSame : merge before patience a [] = .ok (a ++ [], patience) := by
        unfold merge
        split <;> trivial
      rw [hSame, List.append_nil]
      exact ⟨List.Perm.refl _, ha⟩
  | cons head tail =>
  cases hLast : a.getLast? with
  | none =>
      rw [List.getLast?_eq_none_iff.1 hLast]
      exact ⟨List.Perm.refl _, hb⟩
  | some last =>
  have hLastMem : last ∈ a := List.mem_of_getLast? hLast
  have hStays : ∀ item ∈ a, Ends refused (fun _ => side last = side head)
      (do return !(← before head item) : Except ε Bool) := by
    intro item hItem
    refine (h head (by simp) item (by simp [hItem])).bind fun _ hSide => ?_
    exact (ha last hLastMem item hItem).trans hSide.symm
  have hBehind : ∀ item ∈ (head :: tail).reverse, Ends refused (fun _ => True)
      (do return !(← before item last) : Except ε Bool) := by
    intro item hItem
    have hMem : item ∈ a ++ head :: tail := List.mem_append_right _ (List.mem_reverse.1 hItem)
    exact (h item hMem last (List.mem_append_left _ hLastMem)).bind fun _ _ => trivial
  unfold merge
  simp only [hLast]
  refine (ends_leading hStays .front).bind fun inPlace hFirst => ?_
  have hAlike : Alike side (a ++ head :: tail) :=
    ha.append hb hLastMem List.mem_cons_self (hFirst (List.ne_nil_of_mem hLastMem))
  -- the first comparison has told the side, and what comes behind it keeps the items
  refine (?_ : Ends refused (fun r => r.1 ~ a ++ head :: tail) _).imp
    fun r hPerm => ⟨hPerm, hAlike.of_perm hPerm⟩
  have hSplit := List.take_append_drop inPlace a
  split
  · exact List.Perm.refl _
  refine (ends_leading hBehind .back).bind fun behind _ => ?_
  have hEnd := reverse_drop_append (head :: tail) behind
  generalize (head :: tail).reverse.drop behind = second at hEnd ⊢
  generalize a.drop inPlace = first at hSplit ⊢
  have hSub : first ++ second.reverse ⊆ a ++ head :: tail := by
    rw [← hSplit, ← hEnd]
    intro x hx
    rcases List.mem_append.1 hx with hx | hx
    · exact List.mem_append_left _ (List.mem_append_right _ hx)
    · exact List.mem_append_right _ (List.mem_append_left _ hx)
  split
  · exact List.Perm.refl _
  have hUnplaced := ends_unplaced (h.mono hSub) patience
  have hPlaced (r : List α × Nat) (hR : r.1 ~ first ++ second.reverse) :
      a.take inPlace ++ r.1 ++ (head :: tail).drop second.length ~ a ++ head :: tail := by
    calc a.take inPlace ++ r.1 ++ (head :: tail).drop second.length
        ~ a.take inPlace ++ (first ++ second.reverse) ++ (head :: tail).drop second.length :=
          (hR.append_left _).append_right _
      _ = (a.take inPlace ++ first) ++
            (second.reverse ++ (head :: tail).drop second.length) := by simp
      _ = a ++ head :: tail := by rw [hSplit, hEnd]
  by_cases hShorter : first.length ≤ second.length
  · rw [if_pos hShorter] at hUnplaced ⊢
    exact hUnplaced.bind hPlaced
  · rw [if_neg hShorter] at hUnplaced ⊢
    exact hUnplaced.bind hPlaced

/-! ## Waiting runs -/

def itemsOf (runs : List (Waiting α)) : List α :=
  runs.flatMap Waiting.items

/-- Waiting runs that hold some items, each run on one side. -/
structure Holds (side : α → κ) (runs : List (Waiting α)) (items : List α) : Prop where
  perm : itemsOf runs ~ items
  alike : ∀ run ∈ runs, Alike side run.items

theorem Holds.trans {runs : List (Waiting α)} {items other : List α} (h : Holds side runs items)
    (hPerm : items ~ other) : Holds side runs other :=
  ⟨h.perm.trans hPerm, h.alike⟩

theorem itemsOf_cons (run : Waiting α) (runs : List (Waiting α)) :
    itemsOf (run :: runs) = run.items ++ itemsOf runs :=
  rfl

theorem itemsOf_append (front runs : List (Waiting α)) :
    itemsOf (front ++ runs) = itemsOf front ++ itemsOf runs :=
  List.flatMap_append

theorem Holds.merge {a b : Waiting α} (front : List (Waiting α)) {runs : List (Waiting α)}
    {items : List α} (h : Compares refused side before items)
    (hRuns : Holds side (front ++ b :: a :: runs) items) (patience start level : Nat) :
    Ends refused (fun r => Holds side (front ++ ⟨start, r.1, level⟩ :: runs) items)
      (merge before patience a.items b.items) := by
  have hSwap : itemsOf front ++ (a.items ++ b.items ++ itemsOf runs) ~ items := by
    refine List.Perm.trans (List.Perm.append_left _ ?_) (itemsOf_append front _ ▸ hRuns.perm)
    rw [itemsOf_cons, itemsOf_cons, ← List.append_assoc]
    exact List.perm_append_comm.append_right _
  have hMem : a.items ++ b.items ⊆ items := fun x hx =>
    hSwap.subset (List.mem_append_right _ (List.mem_append_left _ hx))
  refine (ends_merge (h.mono hMem) (hRuns.alike a (by simp)) (hRuns.alike b (by simp))
    patience).imp fun r hR => ⟨?_, ?_⟩
  · rw [itemsOf_append, itemsOf_cons]
    exact ((hR.1.append_right _).append_left _).trans hSwap
  · intro run hRun
    rcases List.mem_append.1 hRun with hRun | hRun
    · exact hRuns.alike run (List.mem_append_left _ hRun)
    · rcases List.mem_cons.1 hRun with rfl | hRun
      · exact hR.2
      · exact hRuns.alike run (by simp [hRun])

theorem ends_settle {runs : List (Waiting α)} {items : List α} (level patience : Nat)
    (h : Compares refused side before items) (hRuns : Holds side runs items) :
    Ends refused (fun pending => Holds side pending.runs items)
      (settle before level patience runs) := by
  fun_induction settle before level patience runs with
  | case1 patience b a runs hLevel ih =>
      exact (Holds.merge [] h hRuns patience a.start a.level).bind
        fun r hR => ih r.1 r.2 hR
  | case2 patience b a runs hLevel =>
      exact ⟨hRuns.perm, by simpa using hRuns.alike⟩
  | case3 patience b => exact ⟨hRuns.perm, by simpa using hRuns.alike⟩
  | case4 patience => exact hRuns

theorem ends_push {pending : Pending α} {items run : List α} (n : Nat)
    (h : Compares refused side before items) (hRuns : Holds side pending.runs items)
    (hRun : Alike side run) :
    Ends refused (fun after => Holds side after.runs (run ++ items))
      (push before n pending run) := by
  have hPushed {runs : List (Waiting α)} (hRuns : Holds side runs items) (start level : Nat) :
      Holds side (⟨start, run, level⟩ :: runs) (run ++ items) :=
    ⟨hRuns.perm.append_left run, List.forall_mem_cons.2 ⟨hRun, hRuns.alike⟩⟩
  unfold push
  split
  · rename_i hNil
    rw [hNil] at hRuns
    exact hPushed hRuns 0 0
  · rename_i last runs hLast
    exact (ends_settle _ pending.patience h hRuns).bind fun settled hSettled =>
      hPushed hSettled _ 0

theorem ends_collapse {runs : List (Waiting α)} {items : List α} (patience : Nat)
    (h : Compares refused side before items) (hRuns : Holds side runs items) :
    Ends refused (fun out => out ~ items ∧ Alike side out) (collapse before patience runs) := by
  have alone {run : Waiting α} (hRun : Holds side [run] items) :
      run.items ~ items ∧ Alike side run.items :=
    ⟨by simpa [itemsOf] using hRun.perm, hRun.alike run List.mem_cons_self⟩
  fun_induction collapse before patience runs with
  | case1 patience c b a runs hShorter ih =>
      exact (Holds.merge [c] h hRuns patience a.start 0).bind fun r hR => ih r.1 r.2 hR
  | case2 patience c b a runs hShorter ih =>
      exact (Holds.merge [] h hRuns patience b.start 0).bind fun r hR => ih r.1 r.2 hR
  | case3 patience b a =>
      exact (Holds.merge [] h hRuns patience a.start 0).bind fun r hR => alone hR
  | case4 patience a => exact alone hRuns
  | case5 patience =>
      exact ⟨hRuns.perm, by simp [Alike]⟩

/-! ## Lists -/

theorem ends_gather {n rounds : Nat} {pending : Pending α} {items done : List α}
    (h : Compares refused side before (items ++ done)) (hRounds : items.length ≤ rounds)
    (hRuns : Holds side pending.runs done) :
    Ends refused (fun after => Holds side after.runs (items ++ done))
      (gather before n rounds pending items) := by
  induction rounds generalizing pending items done with
  | zero =>
      rw [List.length_eq_zero_iff.1 (Nat.le_zero.1 hRounds)]
      unfold gather
      exact hRuns
  | succ rounds ih =>
      cases items with
      | nil => exact hRuns
      | cons item items =>
          have hFront : Compares refused side before (item :: items) :=
            h.mono (List.subset_append_left _ _)
          have hDone : Compares refused side before done := h.mono (List.subset_append_right _ _)
          refine (ends_nextRun hFront (fillLength n)).bind fun r hCut => ?_
          refine (ends_push n hDone hRuns hCut.alike).bind fun after hAfter => ?_
          have hMoved : r.2 ++ (r.1 ++ done) ~ item :: items ++ done := by
            rw [← List.append_assoc]
            exact (List.perm_append_comm.trans hCut.perm).append_right done
          -- every run takes an item at least, so the rounds are enough
          have hFewer : r.2.length ≤ rounds := by
            have hLength := hCut.perm.length_eq
            have hRun := List.length_pos_iff.2 (hCut.nonempty (List.cons_ne_nil _ _))
            rw [List.length_append] at hLength
            omega
          exact (ih (h.mono hMoved.subset) hFewer hAfter).imp fun _ hAll => hAll.trans hMoved

/-- **A sort of items of two sides is refused.** Let a comparison of two items be refused, or else
tell that both are on one side. Then the sort is refused in the same way, or all items are on one
side, and it puts them in some order. -/
theorem ends_sort {items : List α} (h : Compares refused side before items) :
    Ends refused (fun out => out ~ items ∧ Alike side items) (sort before items) := by
  have hGather : Ends refused (fun after => Holds side after.runs (items ++ []))
      (gather before items.length items.length ⟨[], worthwhile⟩ items) :=
    ends_gather (by rwa [List.append_nil]) (Nat.le_refl _) ⟨List.Perm.refl _, by simp⟩
  rw [List.append_nil] at hGather
  refine hGather.bind fun pending hPending => ?_
  exact (ends_collapse pending.patience h hPending).imp fun out hOut =>
    ⟨hOut.1, hOut.2.of_perm hOut.1.symm⟩

end

end NinjaFile.Sorting
