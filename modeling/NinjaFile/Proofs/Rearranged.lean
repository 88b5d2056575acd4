import Mathlib.Data.List.Basic

/-!
# Rearranged calls

A call changes a state. It touches one slot of it, or none, and some calls have to wait
until others have made what they are about. Calls that touch different slots can be made
in either order. So two sequences of calls lead to the same state if they are
rearrangements of each other in which no call comes too early, and in which the calls that
touch one slot keep their order (`Calls.run_eq_of_rearranged`).

The proof is by induction on the first sequence. Its first call stands somewhere in the
second (`Calls.Rearranged.exists_split`), behind calls that are all independent of it, and
can be moved past them to the front (`Calls.Scoped.to_front`, `Calls.run_to_front`).
-/

namespace NinjaFile

/-- The calls `α` that change a state `σ`, which has slots `κ`. -/
structure Calls (σ α κ : Type) where
  /-- The state after a call. -/
  call : σ → α → σ
  /-- Is there what the call is about? -/
  Ready : σ → α → Prop
  /-- The slot that the call touches. -/
  slot? : α → Option κ

namespace Calls

variable {σ α κ : Type} (c : Calls σ α κ)

def Independent (a b : α) : Prop :=
  ∀ k, c.slot? a = some k → c.slot? b ≠ some k

/-- What makes independent calls commute: a call that is ready stays so, and of two ready ones that
are independent either can be made first. -/
structure Lawful : Prop where
  ready : ∀ s a b, c.Ready s b → c.Ready (c.call s a) b
  swap : ∀ s a b, c.Ready s a → c.Ready s b → c.Independent a b →
    c.call (c.call s a) b = c.call (c.call s b) a

def run : σ → List α → σ :=
  List.foldl c.call

/-- Each call is ready when it is made. -/
def Scoped : σ → List α → Prop
  | _, [] => True
  | s, a :: rest => c.Ready s a ∧ Scoped (c.call s a) rest

/-- Two sequences of the same calls, in which those that touch one slot have the same order. -/
structure Rearranged [DecidableEq κ] (first second : List α) : Prop where
  perm : first.Perm second
  order : ∀ k, first.filter (c.slot? · = some k) = second.filter (c.slot? · = some k)

variable {c}

/-! ## Moving a call to the front -/

theorem Scoped.to_front (hLawful : c.Lawful) {s : σ} {x : α} {before after : List α}
    (hReady : c.Ready s x) (hScoped : c.Scoped s (before ++ x :: after))
    (hIndependent : ∀ a ∈ before, c.Independent a x) : c.Scoped (c.call s x) (before ++ after) := by
  induction before generalizing s with
  | nil => exact hScoped.2
  | cons a before ih =>
      obtain ⟨hFirst, hRest⟩ := hScoped
      have hMoved := ih (hLawful.ready s a x hReady) hRest
        fun b hb => hIndependent b (List.mem_cons_of_mem _ hb)
      rw [hLawful.swap s a x hFirst hReady (hIndependent a List.mem_cons_self)] at hMoved
      exact ⟨hLawful.ready s x a hFirst, hMoved⟩

theorem run_to_front (hLawful : c.Lawful) {s : σ} {x : α} {before after : List α}
    (hReady : c.Ready s x) (hScoped : c.Scoped s (before ++ x :: after))
    (hIndependent : ∀ a ∈ before, c.Independent a x) :
    c.run s (before ++ x :: after) = c.run (c.call s x) (before ++ after) := by
  induction before generalizing s with
  | nil => rfl
  | cons a before ih =>
      obtain ⟨hFirst, hRest⟩ := hScoped
      calc c.run s (a :: before ++ x :: after)
          _ = c.run (c.call (c.call s a) x) (before ++ after) :=
            ih (hLawful.ready s a x hReady) hRest
              fun b hb => hIndependent b (List.mem_cons_of_mem _ hb)
          _ = c.run (c.call (c.call s x) a) (before ++ after) := by
            rw [hLawful.swap s a x hFirst hReady (hIndependent a List.mem_cons_self)]

/-! ## Rearrangements -/

section

variable [DecidableEq κ]

theorem Rearranged.exists_independent {x : α} {rest second : List α}
    (h : c.Rearranged (x :: rest) second) :
    ∃ before after, second = before ++ x :: after ∧ ∀ a ∈ before, c.Independent a x := by
  cases hSlot : c.slot? x with
  | none =>
      obtain ⟨before, after, hSecond⟩ := List.append_of_mem (h.perm.subset List.mem_cons_self)
      refine ⟨before, after, hSecond, ?_⟩
      intro a _ k _
      rw [hSlot]
      exact (Option.some_ne_none k).symm
  | some slot =>
      -- it is the first of the calls that touch the slot, in either sequence
      have hOrder := h.order slot
      rw [List.filter_cons_of_pos (by simp [hSlot])] at hOrder
      obtain ⟨before, after, hSecond, hBefore, -⟩ := List.filter_eq_cons_iff.1 hOrder.symm
      refine ⟨before, after, hSecond, ?_⟩
      intro a ha k hFirst hShared
      cases hSlot.symm.trans hShared
      exact hBefore a ha (decide_eq_true hFirst)

theorem Rearranged.tail {x : α} {rest before after : List α}
    (h : c.Rearranged (x :: rest) (before ++ x :: after))
    (hIndependent : ∀ a ∈ before, c.Independent a x) : c.Rearranged rest (before ++ after) := by
  refine ⟨(h.perm.trans List.perm_middle).cons_inv, ?_⟩
  intro k
  have hOrder := h.order k
  rw [List.filter_append] at hOrder ⊢
  by_cases hSlot : c.slot? x = some k
  · have hBefore : before.filter (c.slot? · = some k) = [] := by
      rw [List.filter_eq_nil_iff]
      intro a ha hShared
      exact hIndependent a ha k (of_decide_eq_true hShared) hSlot
    rw [hBefore, List.nil_append, List.filter_cons_of_pos (by simp [hSlot]),
      List.filter_cons_of_pos (by simp [hSlot])] at hOrder
    rw [hBefore, List.nil_append]
    exact (List.cons.inj hOrder).2
  · rw [List.filter_cons_of_neg (by simp [hSlot]), List.filter_cons_of_neg (by simp [hSlot])]
      at hOrder
    exact hOrder

/-- **Rearranged calls lead to the same state.** -/
theorem run_eq_of_rearranged (hLawful : c.Lawful) {s : σ} {first second : List α}
    (hFirst : c.Scoped s first) (hSecond : c.Scoped s second) (h : c.Rearranged first second) :
    c.run s first = c.run s second := by
  induction first generalizing s second with
  | nil =>
      rw [h.perm.nil_eq]
  | cons x rest ih =>
      obtain ⟨hReady, hRest⟩ := hFirst
      obtain ⟨before, after, rfl, hIndependent⟩ := h.exists_independent
      calc c.run s (x :: rest)
          _ = c.run (c.call s x) (before ++ after) :=
            ih hRest (hSecond.to_front hLawful hReady hIndependent) (h.tail hIndependent)
          _ = c.run s (before ++ x :: after) :=
            (run_to_front hLawful hReady hSecond hIndependent).symm

/-- The order needs to be compared for the slots that are touched only. -/
theorem rearranged_iff {first second : List α} :
    c.Rearranged first second ↔ first.Perm second ∧
      ∀ k ∈ first.filterMap c.slot?,
        first.filter (c.slot? · = some k) = second.filter (c.slot? · = some k) := by
  constructor
  · rintro ⟨hPerm, hOrder⟩
    exact ⟨hPerm, fun k _ => hOrder k⟩
  · rintro ⟨hPerm, hOrder⟩
    refine ⟨hPerm, ?_⟩
    intro k
    by_cases hTouched : k ∈ first.filterMap c.slot?
    · exact hOrder k hTouched
    · -- neither has a call that touches the slot
      have hNone : first.filter (c.slot? · = some k) = [] := by
        rw [List.filter_eq_nil_iff]
        intro a ha hSlot
        exact hTouched (List.mem_filterMap.2 ⟨a, ha, of_decide_eq_true hSlot⟩)
      have hBoth := hPerm.filter (c.slot? · = some k)
      rw [hNone] at hBoth ⊢
      exact hBoth.nil_eq

instance [DecidableEq α] (first second : List α) : Decidable (c.Rearranged first second) :=
  decidable_of_iff _ rearranged_iff.symm

end

instance decidableScoped [∀ s a, Decidable (c.Ready s a)] :
    ∀ s changes, Decidable (c.Scoped s changes)
  | _, [] => inferInstanceAs (Decidable True)
  | s, a :: rest =>
    have := decidableScoped (c.call s a) rest
    inferInstanceAs (Decidable (_ ∧ _))

end Calls

end NinjaFile
