/-!
# Outcomes

A step that can fail is an `Except`, and a sequence of steps succeeds exactly
when each of them does. The statements of this module take such a success apart,
and say which fault is the one of a list of checks.
-/

namespace NinjaFile.Outcome

variable {ε α β : Type}

theorem bind_eq_ok {x : Except ε α} {f : α → Except ε β} {b : β} :
    x >>= f = .ok b ↔ ∃ a, x = .ok a ∧ f a = .ok b := by
  constructor
  · intro h
    cases x with
    | error e => cases h
    | ok a => exact ⟨a, rfl, h⟩
  · rintro ⟨a, rfl, h⟩
    exact h

theorem map_eq_ok {x : Except ε α} {f : α → β} {b : β} :
    x.map f = .ok b ↔ ∃ a, x = .ok a ∧ f a = b := by
  constructor
  · intro h
    cases x with
    | error e => cases h
    | ok a => exact ⟨a, rfl, Except.ok.inj h⟩
  · rintro ⟨a, rfl, rfl⟩
    rfl

theorem mapM_eq_ok {f : α → Except ε β} {g : α → β} {items : List α}
    (h : ∀ a ∈ items, f a = .ok (g a)) : items.mapM f = .ok (items.map g) := by
  induction items with
  | nil => rfl
  | cons a items ih =>
    obtain ⟨hFirst, hRest⟩ := List.forall_mem_cons.1 h
    rw [List.mapM_cons, hFirst, ih hRest]
    rfl

/-! ## Checks -/

variable {γ : Type} {check : γ → Except ε Unit}

/-- What two steps forget of their results they forget of the first one first. -/
theorem map_bind_const {x : Except ε α} {f : α → Except ε β} {rest : Except ε Unit}
    (h : ∀ a, (f a).map (fun _ => ()) = rest) :
    (x >>= f).map (fun _ => ()) = x.map (fun _ => ()) >>= fun _ => rest := by
  cases x with
  | error e => rfl
  | ok a => exact h a

theorem forM_eq_ok {items : List γ} : forM items check = .ok () ↔ ∀ c ∈ items, check c = .ok () := by
  induction items with
  | nil => simp [pure, Except.pure]
  | cons c items ih =>
    rw [List.forM_cons, bind_eq_ok, List.forall_mem_cons, ← ih]
    constructor
    · rintro ⟨⟨⟩, hFirst, hRest⟩
      exact ⟨hFirst, hRest⟩
    · rintro ⟨hFirst, hRest⟩
      exact ⟨(), hFirst, hRest⟩

/-- The first check that fails is the one that is reported. -/
theorem forM_eq_error {before after : List γ} {c : γ} {e : ε}
    (hBefore : ∀ d ∈ before, check d = .ok ()) (h : check c = .error e) :
    forM (before ++ c :: after) check = .error e := by
  rw [List.forM_append, forM_eq_ok.2 hBefore, List.forM_cons, h]
  rfl

/-- What is reported comes from one of the checks. -/
theorem exists_of_forM_eq_error {items : List γ} {e : ε} (h : forM items check = .error e) :
    ∃ c ∈ items, check c = .error e := by
  induction items with
  | nil => cases h
  | cons c items ih =>
    rw [List.forM_cons] at h
    cases hFirst : check c with
    | error e' =>
      rw [hFirst] at h
      cases h
      exact ⟨c, List.mem_cons_self, hFirst⟩
    | ok done =>
      rw [hFirst] at h
      obtain ⟨d, hMem, hFails⟩ := ih h
      exact ⟨d, List.mem_cons_of_mem _ hMem, hFails⟩

/-! ## Steps that are checks but for their results -/

theorem forget_eq_ok {x : Except ε α} : x.map (fun _ => ()) = .ok () ↔ ∃ a, x = .ok a := by
  cases x with
  | error e =>
    constructor
    · intro h
      cases h
    · rintro ⟨a, h⟩
      cases h
  | ok a => exact iff_of_true rfl ⟨a, rfl⟩

theorem forget_eq_error {x : Except ε α} {e : ε} :
    x.map (fun _ => ()) = .error e ↔ x = .error e := by
  cases x <;> constructor <;> intro h <;> cases h <;> rfl

theorem forget_cases {x : Except ε α} {e : ε} (h : (∃ a, x = .ok a) ∨ x = .error e) :
    x.map (fun _ => ()) = .ok () ∨ x.map (fun _ => ()) = .error e :=
  h.imp forget_eq_ok.2 forget_eq_error.2

variable {x : Except ε α} {items : List γ}

/-- A step that is a list of checks, but for its result, succeeds when each of them does. -/
theorem exists_ok_of_forget (h : x.map (fun _ => ()) = forM items check) :
    (∃ a, x = .ok a) ↔ ∀ c ∈ items, check c = .ok () := by
  rw [← forM_eq_ok, ← h, forget_eq_ok]

/-- And it fails as the first of them that does. -/
theorem eq_error_of_forget (h : x.map (fun _ => ()) = forM items check) {before after : List γ}
    {c : γ} {e : ε} (hItems : items = before ++ c :: after)
    (hBefore : ∀ d ∈ before, check d = .ok ()) (hCheck : check c = .error e) : x = .error e := by
  rw [hItems, forM_eq_error hBefore hCheck] at h
  exact forget_eq_error.1 h

end NinjaFile.Outcome
