import NinjaFile.Outcome

/-!
# How steps end

A step that can fail ends with a fault or with a result, and a statement about it says
something of both: `Ends refused gives` holds of a step whose faults are `refused` and
whose results are what it `gives`. Steps one after the other are taken apart by
`Ends.bind`, so a function that is written as a sequence of steps is followed step by
step, with no case for the faults in between.
-/

namespace NinjaFile.Outcome

variable {ε α β γ : Type} {refused refused' : ε → Prop} {gives gives' : α → Prop}
  {gives₂ : β → Prop}

/-- A step whose fault or whose result has a property. -/
def Ends (refused : ε → Prop) (gives : α → Prop) : Except ε α → Prop
  | .error e => refused e
  | .ok a => gives a

theorem Ends.imp {x : Except ε α} (h : Ends refused gives x) (hImp : ∀ a, gives a → gives' a) :
    Ends refused gives' x := by
  cases x with
  | error e => exact h
  | ok a => exact hImp a h

theorem Ends.imp_refused {x : Except ε α} (h : Ends refused gives x)
    (hImp : ∀ e, refused e → refused' e) : Ends refused' gives x := by
  cases x with
  | error e => exact hImp e h
  | ok a => exact h

theorem Ends.bind {x : Except ε α} {f : α → Except ε β} (h : Ends refused gives x)
    (hNext : ∀ a, gives a → Ends refused gives₂ (f a)) : Ends refused gives₂ (x >>= f) := by
  cases x with
  | error e => exact h
  | ok a => exact hNext a h

theorem Ends.map {x : Except ε α} {f : α → β} (h : Ends refused gives x)
    (hMap : ∀ a, gives a → gives₂ (f a)) : Ends refused gives₂ (x.map f) := by
  cases x with
  | error e => exact h
  | ok a => exact hMap a h

/-- A loop that keeps an invariant from round to round ends with it. -/
theorem ends_foldlM (step : α → γ → Except ε α) (invariant : List γ → α → Prop)
    (hStep : ∀ item items a, invariant (item :: items) a →
      Ends refused (invariant items) (step a item))
    {items : List γ} {start : α} (hStart : invariant items start) :
    Ends refused (invariant []) (items.foldlM step start) := by
  induction items generalizing start with
  | nil => exact hStart
  | cons item items ih =>
      rw [List.foldlM_cons]
      exact (hStep item items start hStart).bind fun next hNext => ih hNext

end NinjaFile.Outcome
