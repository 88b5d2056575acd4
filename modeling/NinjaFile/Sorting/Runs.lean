import NinjaFile.Sorting.Merge

/-!
# Sorting by runs

A list is cut into runs that are in order already, or in reverse; short ones are
filled up item by item, and neighbouring runs are merged. Items of which neither
comes before the other stay in the order in which they stood.

If the comparison is a total order the result is the one list in that order.
The comparison need not be one: it may leave items without an order, or refuse a
pair of them. What comes out then depends on the pairs that are compared, and the
first pair that is refused is the refusal of the sort.
-/

namespace NinjaFile.Sorting

variable {α ε : Type}

/-! ## Runs that are there -/

/-- The items up to the first that comes before its predecessor, and the rest. -/
def ascent (before : α → α → Except ε Bool) (last : α) :
    List α → Except ε (List α × List α)
  | [] => .ok ([], [])
  | item :: items => do
    if ← before item last then return ([], item :: items)
    else
      let (run, rest) ← ascent before item items
      return (item :: run, rest)

/-- The items up to the first that does not come before its predecessor, and the rest. -/
def descent (before : α → α → Except ε Bool) (last : α) :
    List α → Except ε (List α × List α)
  | [] => .ok ([], [])
  | item :: items => do
    if ← before item last then
      let (run, rest) ← descent before item items
      return (item :: run, rest)
    else return ([], item :: items)

/-- The run at the front of a list, in order, and the rest. -/
def natural (before : α → α → Except ε Bool) : List α → Except ε (List α × List α)
  | x :: y :: items => do
    if ← before y x then
      let (run, rest) ← descent before y items
      return ((x :: y :: run).reverse, rest)
    else
      let (run, rest) ← ascent before y items
      return (x :: y :: run, rest)
  | items => .ok (items, [])

/-! ## Runs of some length -/

/-- The length up to which runs are filled. A list below 64 is one run; a longer one gets runs of 32
to 64, whose number is a power of two or little less. -/
def fillLength (n : Nat) : Nat :=
  if n < 64 then n else halved n 0
where
  /-- The leading six binary digits, one more if any of those behind them is set. -/
  halved (n carry : Nat) : Nat :=
    if n < 64 then n + carry else halved (n / 2) (max carry (n % 2))

/-- The run at the front of a list, filled up with the items behind it, and the rest. -/
def nextRun (before : α → α → Except ε Bool) (fill : Nat) (items : List α) :
    Except ε (List α × List α) := do
  let (run, rest) ← natural before items
  let missing := fill - run.length
  let run ← (rest.take missing).foldlM (fun run item => insert before item run) run
  return (run, rest.drop missing)

/-! ## Which runs are merged when -/

/-- A run that waits to be merged: where it begins, and the level of its border with the run behind
it. -/
structure Waiting (α : Type) where
  start : Nat
  items : List α
  level : Nat

/-- The level of the border between two neighbouring runs in a list of `n` items: the first binary
digit at which the middles of the two runs differ, as parts of the list. -/
def borderLevel (start length next n : Nat) : Nat :=
  differ (2 * n) (2 * start + length) (2 * start + 2 * length + next)
where
  /-- Levels from here on, for the doubled middles; more than `rounds` there are none. -/
  differ (rounds a b : Nat) : Nat :=
    match rounds with
    | 0 => 0
    | rounds + 1 =>
      if n ≤ a then 1 + differ rounds (2 * (a - n)) (2 * (b - n))
      else if n ≤ b then 1
      else 1 + differ rounds (2 * a) (2 * b)

structure Pending (α : Type) where
  runs : List (Waiting α)
  patience : Nat

/-- The last runs merged as long as the borders between them are of a deeper level. -/
def settle (before : α → α → Except ε Bool) (level patience : Nat) :
    List (Waiting α) → Except ε (Pending α)
  | b :: a :: runs => do
    if level < a.level then
      let (items, patience) ← merge before patience a.items b.items
      settle before level patience (⟨a.start, items, a.level⟩ :: runs)
    else return ⟨{ b with level } :: a :: runs, patience⟩
  | [b] => .ok ⟨[{ b with level }], patience⟩
  | [] => .ok ⟨[], patience⟩
termination_by runs => runs.length

def push (before : α → α → Except ε Bool) (n : Nat) (pending : Pending α) (run : List α) :
    Except ε (Pending α) := do
  match pending.runs with
  | [] => return { pending with runs := [⟨0, run, 0⟩] }
  | last :: _ =>
    let level := borderLevel last.start last.items.length run.length n
    let ⟨runs, patience⟩ ← settle before level pending.patience pending.runs
    return ⟨⟨last.start + last.items.length, run, 0⟩ :: runs, patience⟩

/-- All waiting runs merged, of the last three the shorter neighbour of the middle one first. -/
def collapse (before : α → α → Except ε Bool) (patience : Nat) :
    List (Waiting α) → Except ε (List α)
  | c :: b :: a :: runs => do
    if a.items.length < c.items.length then
      let (items, patience) ← merge before patience a.items b.items
      collapse before patience (c :: ⟨a.start, items, 0⟩ :: runs)
    else
      let (items, patience) ← merge before patience b.items c.items
      collapse before patience (⟨b.start, items, 0⟩ :: a :: runs)
  | [b, a] => do
    let (items, _) ← merge before patience a.items b.items
    return items
  | [a] => .ok a.items
  | [] => .ok []
termination_by runs => runs.length

/-! ## Lists -/

/-- The runs of a list, one after the other; as many rounds as there are items are enough. -/
def gather (before : α → α → Except ε Bool) (n rounds : Nat) (pending : Pending α)
    (items : List α) : Except ε (Pending α) :=
  match rounds, items with
  | _, [] | 0, _ => .ok pending
  | rounds + 1, items => do
    let (run, rest) ← nextRun before (fillLength n) items
    let pending ← push before n pending run
    gather before n rounds pending rest

def sort (before : α → α → Except ε Bool) (items : List α) : Except ε (List α) := do
  let pending ← gather before items.length items.length ⟨[], worthwhile⟩ items
  collapse before pending.patience pending.runs

end NinjaFile.Sorting
