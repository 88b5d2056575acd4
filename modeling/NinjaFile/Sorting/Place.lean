/-!
# Places found by comparing

A test that holds of the leading items of a list, and of no others, tells where
the others begin. The place is found with few tests: by strides that double and
then by halving. A test may also refuse to answer, which ends the search.

Where the test is no such test, as with items that have no order, a place is
found all the same, and which one depends on the items that were asked about.
So the searches fix what they ask, and in which order.
-/

namespace NinjaFile.Sorting

/-- The end of a run that a list begins at. A list that begins at the back holds the run in reverse,
and a middle that is not unique leans towards the front of the run. -/
inductive Side where
  | front
  | back
  deriving DecidableEq, Repr

def Side.middle (side : Side) (low high : Nat) : Nat :=
  match side with
  | .front => low + (high - low) / 2
  | .back => high - 1 - (high - low) / 2

theorem Side.middle_bounds (side : Side) {low high : Nat} (h : low < high) :
    low ≤ side.middle low high ∧ side.middle low high < high := by
  cases side <;> simp only [middle] <;> omega

variable {α ε : Type}

/-- The place from `low` to `high` before which a test holds, found by halving. -/
def bisect (test : Nat → Except ε Bool) (side : Side) (low high : Nat) : Except ε Nat :=
  if h : low < high then
    have _ := side.middle_bounds h
    match test (side.middle low high) with
    | .error refusal => .error refusal
    | .ok true => bisect test side (side.middle low high + 1) high
    | .ok false => bisect test side low (side.middle low high)
  else .ok low
termination_by high - low
decreasing_by all_goals omega

/-- A place at which a test holds, and a later one before which it stops to hold, where strides
double from a place at which it holds and end at a limit. -/
def stride (test : Nat → Except ε Bool) (limit last next : Nat) : Except ε (Nat × Nat) :=
  if next < limit then
    match test next with
    | .error refusal => .error refusal
    | .ok true => stride test limit next (2 * next + 1)
    | .ok false => .ok (last, next)
  else .ok (last, limit)
termination_by limit - next
decreasing_by omega

def at? (passes : α → Except ε Bool) (items : List α) (place : Nat) : Except ε Bool :=
  match items[place]? with
  | none => .ok false
  | some item => passes item

/-- How many leading items pass a test, if few are expected to. -/
def leading (passes : α → Except ε Bool) (side : Side) (items : List α) : Except ε Nat := do
  let test := at? passes items
  if ← test 0 then
    let (last, next) ← stride test items.length 0 1
    bisect test side (last + 1) next
  else
    return 0

/-- An item in its place in a run: behind every item that it does not come before. -/
def insert (before : α → α → Except ε Bool) (item : α) (run : List α) : Except ε (List α) := do
  let stays (other : α) : Except ε Bool := return !(← before item other)
  let place ← bisect (at? stays run) .front 0 run.length
  return run.take place ++ item :: run.drop place

end NinjaFile.Sorting
