import NinjaFile.Sorting.Place

/-!
# Merging two runs

Two runs that stand one behind the other become one. What is in its place
already is left there, and the rest is merged from the side of the shorter run,
so that the longer one is gone through once.

A merge compares the heads of both lists and puts out one of them. When one list
has won so often in a row that patience ends, it looks for the place of a head in
the other list and puts out all before it at one go, as long as that pays. The
patience is handed on from merge to merge.
-/

namespace NinjaFile.Sorting

variable {α ε : Type}

/-- How many items a search must put out at one go to pay. -/
def worthwhile : Nat := 7

/-- What a merge of lists puts out at its end, once that has come: one of the lists is used up, or
the first has one item left, which comes last. -/
def finish? : List α → List α → Option (List α)
  | first, [] => some first
  | [], second => some second
  | [last], second => some (second ++ [last])
  | _, _ => none

/-- Items that were put out at one go, how many of them a search found, and what is left. -/
structure Move (α : Type) where
  out : List α
  found : Nat
  first : List α
  second : List α

/-- Which item of the second list comes out before which of the first, and from which side the runs
are merged. -/
structure Merging (α ε : Type) where
  ahead : α → α → Except ε Bool
  side : Side

namespace Merging

variable (m : Merging α ε)

/-- All of the first list that the head of the second does not come before, and then that head. -/
def moveFirst (first second : List α) : Except ε (Move α) :=
  match second with
  | [] => .ok ⟨[], 0, first, second⟩
  | head :: tail => do
    let stays (item : α) : Except ε Bool := return !(← m.ahead head item)
    let found ← leading stays m.side first
    let rest := first.drop found
    if (finish? rest second).isSome then return ⟨first.take found, found, rest, second⟩
    else return ⟨first.take found ++ [head], found, rest, tail⟩

/-- All of the second list that comes before the head of the first, and then that head. -/
def moveSecond (first second : List α) : Except ε (Move α) :=
  match first with
  | [] => .ok ⟨[], 0, first, second⟩
  | head :: tail => do
    let found ← leading (fun item => m.ahead item head) m.side second
    let rest := second.drop found
    if (finish? first rest).isSome then return ⟨second.take found, found, first, rest⟩
    else return ⟨second.take found ++ [head], found, tail, rest⟩

/-- Both moves in turn, the one that takes from the earlier run first. The second is left out if the
merge ends with the first, and the greater number of items found counts. -/
def moveBoth (first second : List α) : Except ε (Move α) := do
  let a ← if m.side = .front then m.moveFirst first second else m.moveSecond first second
  if (finish? a.first a.second).isSome then return a
  else
    let b ← if m.side = .front then m.moveSecond a.first a.second else m.moveFirst a.first a.second
    return { b with out := a.out ++ b.out, found := max a.found b.found }

inductive Pace where
  /-- Head by head, where so many came out in a row from the first list or from the second. -/
  | steps (fromFirst fromSecond : Nat)
  /-- At one go, with the patience that this leaves. -/
  | leaps (patience : Nat)

/-- A merge of two lists and the patience that is left. Every round puts out at least one item, so
as many rounds as there are items are enough. -/
def run (rounds : Nat) (pace : Pace) (patience : Nat) (first second : List α) :
    Except ε (List α × Nat) :=
  match finish? first second with
  | some rest => .ok (rest, patience)
  | none =>
    match rounds, pace, first, second with
    | rounds + 1, .steps a b, x :: xs, y :: ys => do
      let (out, pace, first, second) :=
        if ← m.ahead y x then
          (y, if patience ≤ b + 1 then .leaps patience else .steps 0 (b + 1), x :: xs, ys)
        else
          (x, if patience ≤ a + 1 then .leaps patience else .steps (a + 1) 0, xs, y :: ys)
      let (rest, patience) ← run rounds pace patience first second
      return (out :: rest, patience)
    | rounds + 1, .leaps patience, first, second => do
      let move ← m.moveBoth first second
      match finish? move.first move.second with
      | some rest => return (move.out ++ rest, patience)
      | none =>
        let (rest, patience) ←
          if worthwhile ≤ move.found then
            run rounds (.leaps (max 1 (patience - 1))) patience move.first move.second
          else run rounds (.steps 0 0) (patience + 1) move.first move.second
        return (move.out ++ rest, patience)
    | _, _, first, second => .ok (first ++ second, patience)

/-- A merge of two lists that begins with the head of the second. -/
def all (patience : Nat) (first second : List α) : Except ε (List α × Nat) :=
  match second with
  | [] => .ok (first, patience)
  | head :: tail => do
    let (rest, patience) ←
      m.run (first.length + tail.length) (.steps 0 0) patience first tail
    return (head :: rest, patience)

end Merging

/-- One run of two, of which the second stands behind the first, and the patience that is left. From
the back both lists are reversed, and the shorter run is the first of them on either side. -/
def merge (before : α → α → Except ε Bool) (patience : Nat) (a b : List α) :
    Except ε (List α × Nat) :=
  match a.getLast?, b with
  | some last, head :: _ => do
    let inPlace ← leading (fun item => return !(← before head item)) .front a
    let first := a.drop inPlace
    if first.isEmpty then return (a ++ b, patience)
    let behind ← leading (fun item => return !(← before item last)) .back b.reverse
    let second := b.reverse.drop behind
    if second.isEmpty then return (a ++ b, patience)
    let (merged, patience) ←
      if first.length ≤ second.length then
        Merging.all ⟨before, .front⟩ patience first second.reverse
      else
        (Merging.all ⟨fun x y => before y x, .back⟩ patience second first.reverse).map fun result =>
          (result.1.reverse, result.2)
    return (a.take inPlace ++ merged ++ b.drop second.length, patience)
  | _, _ => .ok (a ++ b, patience)

end NinjaFile.Sorting
