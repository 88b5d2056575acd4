import NinjaFile.Sorting.Runs
import NinjaFile.Value.Agreement
import NinjaFile.Value.Kind

/-!
# The order of keys

Texts come in order of their code points, byte strings of their octets, numbers
by size, and arrays and tags by the first part in which they differ. All else has
no order and is refused by its kinds.

The keys of one map never agree. If all are texts, or all are numbers, they have
a total order, and sorting them is merging. What is no number comes neither before
a number nor after it, and keys of mixed kinds are refused at the first pair that
is compared: with these it matters how the sort goes about its work.
-/

namespace NinjaFile.Value

/-- Two kinds that have no order: the one that was to come before, and the other. -/
structure Unordered where
  left : Kind
  right : Kind
  deriving DecidableEq, Repr

/-! ## Comparing -/

mutual

def before : Value → Value → Except Unordered Bool
  | .text s, .text t => .ok (s < t)
  | .bytes s, .bytes t => .ok (s < t)
  | .tagged m v, .tagged n w =>
    if m = n then if v.agrees w then .ok false else before v w
    else .ok (m < n)
  | .array vs, .array ws => itemsBefore vs ws
  | v, w =>
    match v.compareNumbers? w with
    | some order => .ok (order == some .lt)
    | none => .error ⟨v.kind, w.kind⟩

/-- Does the first list come before the second, by the items at the first place where they
differ? -/
def itemsBefore : List Value → List Value → Except Unordered Bool
  | v :: vs, w :: ws => if v.agrees w then itemsBefore vs ws else before v w
  | [], _ :: _ => .ok true
  | _, [] => .ok false

end

/-! ## Sorting -/

def isText : Value → Bool
  | .text _ => true
  | _ => false

/-- Have keys a total order: are they all texts, or all numbers? -/
def totallyOrdered (keys : List Value) : Bool :=
  keys.all isText || keys.all fun key => (key.number?.bind fun d => d.order? d).isSome

/-- May the first key stand before the second? This is their order where it is total. -/
def keyLe (v w : Value) : Bool :=
  match w.before v with
  | .ok isLess => !isLess
  | .error _ => true

def sortByKey {α : Type} (entries : List (Value × α)) : Except Unordered (List (Value × α)) :=
  if totallyOrdered (entries.map Prod.fst) then .ok (entries.mergeSort fun e f => keyLe e.1 f.1)
  else Sorting.sort (fun e f => e.1.before f.1) entries

end NinjaFile.Value
