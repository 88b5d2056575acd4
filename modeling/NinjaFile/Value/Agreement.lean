import NinjaFile.Binary.Order
import NinjaFile.Value.Basic

/-!
# When values agree

Truth values, integers and fractional numbers agree by what they stand for, so
`true`, `1` and `1.0` do. A simple value agrees with the whole number that is its
code, but with no fractional one. Maps agree without regard to the order of
entries, and all else agrees part by part. The constant that stands for no number
agrees with itself; a fractional number that is none agrees with nothing.
-/

namespace NinjaFile.Value

/-- The whole number that a value counts as. -/
def whole? : Value → Option Int
  | .bool b => some (if b then 1 else 0)
  | .int n => some n
  | .simple code => some code
  | _ => none

/-- The number that a value counts as beside fractional ones. -/
def number? : Value → Option Binary.Datum
  | .bool b => some (.ofInt (if b then 1 else 0))
  | .int n => some (.ofInt n)
  | .float x => some x.datum
  | .nan => some .nan
  | _ => none

/-- How two values compare as numbers: `none` if they have no order as such, and `some none` if one
of them stands for no number. -/
def compareNumbers? (v w : Value) : Option (Option Ordering) :=
  match v.whole?, w.whole? with
  | some a, some b => some (some (compare a b))
  | _, _ =>
    match v.number?, w.number? with
    | some a, some b => some (a.order? b)
    | _, _ => none

def sameNumber (v w : Value) : Bool :=
  v.compareNumbers? w == some (some .eq)

mutual

def agrees : Value → Value → Bool
  | .null, .null => true
  | .text s, .text t => s == t
  | .bytes s, .bytes t => s == t
  | .undefined, .undefined => true
  | .nan, .nan => true
  | .tagged m v, .tagged n w => m == n && agrees v w
  | .array vs, .array ws => itemsAgree vs ws
  | .map es, .map fs => es.length == fs.length && entriesAgree es fs
  | v, w => sameNumber v w

def itemsAgree : List Value → List Value → Bool
  | [], [] => true
  | v :: vs, w :: ws => agrees v w && itemsAgree vs ws
  | _, _ => false

/-- Has every entry of the first list an agreeing one in the second? -/
def entriesAgree : List (Value × Value) → List (Value × Value) → Bool
  | [], _ => true
  | (k, v) :: es, fs => fs.any (fun f => agrees k f.1 && agrees v f.2) && entriesAgree es fs

end

end NinjaFile.Value
