import Mathlib.Data.List.Forall2
import NinjaFile.Proofs.Manifest.Fields
import NinjaFile.Scalar

/-!
# Relations that tell declarations

Values in the records of a manifest can be compared in several ways. A way of
comparing is `Telling` if it tells apart what a build file is made of: two scalars, a
flag that holds from one that does not, the items of lists in their order, and what
records have under their names.

To be the same with kinds and with the order of entries is telling
(`telling_sameInOrder`). Numbers are then compared by size, so that the two zeros are
the same, and either of them gives a flag that does not hold.
-/

namespace NinjaFile

/-! ## Numbers that are zero -/

theorem Binary.Datum.inUnits_eq_zero (negative : Bool) (significand : Nat) (shift : Int) :
    inUnits negative significand shift = 0 ↔ significand = 0 := by
  have hPower : 0 < Binary.twoTo shift.toNat := Nat.pow_pos (by decide)
  have hProduct : significand * Binary.twoTo shift.toNat = 0 ↔ significand = 0 := by
    rw [Nat.mul_eq_zero]
    omega
  unfold inUnits
  dsimp only
  rw [← hProduct]
  split <;> omega

/-- Doubles that count as one number are both zero or neither. -/
theorem Flag.holds_of_sameNumber {x y : Binary64}
    (h : Value.sameNumber (.float x) (.float y) = true) :
    (Flag.float x).holds = (Flag.float y).holds := by
  have hOrder : x.datum.order? y.datum = some .eq := by
    have hSame := beq_iff_eq.1 h
    exact Option.some.inj hSame
  simp only [holds]
  cases hx : x.datum with
  | nan =>
      rw [hx] at hOrder
      cases hOrder
  | infinite a =>
      cases hy : y.datum with
      | nan | infinite => rfl
      | finite b n f =>
          rw [hx, hy] at hOrder
          cases a <;> cases hOrder
  | finite a m e =>
      cases hy : y.datum with
      | nan =>
          rw [hx, hy] at hOrder
          cases hOrder
      | infinite b =>
          rw [hx, hy] at hOrder
          cases b <;> cases hOrder
      | finite b n f =>
          rw [hx, hy] at hOrder
          have hUnits := Int.compare_eq_eq.1 (Option.some.inj hOrder)
          have hZero : m = 0 ↔ n = 0 := by
            rw [← Binary.Datum.inUnits_eq_zero a m (e - min e f), hUnits,
              Binary.Datum.inUnits_eq_zero]
          rw [Bool.eq_iff_iff, bne_iff_ne, bne_iff_ne]
          exact not_congr hZero

namespace Value

/-- A relation between values under which what a build file is made of is alike. -/
structure Telling (R : Value → Value → Prop) : Prop where
  scalar {s t : Scalar} (related : R s.toValue t.toValue) : s = t
  flag {f g : Flag} (related : R f.toValue g.toValue) : f.holds = g.holds
  items {vs ws : List Value} (related : R (.array vs) (.array ws)) : List.Forall₂ R vs ws
  field {fs gs : List (String × Value)} (left : (fs.map Prod.fst).Nodup)
    (right : (gs.map Prod.fst).Nodup) (related : R (.record fs) (.record gs)) (name : String) :
    Option.Rel R (field? name (named fs)) (field? name (named gs))

def sets : Value → Bool
  | .bool b => (Flag.bool b).holds
  | .int n => (Flag.int n).holds
  | .float x => (Flag.float x).holds
  | .text s => (Flag.text s).holds
  | .nan => true
  | _ => false

theorem sets_toValue (f : Flag) : f.toValue.sets = f.holds := by
  cases f with
  | float x =>
      cases hx : x.datum with
      | nan => simp only [Flag.toValue, ofFloat, sets, Flag.holds, hx]
      | infinite | finite => simp only [Flag.toValue, ofFloat, sets, hx]
  | _ => rfl

theorem forall₂_pairs {κ α β : Type} {R : α → β → Prop} {es : List (κ × α)} {fs : List (κ × β)}
    (hKeys : es.map Prod.fst = fs.map Prod.fst)
    (hValues : List.Forall₂ R (es.map Prod.snd) (fs.map Prod.snd)) :
    List.Forall₂ (fun e f => e.1 = f.1 ∧ R e.2 f.2) es fs := by
  induction es generalizing fs with
  | nil =>
      cases List.map_eq_nil_iff.1 hKeys.symm
      exact .nil
  | cons e es ih =>
      cases fs with
      | nil => cases hKeys
      | cons f fs =>
          obtain ⟨hKey, hOthers⟩ := List.cons.inj hKeys
          cases hValues with
          | cons hFirst hValues => exact .cons ⟨hKey, hFirst⟩ (ih hOthers hValues)

theorem rel_field? {R : Value → Value → Prop} {es fs : List (Value × Value)}
    (h : List.Forall₂ (fun e f => e.1 = f.1 ∧ R e.2 f.2) es fs) (name : String) :
    Option.Rel R (field? name es) (field? name fs) := by
  induction h with
  | nil => exact .none
  | @cons e f es fs hFirst _ ih =>
      obtain ⟨k, v⟩ := e
      obtain ⟨l, w⟩ := f
      obtain ⟨rfl, hValue⟩ := hFirst
      by_cases hName : k = .text name
      · rw [hName, field?_cons_self, field?_cons_self]
        exact .some hValue
      · rw [field?_cons_of_ne hName, field?_cons_of_ne hName]
        exact ih

/-! ## The same in order -/

/-- Two values that are the same with their kinds and with the order of their entries. Fractional
numbers are the same if they count as one number, as the two zeros do. -/
inductive SameInOrder : Value → Value → Prop where
  | refl (v : Value) : SameInOrder v v
  | float {x y : Binary64} (same : sameNumber (.float x) (.float y) = true) :
      SameInOrder (.float x) (.float y)
  | array {vs ws : List Value} (items : List.Forall₂ SameInOrder vs ws) :
      SameInOrder (.array vs) (.array ws)
  | map {es fs : List (Value × Value)} (keys : es.map Prod.fst = fs.map Prod.fst)
      (values : List.Forall₂ SameInOrder (es.map Prod.snd) (fs.map Prod.snd)) :
      SameInOrder (.map es) (.map fs)

namespace SameInOrder

theorem scalar {s t : Scalar} (h : SameInOrder s.toValue t.toValue) : s = t := by
  cases s <;> cases t <;> cases h <;> rfl

theorem items {vs ws : List Value} (h : SameInOrder (.array vs) (.array ws)) :
    List.Forall₂ SameInOrder vs ws := by
  cases h with
  | refl => exact List.forall₂_same.2 fun v _ => .refl v
  | array items => exact items

theorem entries {es fs : List (Value × Value)} (h : SameInOrder (.map es) (.map fs)) :
    List.Forall₂ (fun e f => e.1 = f.1 ∧ SameInOrder e.2 f.2) es fs := by
  cases h with
  | refl => exact List.forall₂_same.2 fun e _ => ⟨rfl, .refl e.2⟩
  | map keys values => exact forall₂_pairs keys values

theorem sets {v w : Value} (h : SameInOrder v w) : v.sets = w.sets := by
  cases h with
  | refl => rfl
  | float same => exact Flag.holds_of_sameNumber same
  | array | map => rfl

theorem flag {f g : Flag} (h : SameInOrder f.toValue g.toValue) : f.holds = g.holds := by
  rw [← sets_toValue, ← sets_toValue, h.sets]

end SameInOrder

theorem telling_sameInOrder : Telling SameInOrder where
  scalar := SameInOrder.scalar
  flag := SameInOrder.flag
  items := SameInOrder.items
  field _ _ related name := rel_field? related.entries name

end Value

end NinjaFile
