import Mathlib.Data.List.Nodup
import NinjaFile.Value.Order

/-!
# Data and sameness

Two values are the same if they differ at most in the order in which maps keep
their entries, at any depth. Unlike agreement this tells `true` from `1`, and an
integer key from a text key.

Sameness is an equivalence, and on data it has a normal form: `inOrder` sorts the
entries of every map. Data are values whose maps have no key twice; which values
may stand by themselves and which may be keys is left open. The main results are
that data are the same as their normal form (`Data.same_inOrder`) and that same
data have one normal form (`Data.inOrder_eq_of_same`). The order of keys only has
to be a total one that tells the keys of the data apart.
-/

namespace NinjaFile.Value

/-! ## Data -/

def isAtom : Value → Bool
  | .tagged .. | .array _ | .map _ => false
  | _ => true

/-- Is the value an atom of data: neither a fractional number nor one of the kinds that only CBOR
has? -/
def isDatum : Value → Bool
  | .null | .bool _ | .int _ | .text _ | .bytes _ => true
  | _ => false

/-- A value built by arrays and maps from certain atoms, with certain keys. -/
inductive MadeOf (atom key : Value → Bool) : Value → Prop where
  | atom {v : Value} (isAtom : v.isAtom = true) (allowed : atom v = true) : MadeOf atom key v
  | array {vs : List Value} (items : ∀ v ∈ vs, MadeOf atom key v) : MadeOf atom key (.array vs)
  | map {es : List (Value × Value)} (keys : ∀ e ∈ es, key e.1 = true)
      (values : ∀ e ∈ es, MadeOf atom key e.2) : MadeOf atom key (.map es)

/-- The same, where no map has a key twice. -/
inductive Data (atom key : Value → Bool) : Value → Prop where
  | atom {v : Value} (isAtom : v.isAtom = true) (allowed : atom v = true) : Data atom key v
  | array {vs : List Value} (items : ∀ v ∈ vs, Data atom key v) : Data atom key (.array vs)
  | map {es : List (Value × Value)} (keys : ∀ e ∈ es, key e.1 = true)
      (distinct : (es.map Prod.fst).Nodup) (values : ∀ e ∈ es, Data atom key e.2) :
      Data atom key (.map es)

section

variable {atom key atom' key' : Value → Bool}

theorem MadeOf.of_array {vs : List Value} (h : MadeOf atom key (.array vs)) :
    ∀ v ∈ vs, MadeOf atom key v := by
  cases h with
  | atom isAtom => cases isAtom
  | array items => exact items

theorem MadeOf.of_map {es : List (Value × Value)} (h : MadeOf atom key (.map es)) :
    (∀ e ∈ es, key e.1 = true) ∧ ∀ e ∈ es, MadeOf atom key e.2 := by
  cases h with
  | atom isAtom => cases isAtom
  | map keys values => exact ⟨keys, values⟩

theorem Data.of_array {vs : List Value} (h : Data atom key (.array vs)) :
    ∀ v ∈ vs, Data atom key v := by
  cases h with
  | atom isAtom => cases isAtom
  | array items => exact items

theorem Data.of_map {es : List (Value × Value)} (h : Data atom key (.map es)) :
    (∀ e ∈ es, key e.1 = true) ∧ (es.map Prod.fst).Nodup ∧ ∀ e ∈ es, Data atom key e.2 := by
  cases h with
  | atom isAtom => cases isAtom
  | map keys distinct values => exact ⟨keys, distinct, values⟩

theorem Data.mono (hAtom : ∀ v, atom v = true → atom' v = true)
    (hKey : ∀ v, key v = true → key' v = true) {v : Value} (h : Data atom key v) :
    Data atom' key' v := by
  induction h with
  | atom isAtom allowed => exact .atom isAtom (hAtom _ allowed)
  | array _ ih => exact .array ih
  | map keys distinct _ ih => exact .map (fun e he => hKey _ (keys e he)) distinct ih

end

/-! ## Sameness -/

/-- Two values that differ at most in the order of entries. -/
inductive Same : Value → Value → Prop where
  | refl (v : Value) : Same v v
  | array {vs ws : List Value} (length : vs.length = ws.length)
      (items : ∀ (i : Nat) v w, vs[i]? = some v → ws[i]? = some w → Same v w) :
      Same (.array vs) (.array ws)
  | map {es fs : List (Value × Value)} (keys : ∀ k, k ∈ es.map Prod.fst ↔ k ∈ fs.map Prod.fst)
      (values : ∀ k v w, (k, v) ∈ es → (k, w) ∈ fs → Same v w) : Same (.map es) (.map fs)

namespace Same

theorem symm {v w : Value} (h : Same v w) : Same w v := by
  induction h with
  | refl v => exact .refl v
  | array length _ ih => exact .array length.symm fun i v w hv hw => ih i w v hw hv
  | map keys _ ih => exact .map (fun k => (keys k).symm) fun k v w hv hw => ih k w v hw hv

theorem exists_of_mem_keys {k : Value} {es : List (Value × Value)} (h : k ∈ es.map Prod.fst) :
    ∃ v, (k, v) ∈ es := by
  obtain ⟨⟨k, v⟩, hMem, rfl⟩ := List.mem_map.1 h
  exact ⟨v, hMem⟩

theorem trans {u v w : Value} (h : Same u v) (h' : Same v w) : Same u w := by
  induction h generalizing w with
  | refl v => exact h'
  | @array us vs length items ih =>
      cases h' with
      | refl => exact .array length items
      | @array _ ws length' items' =>
          refine .array (length.trans length') ?_
          intro i u w hu hw
          have hIndex : i < vs.length := length ▸ (List.getElem?_eq_some_iff.1 hu).1
          have hv : vs[i]? = some vs[i] := List.getElem?_eq_getElem hIndex
          exact ih i u vs[i] hu hv (items' i vs[i] w hv hw)
  | @map es fs keys values ih =>
      cases h' with
      | refl => exact .map keys values
      | @map _ gs keys' values' =>
          refine .map (fun k => (keys k).trans (keys' k)) ?_
          intro k u w hu hw
          obtain ⟨v, hv⟩ := exists_of_mem_keys ((keys k).1 (List.mem_map_of_mem hu))
          exact ih k u v hu hv (values' k v w hv hw)

end Same

theorem Same.eq_of_isAtom {v w : Value} (h : Same v w) (hAtom : v.isAtom = true) : v = w := by
  cases h with
  | refl => rfl
  | array => cases hAtom
  | map => cases hAtom

section

variable {atom key : Value → Bool}

theorem Data.madeOf {v : Value} (h : Data atom key v) : MadeOf atom key v := by
  induction h with
  | atom isAtom allowed => exact .atom isAtom allowed
  | array _ ih => exact .array ih
  | map keys _ _ ih => exact .map keys ih

theorem MadeOf.of_same {v w : Value} (hv : MadeOf atom key v) (h : Same v w) :
    MadeOf atom key w := by
  induction hv generalizing w with
  | atom isAtom allowed =>
      rw [← h.eq_of_isAtom isAtom]
      exact .atom isAtom allowed
  | @array vs items ih =>
      cases h with
      | refl => exact .array items
      | @array _ ws length same =>
          refine .array ?_
          intro w hw
          obtain ⟨i, hIndex, rfl⟩ := List.getElem_of_mem hw
          have hIndex' : i < vs.length := length ▸ hIndex
          exact ih vs[i] (List.getElem_mem hIndex')
            (same i _ _ (List.getElem?_eq_getElem hIndex') (List.getElem?_eq_getElem hIndex))
  | @map es keys values ih =>
      cases h with
      | refl => exact .map keys values
      | @map _ fs sameKeys same =>
          have given {k w : Value} (hw : (k, w) ∈ fs) : ∃ v, (k, v) ∈ es :=
            Same.exists_of_mem_keys ((sameKeys k).2 (List.mem_map_of_mem hw))
          refine .map ?_ ?_
          · rintro ⟨k, w⟩ hw
            obtain ⟨v, hv⟩ := given hw
            exact keys (k, v) hv
          · rintro ⟨k, w⟩ hw
            obtain ⟨v, hv⟩ := given hw
            exact ih (k, v) hv (same k v w hv hw)

end

/-! ## Order -/

mutual

/-- A value with the entries of every map in order of their keys. -/
def inOrder (le : Value → Value → Bool) : Value → Value
  | .array vs => .array (itemsInOrder le vs)
  | .map es => .map ((entriesInOrder le es).mergeSort fun e f => le e.1 f.1)
  | v => v

def itemsInOrder (le : Value → Value → Bool) : List Value → List Value
  | [] => []
  | v :: vs => inOrder le v :: itemsInOrder le vs

def entriesInOrder (le : Value → Value → Bool) :
    List (Value × Value) → List (Value × Value)
  | [] => []
  | (k, v) :: es => (k, inOrder le v) :: entriesInOrder le es

end

section

variable (le : Value → Value → Bool)

theorem itemsInOrder_eq_map (vs : List Value) : itemsInOrder le vs = vs.map (inOrder le) := by
  induction vs with
  | nil => rfl
  | cons v vs ih => rw [itemsInOrder, ih, List.map_cons]

theorem entriesInOrder_eq_map (es : List (Value × Value)) :
    entriesInOrder le es = es.map fun e => (e.1, inOrder le e.2) := by
  induction es with
  | nil => rfl
  | cons e es ih => rw [entriesInOrder, ih, List.map_cons]

theorem inOrder_array (vs : List Value) :
    inOrder le (.array vs) = .array (vs.map (inOrder le)) := by
  rw [inOrder, itemsInOrder_eq_map]

def arranged (es : List (Value × Value)) : List (Value × Value) :=
  (es.mergeSort fun e f => le e.1 f.1).map fun e => (e.1, inOrder le e.2)

theorem inOrder_map (es : List (Value × Value)) : inOrder le (.map es) = .map (arranged le es) := by
  rw [inOrder, entriesInOrder_eq_map, arranged, List.map_mergeSort (s := fun e f => le e.1 f.1)]
  intro e _ f _
  rfl

theorem inOrder_of_isAtom {v : Value} (h : v.isAtom = true) : inOrder le v = v := by
  cases v <;> first | rfl | cases h

theorem mem_arranged {es : List (Value × Value)} {k w : Value} :
    (k, w) ∈ arranged le es ↔ ∃ v, (k, v) ∈ es ∧ w = inOrder le v := by
  constructor
  · intro h
    obtain ⟨⟨k, v⟩, hMem, hEq⟩ := List.mem_map.1 h
    cases hEq
    exact ⟨v, List.mem_mergeSort.1 hMem, rfl⟩
  · rintro ⟨v, hMem, rfl⟩
    exact List.mem_map.2 ⟨(k, v), List.mem_mergeSort.2 hMem, rfl⟩

theorem keys_arranged_perm (es : List (Value × Value)) :
    ((arranged le es).map Prod.fst).Perm (es.map Prod.fst) := by
  rw [arranged, List.map_map]
  exact (List.mergeSort_perm es _).map Prod.fst

variable {atom key : Value → Bool}

theorem Data.inOrder {v : Value} (h : Data atom key v) : Data atom key (inOrder le v) := by
  induction h with
  | atom isAtom allowed =>
      rw [inOrder_of_isAtom le isAtom]
      exact .atom isAtom allowed
  | array items ih =>
      rw [inOrder_array]
      refine .array ?_
      intro w hw
      obtain ⟨v, hv, rfl⟩ := List.mem_map.1 hw
      exact ih v hv
  | @map es keys distinct values ih =>
      rw [inOrder_map]
      refine .map ?_ ((keys_arranged_perm le es).nodup_iff.2 distinct) ?_
      · rintro ⟨k, w⟩ he
        obtain ⟨v, hv, -⟩ := (mem_arranged le).1 he
        exact keys (k, v) hv
      · rintro ⟨k, w⟩ he
        obtain ⟨v, hv, rfl⟩ := (mem_arranged le).1 he
        exact ih (k, v) hv

theorem eq_of_mem_of_mem {α β : Type} {es : List (α × β)} (h : (es.map Prod.fst).Nodup) {k : α}
    {v w : β} (hv : (k, v) ∈ es) (hw : (k, w) ∈ es) : v = w := by
  induction es with
  | nil => cases hv
  | cons e es ih =>
      rw [List.map_cons, List.nodup_cons] at h
      have fresh {u : β} (hu : (k, u) ∈ es) : e.1 ≠ k := by
        intro hEq
        exact h.1 (List.mem_map.2 ⟨(k, u), hu, hEq.symm⟩)
      rcases List.mem_cons.1 hv with hv | hv
      · rcases List.mem_cons.1 hw with hw | hw
        · exact (Prod.mk.inj (hv.trans hw.symm)).2
        · exact absurd (congrArg Prod.fst hv).symm (fresh hw)
      · rcases List.mem_cons.1 hw with hw | hw
        · exact absurd (congrArg Prod.fst hw).symm (fresh hv)
        · exact ih h.2 hv hw

theorem Same.of_array {vs ws : List Value} (h : Same (.array vs) (.array ws)) {i : Nat}
    {v w : Value} (hv : vs[i]? = some v) (hw : ws[i]? = some w) : Same v w := by
  cases h with
  | refl =>
      rw [Option.some.inj (hv.symm.trans hw)]
      exact .refl w
  | array _ items => exact items i v w hv hw

theorem Same.of_map {es fs : List (Value × Value)} (h : Same (.map es) (.map fs))
    (hDistinct : (es.map Prod.fst).Nodup) {k v w : Value} (hv : (k, v) ∈ es) (hw : (k, w) ∈ fs) :
    Same v w := by
  cases h with
  | refl =>
      rw [eq_of_mem_of_mem hDistinct hv hw]
      exact .refl w
  | map _ values => exact values k v w hv hw

/-- **Order does not change data.** -/
theorem Data.same_inOrder {v : Value} (h : Data atom key v) : Same (Value.inOrder le v) v := by
  induction h with
  | atom isAtom =>
      rw [inOrder_of_isAtom le isAtom]
      exact .refl _
  | @array vs items ih =>
      rw [inOrder_array]
      refine .array (List.length_map _) ?_
      intro i w v hw hv
      rw [List.getElem?_map, hv] at hw
      cases hw
      exact ih v (List.mem_of_getElem? hv)
  | @map es keys distinct values ih =>
      rw [inOrder_map]
      refine .map (fun k => (keys_arranged_perm le es).mem_iff) ?_
      intro k w v hw hv
      obtain ⟨u, hu, rfl⟩ := (mem_arranged le).1 hw
      cases eq_of_mem_of_mem distinct hu hv
      exact ih (k, v) hv

variable {le}

/-- An order that tells the keys apart leaves one way to arrange entries. -/
theorem mergeSort_eq_of_perm (hTrans : ∀ a b c, le a b = true → le b c = true → le a c = true)
    (hTotal : ∀ a b, (le a b || le b a) = true)
    (hAntisymm : ∀ a b, key a = true → key b = true → le a b = true → le b a = true → a = b)
    {es fs : List (Value × Value)} (hKeys : ∀ e ∈ es, key e.1 = true)
    (hDistinct : (es.map Prod.fst).Nodup) (hPerm : es.Perm fs) :
    (es.mergeSort fun e f => le e.1 f.1) = fs.mergeSort fun e f => le e.1 f.1 := by
  have sorted (gs : List (Value × Value)) :
      (gs.mergeSort fun e f => le e.1 f.1).Pairwise fun e f => le e.1 f.1 = true :=
    List.pairwise_mergeSort (fun a b c => hTrans a.1 b.1 c.1) (fun a b => hTotal a.1 b.1) gs
  refine List.Perm.eq_of_pairwise ?_ (sorted es) (sorted fs)
    ((List.mergeSort_perm es _).trans (hPerm.trans (List.mergeSort_perm fs _).symm))
  -- entries that stand in either order have one key, and a key has one value
  rintro ⟨k, v⟩ ⟨l, w⟩ he hf hLe hGe
  have hv := List.mem_mergeSort.1 he
  have hw := hPerm.mem_iff.2 (List.mem_mergeSort.1 hf)
  cases hAntisymm k l (hKeys _ hv) (hKeys _ hw) hLe hGe
  rw [eq_of_mem_of_mem hDistinct hv hw]

theorem mem_entriesInOrder_of_same {es fs : List (Value × Value)}
    (hKeys : ∀ k ∈ es.map Prod.fst, k ∈ fs.map Prod.fst)
    (hValues : ∀ k v w, (k, v) ∈ es → (k, w) ∈ fs → inOrder le v = inOrder le w)
    {e : Value × Value} (h : e ∈ entriesInOrder le es) : e ∈ entriesInOrder le fs := by
  rw [entriesInOrder_eq_map] at h ⊢
  obtain ⟨⟨k, v⟩, hv, rfl⟩ := List.mem_map.1 h
  obtain ⟨w, hw⟩ := Same.exists_of_mem_keys (hKeys k (List.mem_map_of_mem hv))
  exact List.mem_map.2 ⟨(k, w), hw, by rw [hValues k v w hv hw]⟩

theorem keys_entriesInOrder (es : List (Value × Value)) :
    (entriesInOrder le es).map Prod.fst = es.map Prod.fst := by
  rw [entriesInOrder_eq_map, List.map_map]
  rfl

/-- **Same data have one form in order.** -/
theorem Data.inOrder_eq_of_same
    (hTrans : ∀ a b c, le a b = true → le b c = true → le a c = true)
    (hTotal : ∀ a b, (le a b || le b a) = true)
    (hAntisymm : ∀ a b, key a = true → key b = true → le a b = true → le b a = true → a = b)
    {v w : Value} (hv : Data atom key v) (hw : Data atom key w) (h : Same v w) :
    Value.inOrder le v = Value.inOrder le w := by
  induction hv generalizing w with
  | atom isAtom => rw [h.eq_of_isAtom isAtom]
  | @array vs _ ih =>
      cases h with
      | refl => rfl
      | @array _ ws length items =>
          rw [inOrder_array, inOrder_array]
          congr 1
          refine List.ext_getElem (by simpa using length) ?_
          intro i hi hi'
          rw [List.length_map] at hi hi'
          rw [List.getElem_map, List.getElem_map]
          exact ih _ (List.getElem_mem hi) (hw.of_array _ (List.getElem_mem hi'))
            (items i _ _ (List.getElem?_eq_getElem hi) (List.getElem?_eq_getElem hi'))
  | @map es keys distinct _ ih =>
      cases h with
      | refl => rfl
      | @map _ fs sameKeys values =>
          obtain ⟨-, distinct', data'⟩ := hw.of_map
          have hValues : ∀ k v w, (k, v) ∈ es → (k, w) ∈ fs →
              Value.inOrder le v = Value.inOrder le w :=
            fun k v w hv hw => ih (k, v) hv (data' (k, w) hw) (values k v w hv hw)
          have nodup {gs : List (Value × Value)} (h : (gs.map Prod.fst).Nodup) :
              (entriesInOrder le gs).Nodup :=
            List.Nodup.of_map Prod.fst (by rwa [keys_entriesInOrder])
          -- both have the same entries once their values are in order
          have hPerm : (entriesInOrder le es).Perm (entriesInOrder le fs) := by
            apply (List.perm_ext_iff_of_nodup (nodup distinct) (nodup distinct')).2
            intro e
            constructor
            · exact mem_entriesInOrder_of_same (fun k => (sameKeys k).1) hValues
            · exact mem_entriesInOrder_of_same (fun k => (sameKeys k).2)
                fun k w v hw hv => (hValues k v w hv hw).symm
          rw [Value.inOrder, Value.inOrder]
          congr 1
          apply mergeSort_eq_of_perm hTrans hTotal hAntisymm ?_ ?_ hPerm
          · intro e he
            rw [entriesInOrder_eq_map] at he
            obtain ⟨f, hf, rfl⟩ := List.mem_map.1 he
            exact keys f hf
          · rwa [keys_entriesInOrder]

end

end NinjaFile.Value
