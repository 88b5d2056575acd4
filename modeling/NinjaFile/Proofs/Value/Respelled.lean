import NinjaFile.Proofs.Sorting.Sides
import NinjaFile.Proofs.Value.Json

/-!
# Integer keys as JSON

JSON has text keys only, so an integer that is a key is written as its numeral. Keys
are put in order before that, and there is no order between an integer and a text. So
data with keys of both kinds have a JSON form exactly when no map mixes them
(`Data.ends_toJson`), and else the sort of the keys is refused.

Where kinds are not mixed, no two keys of a map have one spelling. So nothing is lost:
the form is that of the data with every integer key spelled, each map with as many
entries as before (`Data.respelled`).
-/

namespace NinjaFile.Value

open Outcome (Ends)

/-! ## Keys of two kinds -/

def isShortKey (limit : Nat) : Value → Bool
  | .text _ => true
  | .int n => decide ((Numeral.digits n.natAbs).length ≤ limit)
  | _ => false

def MixedKeys (keys : List Value) : Prop :=
  (∃ n, .int n ∈ keys) ∧ ∃ s, .text s ∈ keys

/-- Some map in the value, at whatever depth, has integers and texts for keys. -/
inductive Mixes : Value → Prop where
  | here {es : List (Value × Value)} (keys : MixedKeys (es.map Prod.fst)) : Mixes (.map es)
  | item {vs : List Value} {v : Value} (mem : v ∈ vs) (inside : Mixes v) : Mixes (.array vs)
  | value {es : List (Value × Value)} {k v : Value} (mem : (k, v) ∈ es) (inside : Mixes v) :
      Mixes (.map es)

theorem not_mixes_of_isAtom {v : Value} (h : v.isAtom = true) : ¬v.Mixes := by
  intro hMixes
  cases hMixes <;> cases h

theorem mixes_array {vs : List Value} : (Value.array vs).Mixes ↔ ∃ v ∈ vs, v.Mixes := by
  constructor
  · rintro (_ | ⟨hMem, hInside⟩)
    exact ⟨_, hMem, hInside⟩
  · rintro ⟨v, hMem, hInside⟩
    exact .item hMem hInside

theorem mixes_map {es : List (Value × Value)} :
    (Value.map es).Mixes ↔ MixedKeys (es.map Prod.fst) ∨ ∃ e ∈ es, e.2.Mixes := by
  constructor
  · rintro (hKeys | _ | ⟨hMem, hInside⟩)
    · exact Or.inl hKeys
    · exact Or.inr ⟨_, hMem, hInside⟩
  · rintro (hKeys | ⟨e, hMem, hInside⟩)
    · exact .here hKeys
    · exact .value hMem hInside

/-- The refusals to compare an integer and a text. -/
def crossed : List Unordered :=
  [⟨.int, .text⟩, ⟨.text, .int⟩]

variable {limit : Nat}

theorem isShortKey_cases {k : Value} (h : k.isShortKey limit = true) :
    (∃ s, k = .text s) ∨ ∃ n, k = .int n ∧ (Numeral.digits n.natAbs).length ≤ limit := by
  cases k with
  | text s => exact Or.inl ⟨s, rfl⟩
  | int n => exact Or.inr ⟨n, rfl, of_decide_eq_true h⟩
  | _ => cases h

theorem ends_before {k l : Value} (hk : k.isShortKey limit = true)
    (hl : l.isShortKey limit = true) :
    Ends (· ∈ crossed) (fun _ => k.kind = l.kind) (k.before l) := by
  rcases isShortKey_cases hk with ⟨s, rfl⟩ | ⟨m, rfl, -⟩
  · rcases isShortKey_cases hl with ⟨t, rfl⟩ | ⟨n, rfl, -⟩
    · exact rfl
    · exact List.mem_cons_of_mem _ List.mem_cons_self
  · rcases isShortKey_cases hl with ⟨t, rfl⟩ | ⟨n, rfl, -⟩
    · exact List.mem_cons_self
    · exact rfl

section

variable {α : Type} {es : List (Value × α)}

theorem not_totallyOrdered (h : MixedKeys (es.map Prod.fst)) :
    totallyOrdered (es.map Prod.fst) = false := by
  obtain ⟨⟨n, hInt⟩, ⟨s, hText⟩⟩ := h
  rw [totallyOrdered, Bool.or_eq_false_iff, List.all_eq_false, List.all_eq_false]
  exact ⟨⟨_, hInt, Bool.false_ne_true⟩, ⟨_, hText, Bool.false_ne_true⟩⟩

theorem totallyOrdered_of_not_mixed (hKeys : ∀ e ∈ es, e.1.isShortKey limit = true)
    (h : ¬MixedKeys (es.map Prod.fst)) : totallyOrdered (es.map Prod.fst) = true := by
  rw [totallyOrdered, Bool.or_eq_true, List.all_eq_true, List.all_eq_true]
  have hCases : ∀ k ∈ es.map Prod.fst, k.isShortKey limit = true := by
    intro k hk
    obtain ⟨e, he, rfl⟩ := List.mem_map.1 hk
    exact hKeys e he
  by_cases hText : ∃ s, .text s ∈ es.map Prod.fst
  · left
    intro k hk
    rcases isShortKey_cases (hCases k hk) with ⟨s, rfl⟩ | ⟨n, rfl, -⟩
    · rfl
    · exact absurd ⟨⟨n, hk⟩, hText⟩ h
  · right
    intro k hk
    rcases isShortKey_cases (hCases k hk) with ⟨s, rfl⟩ | ⟨n, rfl, -⟩
    · exact absurd ⟨s, hk⟩ hText
    · rfl

/-- **Keys of one kind are sorted, and a mixture is refused.** -/
theorem ends_sortByKey (hKeys : ∀ e ∈ es, e.1.isShortKey limit = true) :
    Ends (fun pair => pair ∈ crossed ∧ MixedKeys (es.map Prod.fst))
      (fun out => out = es.mergeSort (fun e f => keyLe e.1 f.1) ∧ ¬MixedKeys (es.map Prod.fst))
      (sortByKey es) := by
  by_cases hMixed : MixedKeys (es.map Prod.fst)
  · have hSort : Ends (· ∈ crossed) (fun _ => Sorting.Alike (fun e => e.1.kind) es)
        (Sorting.sort (fun e f => e.1.before f.1) es) :=
      (Sorting.ends_sort fun e he f hf => ends_before (hKeys e he) (hKeys f hf)).imp
        fun _ h => h.2
    rw [sortByKey, if_neg (by simp [not_totallyOrdered hMixed])]
    cases hResult : Sorting.sort (fun e f => e.1.before f.1) es with
    | error pair =>
        rw [hResult] at hSort
        exact ⟨hSort, hMixed⟩
    | ok out =>
        -- the integer and the text would be of one kind
        rw [hResult] at hSort
        obtain ⟨⟨n, hInt⟩, ⟨s, hText⟩⟩ := hMixed
        obtain ⟨e, he, hEq⟩ := List.mem_map.1 hInt
        obtain ⟨f, hf, hEq'⟩ := List.mem_map.1 hText
        have hKind : e.1.kind = f.1.kind := hSort e he f hf
        rw [hEq, hEq'] at hKind
        cases hKind
  · rw [sortByKey, if_pos (totallyOrdered_of_not_mixed hKeys hMixed)]
    exact ⟨rfl, hMixed⟩

end

/-! ## Spelling -/

/-- A key as it is written: an integer becomes its numeral. -/
def spelling : Value → Value
  | .int n => .text (String.ofList (Numeral.ofInt n))
  | k => k

mutual

def respelled : Value → Value
  | .array vs => .array (itemsRespelled vs)
  | .map es => .map (entriesRespelled es)
  | v => v

def itemsRespelled : List Value → List Value
  | [] => []
  | v :: vs => respelled v :: itemsRespelled vs

def entriesRespelled : List (Value × Value) → List (Value × Value)
  | [] => []
  | (k, v) :: es => (k.spelling, respelled v) :: entriesRespelled es

end

theorem itemsRespelled_eq_map (vs : List Value) : itemsRespelled vs = vs.map respelled := by
  induction vs with
  | nil => rfl
  | cons v vs ih => rw [itemsRespelled, ih, List.map_cons]

theorem entriesRespelled_eq_map (es : List (Value × Value)) :
    entriesRespelled es = es.map fun e => (e.1.spelling, respelled e.2) := by
  induction es with
  | nil => rfl
  | cons e es ih => rw [entriesRespelled, ih, List.map_cons]

theorem respelled_of_isAtom {v : Value} (h : v.isAtom = true) : respelled v = v := by
  cases v <;> first | rfl | cases h

theorem isText_spelling {k : Value} (h : k.isShortKey limit = true) :
    k.spelling.isText = true := by
  rcases isShortKey_cases h with ⟨s, rfl⟩ | ⟨n, rfl, -⟩ <;> rfl

theorem keyText_eq {k : Value} (h : k.isShortKey Numeral.limit = true) :
    keyText k = .ok k.spelling.nameOf := by
  rcases isShortKey_cases h with ⟨s, rfl⟩ | ⟨n, rfl, hShort⟩
  · rfl
  · rw [keyText, Numeral.ofInt?, if_pos hShort]
    rfl

theorem eq_of_spelling {keys : List Value} (hKeys : ∀ k ∈ keys, k.isShortKey limit = true)
    (hMixed : ¬MixedKeys keys) {k l : Value} (hk : k ∈ keys) (hl : l ∈ keys)
    (h : k.spelling = l.spelling) : k = l := by
  rcases isShortKey_cases (hKeys k hk) with ⟨s, rfl⟩ | ⟨m, rfl, -⟩
  · rcases isShortKey_cases (hKeys l hl) with ⟨t, rfl⟩ | ⟨n, rfl, -⟩
    · exact h
    · exact absurd ⟨⟨n, hl⟩, ⟨s, hk⟩⟩ hMixed
  · rcases isShortKey_cases (hKeys l hl) with ⟨t, rfl⟩ | ⟨n, rfl, -⟩
    · exact absurd ⟨⟨m, hk⟩, ⟨t, hl⟩⟩ hMixed
    · rw [Json.ofInt_injective (String.ofList_injective (Value.text.inj h))]

/-! ## The form -/

def CrossedIn (v : Value) (u : Unwritable) : Prop :=
  v.Mixes ∧ ∃ pair ∈ crossed, u = .unordered pair

def exported (v : Value) : Value :=
  respelled (inOrder keyLe v)

theorem exported_of_isAtom {v : Value} (h : v.isAtom = true) : exported v = v := by
  rw [exported, inOrder_of_isAtom keyLe h, respelled_of_isAtom h]

theorem exported_array (vs : List Value) : exported (.array vs) = .array (vs.map exported) := by
  rw [exported, inOrder_array, respelled, itemsRespelled_eq_map, List.map_map]
  rfl

def exportedEntries (es : List (Value × Value)) : List (Value × Value) :=
  (es.mergeSort fun e f => keyLe e.1 f.1).map fun e => (e.1.spelling, exported e.2)

theorem entriesRespelled_arranged (es : List (Value × Value)) :
    entriesRespelled (arranged keyLe es) = exportedEntries es := by
  rw [entriesRespelled_eq_map, arranged, List.map_map]
  rfl

theorem exported_map (es : List (Value × Value)) :
    exported (.map es) = .map (exportedEntries es) := by
  rw [exported, inOrder_map, respelled, entriesRespelled_arranged]

theorem mem_exportedEntries {es : List (Value × Value)} {l w : Value} :
    (l, w) ∈ exportedEntries es ↔ ∃ k v, (k, v) ∈ es ∧ l = k.spelling ∧ w = exported v := by
  constructor
  · intro h
    obtain ⟨⟨k, v⟩, hMem, hEq⟩ := List.mem_map.1 h
    cases hEq
    exact ⟨k, v, List.mem_mergeSort.1 hMem, rfl, rfl⟩
  · rintro ⟨k, v, hMem, rfl, rfl⟩
    exact List.mem_map.2 ⟨(k, v), List.mem_mergeSort.2 hMem, rfl⟩

theorem keys_exportedEntries_perm (es : List (Value × Value)) :
    ((exportedEntries es).map Prod.fst).Perm ((es.map Prod.fst).map spelling) := by
  rw [exportedEntries, List.map_map, List.map_map]
  exact (List.mergeSort_perm es _).map _

theorem ends_toJsonItems {vs : List Value}
    (h : ∀ v ∈ vs, Ends (CrossedIn v) (fun j => ¬v.Mixes ∧ j = asJson (exported v))
      (toJson true v)) :
    Ends (CrossedIn (.array vs))
      (fun js => (∀ v ∈ vs, ¬v.Mixes) ∧ js = vs.map fun v => asJson (exported v))
      (toJsonItems true vs) := by
  have items : ∀ ws, (∀ v ∈ ws, v ∈ vs) → Ends (CrossedIn (.array vs))
      (fun js => (∀ v ∈ ws, ¬v.Mixes) ∧ js = ws.map fun v => asJson (exported v))
      (toJsonItems true ws) := by
    intro ws hSub
    induction ws with
    | nil => exact ⟨by simp, rfl⟩
    | cons v ws ih =>
        obtain ⟨hv, hws⟩ := List.forall_mem_cons.1 hSub
        have hFirst := (h v hv).imp_refused fun u hu =>
          show CrossedIn (.array vs) u from ⟨.item hv hu.1, hu.2⟩
        refine hFirst.bind ?_
        rintro j ⟨hClean, rfl⟩
        refine (ih hws).bind ?_
        rintro js ⟨hRest, rfl⟩
        exact ⟨List.forall_mem_cons.2 ⟨hClean, hRest⟩, rfl⟩
  exact items vs fun v hv => hv

theorem ends_members {es fs : List (Value × Value)} (hSub : ∀ e ∈ fs, e ∈ es)
    (hKeys : ∀ e ∈ fs, e.1.isShortKey Numeral.limit = true)
    (h : ∀ e ∈ fs, Ends (CrossedIn e.2) (fun j => ¬e.2.Mixes ∧ j = asJson (exported e.2))
      (toJson true e.2)) :
    Ends (CrossedIn (.map es))
      (fun ms => (∀ e ∈ fs, ¬e.2.Mixes) ∧
        ms = fs.map fun e => (e.1.spelling.nameOf, asJson (exported e.2)))
      (members (fs.map fun e => (e.1, toJson true e.2))) := by
  induction fs with
  | nil => exact ⟨by simp, rfl⟩
  | cons e fs ih =>
      obtain ⟨he, hfs⟩ := List.forall_mem_cons.1 hSub
      obtain ⟨hKey, hKeys⟩ := List.forall_mem_cons.1 hKeys
      obtain ⟨hFirst, hRest⟩ := List.forall_mem_cons.1 h
      show Ends _ _ (members ((e.1, toJson true e.2) :: fs.map _))
      rw [members, keyText_eq hKey]
      have hValue := hFirst.imp_refused fun u hu =>
        show CrossedIn (.map es) u from ⟨.value he hu.1, hu.2⟩
      refine hValue.bind ?_
      rintro j ⟨hClean, rfl⟩
      refine (ih hfs hKeys hRest).bind ?_
      rintro ms ⟨hOthers, rfl⟩
      exact ⟨List.forall_mem_cons.2 ⟨hClean, hOthers⟩, rfl⟩

theorem ends_arrange {es : List (Value × Value)}
    (hKeys : ∀ e ∈ es, e.1.isShortKey Numeral.limit = true)
    (h : ∀ e ∈ es, Ends (CrossedIn e.2) (fun j => ¬e.2.Mixes ∧ j = asJson (exported e.2))
      (toJson true e.2)) :
    Ends (CrossedIn (.map es))
      (fun ms => ¬(Value.map es).Mixes ∧ ms = (es.mergeSort fun e f => keyLe e.1 f.1).map fun e =>
        (e.1.spelling.nameOf, asJson (exported e.2)))
      (arrange true (toJsonEntries true es)) := by
  have hFormKeys : ∀ f ∈ es.map fun e => (e.1, toJson true e.2),
      f.1.isShortKey Numeral.limit = true := by
    intro f hf
    obtain ⟨e, he, rfl⟩ := List.mem_map.1 hf
    exact hKeys e he
  have hSorted := ends_sortByKey hFormKeys
  have hNames : (es.map fun e => (e.1, toJson true e.2)).map Prod.fst = es.map Prod.fst := by
    rw [List.map_map]
    rfl
  rw [hNames] at hSorted
  rw [arrange, if_pos rfl, toJsonEntries_eq_map]
  cases hSort : sortByKey (es.map fun e => (e.1, toJson true e.2)) with
  | error pair =>
      rw [hSort] at hSorted
      exact ⟨.here hSorted.2, pair, hSorted.1, rfl⟩
  | ok out =>
      rw [hSort] at hSorted
      obtain ⟨rfl, hMixed⟩ := hSorted
      rw [← List.map_mergeSort (r := fun e f => keyLe e.1 f.1) fun e _ f _ => rfl]
      have hSub : ∀ e ∈ es.mergeSort fun e f => keyLe e.1 f.1, e ∈ es :=
        fun e he => List.mem_mergeSort.1 he
      have hMembers := ends_members hSub (fun e he => hKeys e (hSub e he)) fun e he =>
        h e (hSub e he)
      refine hMembers.imp ?_
      rintro ms ⟨hClean, rfl⟩
      refine ⟨?_, rfl⟩
      rw [mixes_map, not_or]
      refine ⟨hMixed, ?_⟩
      rintro ⟨e, he, hInside⟩
      exact hClean e (List.mem_mergeSort.2 he) hInside

/-- **When data have a form.** It is there exactly if no map mixes integers and texts among its keys,
and else the refusal is one to compare these. -/
theorem Data.ends_toJson {v : Value}
    (h : Data (isShort Numeral.limit) (isShortKey Numeral.limit) v) :
    Ends (CrossedIn v) (fun j => ¬v.Mixes ∧ j = asJson (exported v)) (toJson true v) := by
  induction h with
  | @atom v isAtom allowed =>
      have hClean := not_mixes_of_isAtom isAtom
      rw [exported_of_isAtom isAtom]
      cases v with
      | int n =>
          rw [toJson, if_pos (of_decide_eq_true allowed)]
          exact ⟨hClean, rfl⟩
      | null | bool | text => exact ⟨hClean, rfl⟩
      | _ => cases allowed
  | @array vs items ih =>
      rw [toJson, exported_array, asJson, itemsAsJson_eq_map, List.map_map]
      refine (ends_toJsonItems ih).bind ?_
      rintro js ⟨hClean, rfl⟩
      refine ⟨?_, rfl⟩
      rw [mixes_array]
      rintro ⟨v, hv, hInside⟩
      exact hClean v hv hInside
  | @map es keys distinct values ih =>
      rw [toJson, exported_map, exportedEntries, asJson, entriesAsJson_eq_map, List.map_map]
      refine (ends_arrange keys ih).bind ?_
      rintro ms ⟨hClean, rfl⟩
      exact ⟨hClean, rfl⟩

/-! ## What is kept -/

/-- Two values that differ at most in the spelling of keys and the order of entries. No map has
more entries or fewer. -/
inductive Respelled : Value → Value → Prop where
  | atom {v : Value} (isAtom : v.isAtom = true) : Respelled v v
  | array {vs ws : List Value} (length : ws.length = vs.length)
      (items : ∀ (i : Nat) v w, vs[i]? = some v → ws[i]? = some w → Respelled v w) :
      Respelled (.array vs) (.array ws)
  | map {es fs : List (Value × Value)} (count : fs.length = es.length)
      (distinct : (fs.map Prod.fst).Nodup)
      (keys : ∀ l, l ∈ fs.map Prod.fst ↔ ∃ k ∈ es.map Prod.fst, l = k.spelling)
      (values : ∀ k v w, (k, v) ∈ es → (k.spelling, w) ∈ fs → Respelled v w) :
      Respelled (.map es) (.map fs)

/-- **Nothing is lost.** Where no map mixes integers and texts among its keys, the form is that of
data with text keys, and these are the data with every key spelled. -/
theorem Data.respelled {v : Value} (h : Data (isShort limit) (isShortKey limit) v)
    (hMixes : ¬v.Mixes) : Data (isShort limit) isText (exported v) ∧ Respelled v (exported v) := by
  induction h with
  | atom isAtom allowed =>
      rw [exported_of_isAtom isAtom]
      exact ⟨.atom isAtom allowed, .atom isAtom⟩
  | @array vs items ih =>
      have hItems : ∀ v ∈ vs, ¬v.Mixes := fun v hv hInside => hMixes (.item hv hInside)
      rw [exported_array]
      constructor
      · refine .array ?_
        intro w hw
        obtain ⟨v, hv, rfl⟩ := List.mem_map.1 hw
        exact (ih v hv (hItems v hv)).1
      · refine .array (List.length_map _) ?_
        intro i v w hv hw
        rw [List.getElem?_map, hv] at hw
        cases hw
        have hMem := List.mem_of_getElem? hv
        exact (ih v hMem (hItems v hMem)).2
  | @map es keys distinct values ih =>
      have hValues : ∀ e ∈ es, ¬e.2.Mixes := fun e he hInside => hMixes (.value he hInside)
      have hKeys : ∀ k ∈ es.map Prod.fst, k.isShortKey limit = true := by
        intro k hk
        obtain ⟨e, he, rfl⟩ := List.mem_map.1 hk
        exact keys e he
      have hInjective {k l : Value} := eq_of_spelling hKeys (fun hMixed => hMixes (.here hMixed))
        (k := k) (l := l)
      have hNames := keys_exportedEntries_perm es
      have hDistinct : ((exportedEntries es).map Prod.fst).Nodup :=
        hNames.nodup_iff.2 (distinct.map_on fun k hk l hl => hInjective hk hl)
      rw [exported_map]
      constructor
      · refine .map ?_ hDistinct ?_
        · rintro ⟨l, w⟩ he
          obtain ⟨k, v, hv, rfl, -⟩ := mem_exportedEntries.1 he
          exact isText_spelling (keys (k, v) hv)
        · rintro ⟨l, w⟩ he
          obtain ⟨k, v, hv, -, rfl⟩ := mem_exportedEntries.1 he
          exact (ih (k, v) hv (hValues (k, v) hv)).1
      · refine .map ?_ hDistinct ?_ ?_
        · rw [exportedEntries, List.length_map, List.length_mergeSort]
        · intro l
          rw [hNames.mem_iff, List.mem_map]
          simp only [eq_comm]
        · intro k v w hv hw
          obtain ⟨l, u, hu, hSpelling, rfl⟩ := mem_exportedEntries.1 hw
          cases hInjective (List.mem_map_of_mem hv) (List.mem_map_of_mem hu) hSpelling
          cases eq_of_mem_of_mem distinct hu hv
          exact (ih (k, v) hv (hValues (k, v) hv)).2

end NinjaFile.Value
