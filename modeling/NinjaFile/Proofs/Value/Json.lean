import NinjaFile.Proofs.Json.Printing
import NinjaFile.Proofs.Value.Same
import NinjaFile.Value.Json

/-!
# Data as JSON

Data that JSON can carry have one JSON form, which is that of their entries in
order (`Data.toJson_eq`), and the form determines the data (`Data.ofJson_asJson`).
Together with `Data.read_toText` this says that the text of data is read back as
the data in order. The other way, what is read from a text and has no fractional
numbers is such data (`data_ofJson`).
-/

namespace NinjaFile.Value

/-! ## Data for JSON -/

/-- Is the value an atom that JSON has, other than a fractional number? -/
def isPlain : Value → Bool
  | .null | .bool _ | .int _ | .text _ => true
  | _ => false

def isShort (limit : Nat) : Value → Bool
  | .int n => decide ((Numeral.digits n.natAbs).length ≤ limit)
  | v => v.isPlain

def nameOf : Value → String
  | .text s => s
  | _ => ""

theorem text_nameOf {v : Value} (h : v.isText = true) : .text v.nameOf = v := by
  cases v <;> first | rfl | cases h

def nameLe (v w : Value) : Bool :=
  !decide (w.nameOf < v.nameOf)

theorem keyLe_of_isText {v w : Value} (hv : v.isText = true) (hw : w.isText = true) :
    keyLe v w = nameLe v w := by
  rw [← text_nameOf hv, ← text_nameOf hw, keyLe, before]
  rfl

theorem nameLe_trans (u v w : Value) (h : nameLe u v = true) (h' : nameLe v w = true) :
    nameLe u w = true := by
  simp only [nameLe, Bool.not_eq_true', decide_eq_false_iff_not, String.not_lt] at *
  exact String.le_trans h h'

theorem nameLe_total (v w : Value) : (nameLe v w || nameLe w v) = true := by
  simp only [nameLe, Bool.or_eq_true, Bool.not_eq_true', decide_eq_false_iff_not, String.not_lt]
  exact String.le_total _ _

theorem nameLe_antisymm (v w : Value) (hv : v.isText = true) (hw : w.isText = true)
    (h : nameLe v w = true) (h' : nameLe w v = true) : v = w := by
  simp only [nameLe, Bool.not_eq_true', decide_eq_false_iff_not, String.not_lt] at h h'
  rw [← text_nameOf hv, ← text_nameOf hw, String.le_antisymm h h']

/-! ## The form -/

mutual

def asJson : Value → Json
  | .bool b => .bool b
  | .int n => .int n
  | .text s => .text s
  | .array vs => .array (itemsAsJson vs)
  | .map es => .object (entriesAsJson es)
  | _ => .null

def itemsAsJson : List Value → List Json
  | [] => []
  | v :: vs => asJson v :: itemsAsJson vs

def entriesAsJson : List (Value × Value) → List (String × Json)
  | [] => []
  | (k, v) :: es => (k.nameOf, asJson v) :: entriesAsJson es

end

theorem itemsAsJson_eq_map (vs : List Value) : itemsAsJson vs = vs.map asJson := by
  induction vs with
  | nil => rfl
  | cons v vs ih => rw [itemsAsJson, ih, List.map_cons]

theorem entriesAsJson_eq_map (es : List (Value × Value)) :
    entriesAsJson es = es.map fun e => (e.1.nameOf, asJson e.2) := by
  induction es with
  | nil => rfl
  | cons e es ih => rw [entriesAsJson, ih, List.map_cons]

variable {limit : Nat}

/-- The form of data is determined by its text. -/
theorem Data.exact_asJson {v : Value} (h : Data (isShort limit) isText v) :
    Json.Exact limit (asJson v) := by
  induction h with
  | @atom v isAtom allowed =>
      cases v with
      | null => exact .null
      | bool b => exact .bool b
      | int n => exact .int (of_decide_eq_true allowed)
      | text s => exact .text s
      | _ => cases allowed
  | array items ih =>
      rw [asJson, itemsAsJson_eq_map]
      refine .array ?_
      intro j hj
      obtain ⟨v, hv, rfl⟩ := List.mem_map.1 hj
      exact ih v hv
  | @map es keys distinct values ih =>
      rw [asJson, entriesAsJson_eq_map]
      refine .object ?_ ?_
      · have hNames : ((es.map fun e => (e.1.nameOf, asJson e.2)).map Prod.fst).map Value.text =
            es.map Prod.fst := by
          rw [List.map_map, List.map_map]
          exact List.map_congr_left fun e he => text_nameOf (keys e he)
        exact List.Nodup.of_map Value.text (hNames ▸ distinct)
      · rintro m hm
        obtain ⟨e, he, rfl⟩ := List.mem_map.1 hm
        exact ih e he

/-- The form determines data. -/
theorem Data.ofJson_asJson {v : Value} (h : Data (isShort limit) isText v) :
    ofJson (asJson v) = v := by
  induction h with
  | @atom v isAtom allowed => cases v <;> first | rfl | cases allowed
  | @array vs items ih =>
      have hItems : ofJsonItems (itemsAsJson vs) = vs := by
        clear items
        induction vs with
        | nil => rfl
        | cons v vs ihItems =>
            rw [itemsAsJson, ofJsonItems, ih v List.mem_cons_self,
              ihItems fun w hw => ih w (List.mem_cons_of_mem _ hw)]
      rw [asJson, ofJson, hItems]
  | @map es keys distinct values ih =>
      have hEntries : ofJsonMembers (entriesAsJson es) = es := by
        clear distinct values
        induction es with
        | nil => rfl
        | cons e es ihEntries =>
            obtain ⟨k, v⟩ := e
            rw [entriesAsJson, ofJsonMembers, text_nameOf (keys (k, v) List.mem_cons_self),
              ih (k, v) List.mem_cons_self,
              ihEntries (fun f hf => keys f (List.mem_cons_of_mem _ hf))
                fun f hf => ih f (List.mem_cons_of_mem _ hf)]
      rw [asJson, ofJson, hEntries]

/-! ## Writing -/

theorem toJsonItems_eq {sorted : Bool} {f : Value → Json} {vs : List Value}
    (h : ∀ v ∈ vs, toJson sorted v = .ok (f v)) : toJsonItems sorted vs = .ok (vs.map f) := by
  induction vs with
  | nil => rfl
  | cons v vs ih =>
      rw [toJsonItems, h v List.mem_cons_self, ih fun w hw => h w (List.mem_cons_of_mem _ hw)]
      rfl

theorem toJsonEntries_eq_map (sorted : Bool) (es : List (Value × Value)) :
    toJsonEntries sorted es = es.map fun e => (e.1, toJson sorted e.2) := by
  induction es with
  | nil => rfl
  | cons e es ih => rw [toJsonEntries, ih, List.map_cons]

theorem members_eq {f : Value → Json} {es : List (Value × Except Unwritable Json)}
    {origin : List (Value × Value)} (hKeys : ∀ e ∈ origin, e.1.isText = true)
    (h : es = origin.map fun e => (e.1, .ok (f e.2))) :
    members es = .ok (origin.map fun e => (e.1.nameOf, f e.2)) := by
  subst h
  induction origin with
  | nil => rfl
  | cons e origin ih =>
      have hKey : keyText e.1 = .ok e.1.nameOf := by
        rw [← text_nameOf (hKeys e List.mem_cons_self)]
        rfl
      rw [List.map_cons, members, hKey, ih fun f hf => hKeys f (List.mem_cons_of_mem _ hf)]
      rfl

theorem mergeSort_congr {α : Type} {r s : α → α → Bool} {l : List α}
    (h : ∀ a ∈ l, ∀ b ∈ l, r a b = s a b) : l.mergeSort r = l.mergeSort s := by
  have hMap := List.map_mergeSort (r := r) (s := s) (f := id) h
  rwa [List.map_id, List.map_id] at hMap

theorem sortByKey_eq {α : Type} {es : List (Value × α)} (h : ∀ e ∈ es, e.1.isText = true) :
    sortByKey es = .ok (es.mergeSort fun e f => nameLe e.1 f.1) := by
  have hTexts : (es.map Prod.fst).all isText = true := by
    rw [List.all_map, List.all_eq_true]
    exact h
  have hSame : ∀ e ∈ es, ∀ f ∈ es, keyLe e.1 f.1 = nameLe e.1 f.1 := by
    intro e he f hf
    exact keyLe_of_isText (h e he) (h f hf)
  have hAll : totallyOrdered (es.map Prod.fst) = true := by
    rw [totallyOrdered, hTexts, Bool.true_or]
  rw [sortByKey, if_pos hAll, mergeSort_congr hSame]

/-- **The JSON form of data.** With sorted keys it is that of the data in order. -/
theorem Data.toJson_eq {v : Value} (h : Data (isShort Numeral.limit) isText v) :
    toJson true v = .ok (asJson (Value.inOrder nameLe v)) := by
  induction h with
  | @atom v isAtom allowed =>
      rw [inOrder_of_isAtom nameLe isAtom]
      cases v with
      | int n => rw [toJson, if_pos (of_decide_eq_true allowed), asJson]
      | null | bool | text => rfl
      | _ => cases allowed
  | @array vs items ih =>
      rw [inOrder_array, asJson, itemsAsJson_eq_map, toJson, toJsonItems_eq ih, List.map_map]
      rfl
  | @map es keys distinct values ih =>
      have hForms : toJsonEntries true es =
          es.map fun e => (e.1, .ok (asJson (Value.inOrder nameLe e.2))) := by
        rw [toJsonEntries_eq_map]
        exact List.map_congr_left fun e he => by rw [ih e he]
      have hKeys : ∀ e ∈ toJsonEntries true es, e.1.isText = true := by
        rw [toJsonEntries_eq_map]
        intro e he
        obtain ⟨f, hf, rfl⟩ := List.mem_map.1 he
        exact keys f hf
      have hMembers := members_eq (f := fun v => asJson (Value.inOrder nameLe v))
        (fun e he => keys e (List.mem_mergeSort.1 he))
        (List.map_mergeSort (s := fun e f => nameLe e.1 f.1) fun e _ f _ => rfl).symm
      rw [toJson, arrange, if_pos rfl, sortByKey_eq hKeys, hForms]
      show (members _ >>= _) = _
      rw [hMembers, inOrder_map, asJson, entriesAsJson_eq_map, arranged, List.map_map]
      rfl

theorem Data.jsonText_eq {v : Value} (h : Data (isShort Numeral.limit) isText v)
    (layout : Json.Layout) :
    v.jsonText layout true = .ok ((asJson (Value.inOrder nameLe v)).toText layout) := by
  rw [jsonText, h.toJson_eq]
  rfl

theorem Data.read_toText {v : Value} (h : Data (isShort limit) isText v) {layout : Json.Layout}
    (hLayout : layout.Blank) {blanks : List Char} (hBlanks : ∀ c ∈ blanks, Json.isBlank c = true) :
    Json.read limit (((asJson v).toText layout).toList ++ blanks) = .ok (asJson v) := by
  rw [Json.toText, String.toList_ofList]
  exact Json.read_print hLayout h.exact_asJson hBlanks

/-! ## Reading -/

theorem ofJsonItems_eq_map (js : List Json) : ofJsonItems js = js.map ofJson := by
  induction js with
  | nil => rfl
  | cons j js ih => rw [ofJsonItems, ih, List.map_cons]

theorem ofJsonMembers_eq_map (ms : List (String × Json)) :
    ofJsonMembers ms = ms.map fun m => (.text m.1, ofJson m.2) := by
  induction ms with
  | nil => rfl
  | cons m ms ih => rw [ofJsonMembers, ih, List.map_cons]

/-- **What is read is data** if it has no fractional numbers. -/
theorem data_ofJson {j : Json} (hTidy : Json.Tidy limit true j)
    (h : MadeOf isPlain isText (ofJson j)) : Data (isShort limit) isText (ofJson j) := by
  induction hTidy with
  | null => exact .atom rfl rfl
  | bool b => exact .atom rfl rfl
  | int short => exact .atom rfl (decide_eq_true short)
  | float _ x =>
      have hNone : (ofFloat x).isPlain = false := by
        unfold ofFloat
        split <;> rfl
      rw [ofJson] at h
      cases hFloat : ofFloat x with
      | nan | float =>
          rw [hFloat] at h
          cases h with
          | atom _ allowed => cases allowed
      | _ =>
          unfold ofFloat at hFloat
          split at hFloat <;> cases hFloat
  | text s => exact .atom rfl rfl
  | array tidy ih =>
      rw [ofJson, ofJsonItems_eq_map] at *
      refine .array ?_
      intro v hv
      obtain ⟨j, hj, rfl⟩ := List.mem_map.1 hv
      exact ih j hj (h.of_array _ hv)
  | @object ms distinct tidy ih =>
      rw [ofJson, ofJsonMembers_eq_map] at *
      obtain ⟨keys, values⟩ := h.of_map
      refine .map keys ?_ ?_
      · rw [List.map_map]
        have hTexts : (ms.map fun m => Value.text m.1) = (ms.map Prod.fst).map Value.text := by
          rw [List.map_map]
          rfl
        show (ms.map fun m => Value.text m.1).Nodup
        rw [hTexts]
        exact distinct.map fun s t hst => Value.text.inj hst
      · intro e he
        have hValue := values e he
        obtain ⟨m, hm, rfl⟩ := List.mem_map.1 he
        exact ih m hm hValue

end NinjaFile.Value
