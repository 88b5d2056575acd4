import NinjaFile.Proofs.Json.Unambiguous
import NinjaFile.Proofs.Manifest.Telling
import NinjaFile.Proofs.Value.Json

/-!
# Values that are written alike

Values whose JSON forms are spelled alike are told by what a build file is made of
(`telling_writtenAlike`). With sorted keys the members of the form of a record are its
entries in order of their names (`toJson_record_eq`), so the form says nothing of the
order in which they were given (`toJson_record_of_perm`); where no name comes twice, it
says what stands under each name (`WrittenAlike.field`).

Scalars and flags are words in the form unless they are texts. The words of two integers
or two truth values differ if these do. Words of flags may be equal where the flags are
not, but the flags that do not hold have four words only, and no other flag has one of
these (`Flag.holds_of_word`), since the word of a number that is not zero has a digit
that is not.
-/

namespace NinjaFile

namespace Json

/-! ## What is spelled alike -/

theorem Spelled.word_eq {j k : Json} (h : Spelled j k) : j.word? = k.word? := by
  cases h with
  | word left right => rw [left, right]
  | text | array | object => rfl

theorem Spelled.text_eq {s t : String} (h : Spelled (.text s) (.text t)) : s = t := by
  cases h with
  | word left => cases left
  | text => rfl

theorem Spelled.items {js ks : List Json} (h : Spelled (.array js) (.array ks)) :
    List.Forall₂ Spelled js ks := by
  cases h with
  | word left => cases left
  | array items => exact items

theorem Spelled.members {ms ns : List (String × Json)} (h : Spelled (.object ms) (.object ns)) :
    List.Forall₂ (fun m n => m.1 = n.1 ∧ Spelled m.2 n.2) ms ns := by
  cases h with
  | word left => cases left
  | object names values => exact Value.forall₂_pairs names values

theorem boolWord_injective {b c : Bool}
    (h : (if b then "true".toList else "false".toList) =
      if c then "true".toList else "false".toList) : b = c := by
  cases b <;> cases c <;> first | rfl | exact absurd h (by decide)

theorem ofInt_ne_bool (n : Int) (b : Bool) :
    Numeral.ofInt n ≠ if b then "true".toList else "false".toList := by
  obtain ⟨c, cs, hText, hHead⟩ := head_ofInt n
  rw [hText]
  intro h
  cases b with
  | true => exact ne_of_headInt hHead (by decide) (List.cons.inj h).1
  | false => exact ne_of_headInt hHead (by decide) (List.cons.inj h).1

end Json

namespace Value

/-! ## What is written -/

theorem toJson_int {sorted : Bool} {n : Int} {j : Json} (h : toJson sorted (.int n) = .ok j) :
    j = .int n := by
  rw [toJson] at h
  split at h <;> cases h
  rfl

theorem toJson_scalar {sorted : Bool} {s : Scalar} {j : Json}
    (h : toJson sorted s.toValue = .ok j) : j = s.toValue.asJson := by
  cases s with
  | int n => exact toJson_int h
  | text | bool =>
      cases h
      rfl

theorem toJsonItems_ok {sorted : Bool} {vs : List Value} {js : List Json}
    (h : toJsonItems sorted vs = .ok js) :
    List.Forall₂ (fun v j => toJson sorted v = .ok j) vs js := by
  induction vs generalizing js with
  | nil =>
      cases h
      exact .nil
  | cons v vs ih =>
      rw [toJsonItems] at h
      obtain ⟨first, hFirst, h⟩ := Outcome.bind_eq_ok.1 h
      obtain ⟨others, hOthers, hCons⟩ := Outcome.bind_eq_ok.1 h
      cases hCons
      exact .cons hFirst (ih hOthers)

theorem toJson_array {sorted : Bool} {vs : List Value} {j : Json}
    (h : toJson sorted (.array vs) = .ok j) :
    ∃ js, j = .array js ∧ List.Forall₂ (fun v j => toJson sorted v = .ok j) vs js := by
  rw [toJson] at h
  obtain ⟨js, hItems, hForm⟩ := Outcome.bind_eq_ok.1 h
  cases hForm
  exact ⟨js, rfl, toJsonItems_ok hItems⟩

theorem members_ok {es : List (Value × Except Unwritable Json)} {ms : List (String × Json)}
    (hKeys : ∀ e ∈ es, e.1.isText = true) (h : members es = .ok ms) :
    List.Forall₂ (fun e m => e.1 = .text m.1 ∧ e.2 = .ok m.2) es ms := by
  induction es generalizing ms with
  | nil =>
      cases h
      exact .nil
  | cons e es ih =>
      obtain ⟨k, item⟩ := e
      obtain ⟨s, rfl⟩ : ∃ s, k = .text s :=
        ⟨k.nameOf, (text_nameOf (hKeys (k, item) List.mem_cons_self)).symm⟩
      rw [members] at h
      obtain ⟨name, hName, h⟩ := Outcome.bind_eq_ok.1 h
      obtain ⟨first, hFirst, h⟩ := Outcome.bind_eq_ok.1 h
      obtain ⟨others, hOthers, hCons⟩ := Outcome.bind_eq_ok.1 h
      cases hName
      cases hCons
      exact .cons ⟨rfl, hFirst⟩ (ih (fun e he => hKeys e (List.mem_cons_of_mem _ he)) hOthers)

theorem isText_named (fs : List (String × Value)) : ∀ e ∈ named fs, e.1.isText = true := by
  intro e he
  obtain ⟨f, -, rfl⟩ := List.mem_map.1 he
  rfl

theorem toJson_record_eq (fs : List (String × Value)) :
    toJson true (.record fs) = Except.map Json.object (members
      (((named fs).mergeSort fun e f => nameLe e.1 f.1).map fun e => (e.1, toJson true e.2))) := by
  have hTexts : ∀ e ∈ (named fs).map fun e => (e.1, toJson true e.2), e.1.isText = true := by
    intro e he
    obtain ⟨f, hf, rfl⟩ := List.mem_map.1 he
    exact isText_named fs f hf
  have hSorted : ((named fs).mergeSort fun e f => nameLe e.1 f.1).map
      (fun e => (e.1, toJson true e.2)) =
      ((named fs).map fun e => (e.1, toJson true e.2)).mergeSort fun e f => nameLe e.1 f.1 :=
    List.map_mergeSort fun e _ f _ => rfl
  rw [record, toJson, arrange, if_pos rfl, toJsonEntries_eq_map, sortByKey_eq hTexts, hSorted]
  rfl

theorem toJson_record {fs : List (String × Value)} {j : Json}
    (h : toJson true (.record fs) = .ok j) :
    ∃ ms es, j = .object ms ∧ es.Perm (named fs) ∧
      List.Forall₂ (fun e m => e.1 = .text m.1 ∧ toJson true e.2 = .ok m.2) es ms := by
  rw [toJson_record_eq] at h
  obtain ⟨ms, hMembers, rfl⟩ := Outcome.map_eq_ok.1 h
  have hEach := members_ok (by
    intro e he
    obtain ⟨f, hf, rfl⟩ := List.mem_map.1 he
    exact isText_named fs f (List.mem_mergeSort.1 hf)) hMembers
  exact ⟨ms, _, rfl, List.mergeSort_perm _ _, List.forall₂_map_left_iff.1 hEach⟩

theorem toJson_record_of_perm {fs gs : List (String × Value)} (hNames : (fs.map Prod.fst).Nodup)
    (hPerm : fs.Perm gs) : toJson true (.record fs) = toJson true (.record gs) := by
  have hSame : ((named fs).mergeSort fun e f => nameLe e.1 f.1) =
      (named gs).mergeSort fun e f => nameLe e.1 f.1 :=
    mergeSort_eq_of_perm nameLe_trans nameLe_total nameLe_antisymm (isText_named fs)
      (nodup_keys_named hNames) (hPerm.map _)
  rw [toJson_record_eq, toJson_record_eq, hSame]

theorem toJson_array_congr {sorted : Bool} {vs ws : List Value}
    (h : List.Forall₂ (fun v w => toJson sorted v = toJson sorted w) vs ws) :
    toJson sorted (.array vs) = toJson sorted (.array ws) := by
  have hItems : toJsonItems sorted vs = toJsonItems sorted ws := by
    induction h with
    | nil => rfl
    | cons hFirst _ ih => rw [toJsonItems, toJsonItems, hFirst, ih]
  rw [toJson, toJson, hItems]

theorem toJson_record_congr {sorted : Bool} {fs gs : List (String × Value)}
    (h : List.Forall₂ (fun f g => f.1 = g.1 ∧ toJson sorted f.2 = toJson sorted g.2) fs gs) :
    toJson sorted (.record fs) = toJson sorted (.record gs) := by
  have hEntries : toJsonEntries sorted (named fs) = toJsonEntries sorted (named gs) := by
    induction h with
    | nil => rfl
    | @cons f g fs gs hFirst _ ih =>
        obtain ⟨hName, hForm⟩ := hFirst
        rw [named, named, List.map_cons, List.map_cons, toJsonEntries, toJsonEntries, hName, hForm]
        exact congrArg _ ih
  rw [record, record, toJson, toJson, hEntries]

end Value

/-! ## Flags -/

namespace Flag

/-- The word that a flag is written as, if it is no text. -/
def word? : Flag → Option (List Char)
  | .bool b => (Json.bool b).word?
  | .int n => (Json.int n).word?
  | .float x => (Json.float x).word?
  | .text _ => none

def unset : List (List Char) :=
  ["false".toList, "0".toList, "0.0".toList, "-0.0".toList]

theorem not_mem_unset {w : List Char} (h : ∃ c ∈ w, Json.isDigit c = true ∧ c ≠ '0') :
    w ∉ unset := by
  obtain ⟨c, hMem, hDigit, hNonzero⟩ := h
  have hWords : (unset.all fun w => w.all fun c => !Json.isDigit c || c == '0') = true := by decide
  intro hUnset
  have hChar := List.all_eq_true.1 (List.all_eq_true.1 hWords w hUnset) c hMem
  simp [hDigit, hNonzero] at hChar

/-- The word of a double is one of those exactly when the double is zero. -/
theorem holds_float_iff (x : Binary64) : (float x).holds = true ↔ Json.style.text x ∉ unset := by
  cases hx : x.datum with
  | nan =>
      simp only [holds, Decimal.Style.text, hx]
      decide
  | infinite negative =>
      simp only [holds, Decimal.Style.text, hx]
      cases negative <;> decide
  | finite negative significand exponent =>
      by_cases hZero : significand = 0
      · simp only [holds, Decimal.Style.text, hx, hZero, Decimal.magnitudeText, if_true]
        cases negative <;> decide
      · have hHolds : (float x).holds = true := by
          simp only [holds, hx]
          exact bne_iff_ne.2 hZero
        exact iff_of_true hHolds
          (not_mem_unset (Json.style.exists_digit_text hx hZero))

/-- **The word of a flag tells whether it holds.** -/
theorem holds_of_word {f : Flag} {w : List Char} (h : f.word? = some w) :
    f.holds = true ↔ w ∉ unset := by
  cases f with
  | bool b =>
      cases h
      cases b <;> decide
  | int n =>
      cases h
      by_cases hZero : n = 0
      · rw [hZero]
        decide
      · exact iff_of_true (bne_iff_ne.2 hZero) (not_mem_unset (Numeral.exists_digit_ofInt hZero))
  | float x =>
      cases h
      exact holds_float_iff x
  | text => cases h

theorem datum_nan : Binary64.nan.datum = .nan := by
  decide

theorem word_eq {sorted : Bool} {f : Flag} {j : Json} (h : f.toValue.toJson sorted = .ok j) :
    j.word? = f.word? := by
  cases f with
  | bool | text =>
      cases h
      rfl
  | int n =>
      rw [Value.toJson_int h]
      rfl
  | float x =>
      rw [toValue, Value.ofFloat] at h
      split at h
      · rename_i hNan
        cases h
        simp only [word?, Json.word?, Decimal.Style.text, hNan, datum_nan]
      · cases h
        rfl

end Flag

namespace Value

/-! ## Written alike -/

/-- Two values whose JSON forms, with sorted keys, are spelled alike. -/
def WrittenAlike (v w : Value) : Prop :=
  ∃ j k, v.toJson true = .ok j ∧ w.toJson true = .ok k ∧ Json.Spelled j k

theorem forall₂_through {α β : Type} {P : α → β → Prop} {S : β → β → Prop} {vs ws : List α}
    {js ks : List β} (hv : List.Forall₂ P vs js) (hw : List.Forall₂ P ws ks)
    (h : List.Forall₂ S js ks) :
    List.Forall₂ (fun v w => ∃ j k, P v j ∧ P w k ∧ S j k) vs ws := by
  induction h generalizing vs ws with
  | nil =>
      cases hv
      cases hw
      exact .nil
  | cons hFirst _ ih =>
      cases hv with
      | cons hv hvs =>
          cases hw with
          | cons hw hws => exact .cons ⟨_, _, hv, hw, hFirst⟩ (ih hvs hws)

theorem field?_perm {es fs : List (Value × Value)} (hPerm : es.Perm fs)
    (hDistinct : (fs.map Prod.fst).Nodup) (name : String) : field? name es = field? name fs := by
  have hDistinct' := (hPerm.map Prod.fst).nodup_iff.2 hDistinct
  refine Option.ext fun v => ?_
  rw [field?_eq_some hDistinct, field?_eq_some hDistinct', hPerm.mem_iff]

namespace WrittenAlike

theorem items {vs ws : List Value} (h : WrittenAlike (.array vs) (.array ws)) :
    List.Forall₂ WrittenAlike vs ws := by
  obtain ⟨j, k, hj, hk, hSpelled⟩ := h
  obtain ⟨js, rfl, hItems⟩ := toJson_array hj
  obtain ⟨ks, rfl, hItems'⟩ := toJson_array hk
  exact forall₂_through hItems hItems' hSpelled.items

theorem field {fs gs : List (String × Value)} (left : (fs.map Prod.fst).Nodup)
    (right : (gs.map Prod.fst).Nodup) (h : WrittenAlike (.record fs) (.record gs)) (name : String) :
    Option.Rel WrittenAlike (field? name (named fs)) (field? name (named gs)) := by
  obtain ⟨j, k, hj, hk, hSpelled⟩ := h
  obtain ⟨ms, es, rfl, hPerm, hMembers⟩ := toJson_record hj
  obtain ⟨ns, es', rfl, hPerm', hMembers'⟩ := toJson_record hk
  rw [← field?_perm hPerm (nodup_keys_named left), ← field?_perm hPerm' (nodup_keys_named right)]
  refine rel_field? ((forall₂_through hMembers hMembers' hSpelled.members).imp ?_) name
  rintro e f ⟨m, n, ⟨hKey, hm⟩, ⟨hKey', hn⟩, hName, hSpelled⟩
  exact ⟨by rw [hKey, hKey', hName], m.2, n.2, hm, hn, hSpelled⟩

theorem scalar {s t : Scalar} (h : WrittenAlike s.toValue t.toValue) : s = t := by
  obtain ⟨j, k, hj, hk, hSpelled⟩ := h
  rw [toJson_scalar hj, toJson_scalar hk] at hSpelled
  have hWord := hSpelled.word_eq
  cases s with
  | text a =>
      cases t with
      | text b => rw [hSpelled.text_eq]
      | int | bool => cases hWord
  | int m =>
      cases t with
      | text => cases hWord
      | int n => rw [Json.ofInt_injective (Option.some.inj hWord)]
      | bool c => exact absurd (Option.some.inj hWord) (Json.ofInt_ne_bool m c)
  | bool b =>
      cases t with
      | text => cases hWord
      | int n => exact absurd (Option.some.inj hWord).symm (Json.ofInt_ne_bool n b)
      | bool c => rw [Json.boolWord_injective (Option.some.inj hWord)]

theorem flag {f g : Flag} (h : WrittenAlike f.toValue g.toValue) : f.holds = g.holds := by
  obtain ⟨j, k, hj, hk, hSpelled⟩ := h
  have hWord : f.word? = g.word? := by
    rw [← Flag.word_eq hj, ← Flag.word_eq hk, hSpelled.word_eq]
  cases hf : f.word? with
  | some w =>
      rw [Bool.eq_iff_iff, Flag.holds_of_word hf, Flag.holds_of_word (hWord ▸ hf)]
  | none =>
      rw [hf] at hWord
      cases f with
      | text s =>
          cases g with
          | text t =>
              cases hj
              cases hk
              rw [hSpelled.text_eq]
          | _ => cases hWord
      | _ => cases hf

end WrittenAlike

/-- **Values that are written alike are told.** -/
theorem telling_writtenAlike : Telling WrittenAlike where
  scalar := WrittenAlike.scalar
  flag := WrittenAlike.flag
  items := WrittenAlike.items
  field left right related name := WrittenAlike.field left right related name

end Value

end NinjaFile
