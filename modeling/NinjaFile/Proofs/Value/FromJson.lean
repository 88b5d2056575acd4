import NinjaFile.Proofs.Binary.Doubles
import NinjaFile.Proofs.Json.Tidy
import NinjaFile.Proofs.Value.Json
import NinjaFile.Value.Agreement
import NinjaFile.Value.Display

/-!
# Values from JSON

Who looks at a value that comes from JSON asks three things of it: what it has under a
name (`field?_ofJsonMembers`), whether it counts as one (`agrees_one_iff`), and how it is
shown if it does not (`exists_display`). Besides the integer one, the truth value and the
double one count as one, and nothing else does. All that has no long integer can be shown,
and what it is shown as can be told from the value (`Json.Shown`, `Json.Shown.unique`).
-/

namespace NinjaFile

namespace Value

/-! ## What is under a name -/

theorem field?_ofJsonMembers (name : String) (ms : List (String × Json)) :
    field? name (ofJsonMembers ms) = (Entries.find? (· == ·) name ms).map ofJson := by
  induction ms with
  | nil => rfl
  | cons m ms ih =>
      obtain ⟨other, j⟩ := m
      rw [ofJsonMembers, field?, Entries.find?, ih]
      by_cases h : other = name <;> simp [h]

theorem ofFloat_cases (x : Binary64) : ofFloat x = .nan ∨ ofFloat x = .float x := by
  unfold ofFloat
  split
  · exact Or.inl rfl
  · exact Or.inr rfl

/-! ## What counts as one -/

theorem agrees_ofFloat_one (x : Binary64) : (ofFloat x).agrees (.int 1) = true ↔ x = .one := by
  constructor
  · intro h
    rcases ofFloat_cases x with hNan | hFloat
    · rw [hNan] at h
      cases h
    · simp only [hFloat, agrees] at h
      have hOrder : some (x.datum.order? (.ofInt 1)) = some (some .eq) := beq_iff_eq.1 h
      exact Binary64.eq_one_of_order? (Option.some.inj hOrder)
  · rintro rfl
    decide

/-- **What counts as one.** -/
theorem agrees_one_iff {j : Json} :
    (ofJson j).agrees (.int 1) = true ↔ j = .int 1 ∨ j = .bool true ∨ j = .float .one := by
  cases j with
  | null => simp [ofJson, agrees, sameNumber, compareNumbers?, whole?, number?]
  | bool b => cases b <;> simp [ofJson, agrees, sameNumber, compareNumbers?, whole?]
  | int n => simp [ofJson, agrees, sameNumber, compareNumbers?, whole?]
  | float x =>
      rw [ofJson, agrees_ofFloat_one]
      simp
  | text s => simp [ofJson, agrees, sameNumber, compareNumbers?, whole?, number?]
  | array items => simp [ofJson, agrees, sameNumber, compareNumbers?, whole?, number?]
  | object members => simp [ofJson, agrees, sameNumber, compareNumbers?, whole?, number?]

/-! ## What is shown -/

end Value

namespace Json

/-- A value and its text inside a message. -/
inductive Part : Json → String → Prop where
  | null : Part .null "None"
  | true : Part (.bool true) "True"
  | false : Part (.bool false) "False"
  | int (n : Int) : Part (.int n) (toString n)
  | float (x : Binary64) : Part (.float x) (String.ofList (Value.displayStyle.text x))
  | text (s : String) : Part (.text s) (String.ofList (Quoted.encode s.toList))
  | array {items : List Json} {texts : List String} (parts : List.Forall₂ Part items texts) :
      Part (.array items) ("[" ++ ", ".intercalate texts ++ "]")
  | object {members : List (String × Json)} {texts : List String}
      (parts : List.Forall₂ Part (members.map Prod.snd) texts) :
      Part (.object members) ("\x7b" ++ ", ".intercalate (List.zipWith
        (fun m text => String.ofList (Quoted.encode m.1.toList) ++ ": " ++ text) members texts) ++
          "\x7d")

/-- A value and its text as a message. Only a text by itself has no quotes. -/
inductive Shown : Json → String → Prop where
  | bare (s : String) : Shown (.text s) s
  | part {j : Json} {text : String} (noText : ∀ s, j ≠ .text s) (h : Part j text) : Shown j text

theorem texts_unique {α : Type} {R : α → String → Prop} {xs : List α} {ts us : List String}
    (h : ∀ x ∈ xs, ∀ t u, R x t → R x u → t = u) (ht : List.Forall₂ R xs ts)
    (hu : List.Forall₂ R xs us) : ts = us := by
  induction ht generalizing us with
  | nil =>
      cases hu
      rfl
  | @cons x t xs ts hFirst _ ih =>
      cases hu with
      | cons hFirst' hRest' =>
          obtain ⟨hHead, hTail⟩ := List.forall_mem_cons.1 h
          rw [hHead _ _ hFirst hFirst', ih hTail hRest']

theorem Part.unique {limit : Nat} {fractions : Bool} {j : Json} (h : j.Tidy limit fractions)
    {t u : String} (ht : Part j t) (hu : Part j u) : t = u := by
  induction h generalizing t u with
  | array _ ih =>
      cases ht with
      | array parts =>
          cases hu with
          | array parts' => rw [texts_unique (fun k hk _ _ => ih k hk) parts parts']
  | object _ _ ih =>
      cases ht with
      | object parts =>
          cases hu with
          | object parts' =>
              rw [texts_unique (List.forall_mem_map.2 fun m hm _ _ => ih m hm) parts parts']
  | _ => cases ht <;> cases hu <;> rfl

/-- A value without long integers is shown in one way only. -/
theorem Shown.unique {limit : Nat} {fractions : Bool} {j : Json} (h : j.Tidy limit fractions)
    {t u : String} (ht : Shown j t) (hu : Shown j u) : t = u := by
  cases ht with
  | bare =>
      cases hu with
      | bare => rfl
      | part noText _ => exact absurd rfl (noText t)
  | part noText hPart =>
      cases hu with
      | bare => exact absurd rfl (noText u)
      | part _ hPart' => exact Part.unique h hPart hPart'
end Json

namespace Value

open Json (Part Shown)

theorem toList_toString (n : Int) : (toString n).toList = Numeral.ofInt n := by
  cases n with
  | ofNat n =>
      have hSign : ¬Int.ofNat n < 0 := Int.not_lt.2 (Int.natCast_nonneg n)
      rw [Numeral.ofInt, if_neg hSign]
      exact String.toList_ofList
  | negSucc n =>
      rw [Numeral.ofInt, if_pos (Int.negSucc_lt_zero n)]
      show ("-" ++ Nat.repr (n + 1)).toList = _
      rw [String.toList_append]
      exact congrArg ('-' :: ·) String.toList_ofList

theorem toList_bracketed (texts : List String) :
    ("[" ++ ", ".intercalate texts ++ "]").toList = bracketed false (texts.map String.toList) := by
  rw [String.toList_append, String.toList_append, String.toList_intercalate]
  rfl

theorem toList_braced (texts : List String) :
    ("\x7b" ++ ", ".intercalate texts ++ "\x7d").toList =
      braced false (texts.map String.toList) := by
  rw [String.toList_append, String.toList_append, String.toList_intercalate]
  rfl

theorem exists_literals {items : List Json}
    (h : ∀ j ∈ items, ∃ text, Part j text ∧ literal false (ofJson j) = .ok text.toList) :
    ∃ texts, List.Forall₂ Part items texts ∧
      literals false (ofJsonItems items) = .ok (texts.map String.toList) := by
  induction items with
  | nil => exact ⟨[], .nil, rfl⟩
  | cons j items ih =>
      obtain ⟨text, hPart, hFirst⟩ := h j List.mem_cons_self
      obtain ⟨texts, hParts, hRest⟩ := ih fun k hk => h k (List.mem_cons_of_mem _ hk)
      exact ⟨text :: texts, .cons hPart hParts, by rw [ofJsonItems, literals, hFirst, hRest]; rfl⟩

theorem exists_entryLiterals {members : List (String × Json)}
    (h : ∀ m ∈ members, ∃ text, Part m.2 text ∧ literal false (ofJson m.2) = .ok text.toList) :
    ∃ texts, List.Forall₂ Part (members.map Prod.snd) texts ∧
      entryLiterals false (ofJsonMembers members) = .ok ((List.zipWith
        (fun m text => String.ofList (Quoted.encode m.1.toList) ++ ": " ++ text) members texts).map
          String.toList) := by
  induction members with
  | nil => exact ⟨[], .nil, rfl⟩
  | cons m members ih =>
      obtain ⟨name, j⟩ := m
      obtain ⟨text, hPart, hFirst⟩ := h (name, j) List.mem_cons_self
      obtain ⟨texts, hParts, hRest⟩ := ih fun k hk => h k (List.mem_cons_of_mem _ hk)
      have hKey : literal true (.text name) = .ok (Quoted.encode name.toList) := rfl
      have hEntry : (String.ofList (Quoted.encode name.toList) ++ ": " ++ text).toList =
          Quoted.encode name.toList ++ ':' :: ' ' :: text.toList := by
        rw [String.toList_append, String.toList_append, String.toList_ofList, List.append_assoc]
        rfl
      refine ⟨text :: texts, .cons hPart hParts, ?_⟩
      rw [ofJsonMembers, entryLiterals, hKey, hFirst, hRest, List.zipWith_cons_cons, List.map_cons,
        hEntry]
      rfl

theorem exists_literal {fractions : Bool} {j : Json} (h : j.Tidy Numeral.limit fractions) :
    ∃ text, Part j text ∧ literal false (ofJson j) = .ok text.toList := by
  induction h with
  | null => exact ⟨_, .null, rfl⟩
  | bool b =>
      cases b with
      | true => exact ⟨_, .true, rfl⟩
      | false => exact ⟨_, .false, rfl⟩
  | @int n short =>
      refine ⟨_, .int n, ?_⟩
      rw [toList_toString]
      exact if_pos short
  | float _ x =>
      refine ⟨_, .float x, ?_⟩
      rw [String.toList_ofList, ofJson, ofFloat]
      split
      · rename_i hNan
        rw [literal, Decimal.Style.text, Decimal.Style.text, hNan]
        rfl
      · rfl
  | text s => exact ⟨_, .text s, congrArg Except.ok String.toList_ofList.symm⟩
  | array _ ih =>
      obtain ⟨texts, hParts, hLiterals⟩ := exists_literals ih
      refine ⟨_, .array hParts, ?_⟩
      rw [ofJson, literal, hLiterals, toList_bracketed]
      rfl
  | object _ _ ih =>
      obtain ⟨texts, hParts, hLiterals⟩ := exists_entryLiterals ih
      refine ⟨_, .object hParts, ?_⟩
      rw [ofJson, literal, hLiterals, toList_braced]
      rfl

/-- **What has no long integer can be shown.** -/
theorem exists_display {fractions : Bool} {j : Json} (h : j.Tidy Numeral.limit fractions) :
    ∃ text, Shown j text ∧ (ofJson j).display = .ok text := by
  by_cases hText : ∃ s, j = .text s
  · obtain ⟨s, rfl⟩ := hText
    exact ⟨s, .bare s, rfl⟩
  · have hNoText : ∀ s, j ≠ .text s := fun s hs => hText ⟨s, hs⟩
    obtain ⟨text, hPart, hLiteral⟩ := exists_literal h
    refine ⟨text, .part hNoText hPart, ?_⟩
    have hDisplay : (ofJson j).display = (literal false (ofJson j)).map String.ofList := by
      cases j with
      | text s => exact absurd rfl (hNoText s)
      | float x => rcases ofFloat_cases x with hFloat | hFloat <;> rw [ofJson, hFloat] <;> rfl
      | _ => rfl
    rw [hDisplay, hLiteral]
    exact congrArg Except.ok String.ofList_toList

end Value

end NinjaFile
