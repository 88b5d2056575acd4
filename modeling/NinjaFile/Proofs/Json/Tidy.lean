import NinjaFile.Json.Reader
import NinjaFile.Proofs.Json.Numbers
import NinjaFile.Proofs.Tables

/-!
# What is read is tidy

No value that is read has an integer beyond the limit of numerals, or an object
with a name twice (`tidy_of_readValue`). Containers are read from shorter texts,
so the induction is on the length of the text; the readers of items and members
are tidy if the reader of values is on texts that are no longer.
-/

namespace NinjaFile.Json

/-- A value without long integers and without a name twice in an object. Fractional numbers may be
left out altogether. -/
inductive Tidy (limit : Nat) (fractions : Bool) : Json → Prop where
  | null : Tidy limit fractions .null
  | bool (b : Bool) : Tidy limit fractions (.bool b)
  | int {n : Int} (short : (Numeral.digits n.natAbs).length ≤ limit) :
      Tidy limit fractions (.int n)
  | float (allowed : fractions = true) (x : Binary64) : Tidy limit fractions (.float x)
  | text (s : String) : Tidy limit fractions (.text s)
  | array {items : List Json} (tidy : ∀ j ∈ items, Tidy limit fractions j) :
      Tidy limit fractions (.array items)
  | object {members : List (String × Json)} (distinct : (members.map Prod.fst).Nodup)
      (tidy : ∀ m ∈ members, Tidy limit fractions m.2) : Tidy limit fractions (.object members)

variable {limit : Nat}

/-! ## Atoms -/

theorem eq_append_of_after? {word s rest : List Char} (h : after? word s = some rest) :
    s = word ++ rest := by
  induction word generalizing s with
  | nil => exact Option.some.inj h
  | cons w word ih =>
      rcases s with - | ⟨c, s⟩
      · cases h
      · rw [after?] at h
        split at h
        · rename_i hSame
          rw [hSame, List.cons_append, ← ih h]
        · cases h

theorem mem_of_constantIn? {s rest : List Char} {j : Json} {table : List (List Char × Json)}
    (h : constantIn? s table = some (j, rest)) : ∃ word, (word, j) ∈ table ∧ s = word ++ rest := by
  induction table with
  | nil => cases h
  | cons entry table ih =>
      rw [constantIn?] at h
      split at h
      · rename_i tail hAfter
        cases h
        exact ⟨entry.1, List.mem_cons_self, eq_append_of_after? hAfter⟩
      · obtain ⟨word, hMem, hText⟩ := ih h
        exact ⟨word, List.mem_cons_of_mem _ hMem, hText⟩

theorem tidy_of_constant? {s rest : List Char} {j : Json} (h : constant? s = some (j, rest)) :
    Tidy limit true j := by
  have hTable : ∀ entry ∈ constants, Tidy limit true entry.2 := by
    simp only [constants, List.forall_mem_cons, List.not_mem_nil, false_implies, implies_true,
      and_true]
    exact ⟨.null, .bool true, .bool false, .float rfl _, .float rfl _, .float rfl _⟩
  obtain ⟨word, hMem, -⟩ := mem_of_constantIn? h
  exact hTable _ hMem

theorem tidy_of_value {s rest : List Char} {n : Number} {j : Json}
    (hNumber : number? s = some (n, rest)) (h : n.value limit = .ok j) : Tidy limit true j := by
  obtain ⟨hNil, hDigits⟩ := digits_of_number? hNumber
  have hInt : ∀ k, j = .int k → Tidy limit true j := by
    rintro k rfl
    exact .int (length_of_value hNil hDigits h)
  unfold Number.value at h
  split at h
  · split at h
    · exact hInt _ (Except.ok.inj h).symm
    · cases h
  · cases h
    exact .float rfl _

/-! ## Containers -/

theorem length_of_readValue {s rest : List Char} {j : Json}
    (h : readValue limit s = .ok (j, rest)) : rest.length < s.length := by
  obtain ⟨⟨_, shorter⟩, -, rfl⟩ := Outcome.map_eq_ok.1 h
  exact shorter

section

variable {bound : Nat}
  (hValues : ∀ s j rest, s.length ≤ bound → readValue limit s = .ok (j, rest) → Tidy limit true j)

include hValues

theorem tidy_of_readItems {s rest : List Char} {js : List Json} (hBound : s.length ≤ bound)
    (h : readItems limit s = .ok (js, rest)) : ∀ j ∈ js, Tidy limit true j := by
  induction hLength : s.length using Nat.strongRecOn generalizing s js with
  | ind n ih =>
      rw [readItems_eq] at h
      split at h
      · cases h
      · rename_i j tail hValue
        have hTidy := hValues s j tail hBound hValue
        have hShorter := length_of_readValue hValue
        split at h
        · cases h
        · rename_i c more hSkip
          have hMore := length_skipBlanks_le tail
          rw [hSkip, List.length_cons] at hMore
          -- a bracket ends the items, and after a comma there are fewer characters left
          split at h
          · cases h
            simpa using hTidy
          · split at h
            · obtain ⟨⟨rest', js'⟩, hItems, hEq⟩ := Outcome.map_eq_ok.1 h
              cases hEq
              have hNext := length_skipBlanks_le more
              have hOthers := ih _ (by omega) (by omega) hItems rfl
              exact List.forall_mem_cons.2 ⟨hTidy, hOthers⟩
            · cases h

theorem tidy_of_readMembers {s rest : List Char} {ms : List (String × Json)}
    (hBound : s.length ≤ bound) (h : readMembers limit s = .ok (ms, rest)) :
    ∀ m ∈ ms, Tidy limit true m.2 := by
  induction hLength : s.length using Nat.strongRecOn generalizing s ms with
  | ind n ih =>
      cases s with
      | nil =>
          rw [readMembers_nil] at h
          cases h
      | cons q opened =>
          rw [readMembers_cons] at h
          split at h
          case isFalse => cases h
          -- the name, the colon and the value are read from ever shorter texts
          split at h
          · cases h
          rename_i name behind hName
          have hString := length_of_string hName
          split at h
          · cases h
          rename_i c tail hColon
          have hTail := length_skipBlanks_le behind
          rw [hColon, List.length_cons] at hTail
          split at h
          case isFalse => cases h
          have hSkip := length_skipBlanks_le tail
          rw [List.length_cons] at hBound hLength
          split at h
          · cases h
          rename_i j after hValue
          have hTidy := hValues _ j after (by omega) hValue
          have hShorter := length_of_readValue hValue
          split at h
          · cases h
          rename_i d more hEnd
          have hMore := length_skipBlanks_le after
          rw [hEnd, List.length_cons] at hMore
          split at h
          · cases h
            simpa using hTidy
          · split at h
            · obtain ⟨⟨rest', ms'⟩, hMembers, hEq⟩ := Outcome.map_eq_ok.1 h
              cases hEq
              have hNext := length_skipBlanks_le more
              have hOthers := ih _ (by omega) (by omega) hMembers rfl
              exact List.forall_mem_cons.2 ⟨hTidy, hOthers⟩
            · cases h

end

/-! ## Values -/

theorem tidy_ofWrites {ms : List (String × Json)} (h : ∀ m ∈ ms, Tidy limit true m.2) :
    Tidy limit true (.object (Entries.ofWrites (· == ·) ms)) := by
  refine .object (Entries.distinct_iff_nodup.1 (Entries.distinct_ofWrites _ ms)) ?_
  intro m hm
  obtain ⟨m', hMem, hEq⟩ := List.mem_map.1 (Entries.mem_ofWrites hm).2
  exact hEq ▸ h m' hMem

/-- **What is read is tidy.** -/
theorem tidy_of_readValue {s rest : List Char} {j : Json} (h : readValue limit s = .ok (j, rest)) :
    Tidy limit true j := by
  induction hLength : s.length using Nat.strongRecOn generalizing s j rest with
  | ind n ih =>
      cases s with
      | nil =>
          rw [readValue_nil] at h
          cases h
      | cons c behind =>
          rw [List.length_cons] at hLength
          have hValues : ∀ s j rest, s.length ≤ behind.length →
              readValue limit s = .ok (j, rest) → Tidy limit true j :=
            fun s j rest hShort hRead => ih s.length (by omega) hRead rfl
          have hSkip := length_skipBlanks_le behind
          rw [readValue_cons] at h
          -- a string, an array, an object, a constant, or else a number
          split at h
          · obtain ⟨⟨s, tail⟩, -, hEq⟩ := Outcome.map_eq_ok.1 h
            cases hEq
            exact .text s
          split at h
          · split at h
            · cases h
            · rename_i d tail hOpen
              rw [hOpen] at hSkip
              split at h
              · cases h
                exact .array (by simp)
              · obtain ⟨⟨js, tail'⟩, hItems, hEq⟩ := Outcome.map_eq_ok.1 h
                cases hEq
                exact .array (tidy_of_readItems hValues hSkip hItems)
          split at h
          · split at h
            · cases h
            · rename_i d tail hOpen
              rw [hOpen] at hSkip
              split at h
              · cases h
                exact .object List.nodup_nil (by simp)
              · obtain ⟨⟨ms, tail'⟩, hMembers, hEq⟩ := Outcome.map_eq_ok.1 h
                cases hEq
                exact tidy_ofWrites (tidy_of_readMembers hValues hSkip hMembers)
          split at h
          · rename_i found hConstant
            cases h
            exact tidy_of_constant? hConstant
          split at h
          · cases h
          rename_i number tail hNumber
          obtain ⟨j, hValue, hEq⟩ := Outcome.map_eq_ok.1 h
          cases hEq
          exact tidy_of_value hNumber hValue

theorem tidy_of_read {text : List Char} {j : Json} (h : read limit text = .ok j) :
    Tidy limit true j := by
  unfold read at h
  split at h
  · cases h
  · split at h
    · cases h
    · rename_i j' rest hValue
      split at h
      · cases h
        exact tidy_of_readValue hValue
      · cases h

end NinjaFile.Json
