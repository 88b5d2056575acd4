/-!
# Ordered tables

A table is a list of key and value pairs in order of first insertion. Writing
a key again keeps its place and replaces its value, so the order that a reader
sees is the order in which the keys first came.

Which keys count as one is a parameter: names of bindings are equal texts,
while keys of a decoded map are equal as values.
-/

namespace NinjaFile.Entries

variable {κ α : Type}

/-- The value at a key, under the test `same`. -/
def find? (same : κ → κ → Bool) (key : κ) : List (κ × α) → Option α
  | [] => none
  | (k, v) :: rest => if same k key then some v else find? same key rest

/-- The first place of a key is kept and its last value wins. -/
def put (same : κ → κ → Bool) (key : κ) (value : α) : List (κ × α) → List (κ × α)
  | [] => [(key, value)]
  | (k, v) :: rest =>
    if same k key then (k, value) :: rest else (k, v) :: put same key value rest

@[simp]
theorem find?_nil (same : κ → κ → Bool) (key : κ) : find? same key ([] : List (κ × α)) = none :=
  rfl

theorem find?_put_self (same : κ → κ → Bool) (key : κ) (value : α) (table : List (κ × α))
    (hRefl : same key key = true) : find? same key (put same key value table) = some value := by
  induction table with
  | nil => simp [put, find?, hRefl]
  | cons entry rest ih =>
    obtain ⟨k, v⟩ := entry
    by_cases h : same k key = true
    · simp [put, find?, h]
    · simp only [put, h]
      simp only [find?, h, Bool.false_eq_true, if_false]
      exact ih

theorem find?_put_of_ne [BEq κ] [LawfulBEq κ] {key other : κ} (value : α) (table : List (κ × α))
    (h : other ≠ key) :
    find? (· == ·) other (put (· == ·) key value table) = find? (· == ·) other table := by
  induction table with
  | nil => simp [put, find?, Ne.symm h]
  | cons entry rest ih =>
    obtain ⟨k, v⟩ := entry
    by_cases hk : k = key
    · subst hk
      simp [put, find?, Ne.symm h]
    · simp only [put, beq_iff_eq, hk, if_false, find?]
      rw [ih]

theorem put_eq_self [BEq κ] [LawfulBEq κ] {key : κ} {value : α} {table : List (κ × α)}
    (h : find? (· == ·) key table = some value) : put (· == ·) key value table = table := by
  induction table with
  | nil => cases h
  | cons entry rest ih =>
    obtain ⟨k, v⟩ := entry
    rw [find?] at h
    rw [put]
    by_cases hk : (k == key) = true
    · rw [if_pos hk] at h ⊢
      cases h
      rfl
    · rw [if_neg hk] at h ⊢
      rw [ih h]

/-- A written key keeps its place, or comes last if it is new. -/
theorem keys_put [BEq κ] [LawfulBEq κ] (key : κ) (value : α) (table : List (κ × α)) :
    (put (· == ·) key value table).map Prod.fst =
      if key ∈ table.map Prod.fst then table.map Prod.fst else table.map Prod.fst ++ [key] := by
  induction table with
  | nil => rfl
  | cons entry rest ih =>
    obtain ⟨k, v⟩ := entry
    by_cases hk : k = key
    · subst hk
      simp [put]
    · simp only [put, beq_iff_eq, hk, if_false, List.map_cons, ih, List.mem_cons,
        Ne.symm hk, false_or]
      split <;> rfl

/-- The table that a sequence of writes leaves. -/
def ofWrites (same : κ → κ → Bool) (writes : List (κ × α)) : List (κ × α) :=
  writes.foldl (fun table write => put same write.1 write.2 table) []

end NinjaFile.Entries
