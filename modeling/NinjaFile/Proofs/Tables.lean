import Mathlib.Data.List.Basic
import Mathlib.Data.List.Induction
import NinjaFile.Entries

/-!
# Tables after writes

A table never holds two keys that count as one, whatever the writes are
(`distinct_ofWrites`), and holds nothing that was not written (`mem_ofWrites`).
Writes of keys that all differ are the table they leave (`ofWrites_eq_self`).

Where only equal keys count as one, writes leave each key at the place of its first
write with the value of its last (`ofWrites_eq_latest`).
-/

namespace NinjaFile.Entries

variable {κ α : Type} {same : κ → κ → Bool}

/-- No key counts as one with a later key. -/
def Distinct (same : κ → κ → Bool) (keys : List κ) : Prop :=
  keys.Pairwise fun k l => same k l = false

/-! ## One write -/

theorem mem_put {key : κ} {value : α} {table : List (κ × α)} {e : κ × α}
    (h : e ∈ put same key value table) :
    (e.1 = key ∨ e.1 ∈ table.map Prod.fst) ∧ (e.2 = value ∨ e.2 ∈ table.map Prod.snd) := by
  induction table with
  | nil =>
      cases List.mem_singleton.1 h
      exact ⟨Or.inl rfl, Or.inl rfl⟩
  | cons f rest ih =>
      obtain ⟨k, v⟩ := f
      rw [put] at h
      split at h
      · rcases List.mem_cons.1 h with rfl | h
        · exact ⟨Or.inr (by simp), Or.inl rfl⟩
        · have hMem := List.mem_cons_of_mem (k, v) h
          exact ⟨Or.inr (List.mem_map_of_mem hMem), Or.inr (List.mem_map_of_mem hMem)⟩
      · rcases List.mem_cons.1 h with rfl | h
        · exact ⟨Or.inr (by simp), Or.inr (by simp)⟩
        · obtain ⟨hKey, hValue⟩ := ih h
          exact ⟨hKey.imp_right (List.mem_cons_of_mem _), hValue.imp_right (List.mem_cons_of_mem _)⟩

theorem put_of_new {key : κ} (value : α) {table : List (κ × α)}
    (h : ∀ k ∈ table.map Prod.fst, same k key = false) :
    put same key value table = table ++ [(key, value)] := by
  induction table with
  | nil => rfl
  | cons f rest ih =>
      have hFirst := h f.1 List.mem_cons_self
      have hRest := ih fun k hk => h k (List.mem_cons_of_mem _ hk)
      rw [put, if_neg (by simp [hFirst]), hRest, List.cons_append]

theorem distinct_put {key : κ} {value : α} {table : List (κ × α)}
    (h : Distinct same (table.map Prod.fst)) :
    Distinct same ((put same key value table).map Prod.fst) := by
  induction table with
  | nil => exact List.pairwise_singleton _ _
  | cons f rest ih =>
      obtain ⟨k, v⟩ := f
      obtain ⟨hFirst, hRest⟩ := List.pairwise_cons.1 h
      rw [put]
      split
      · exact h
      · rename_i hSame
        refine List.pairwise_cons.2 ⟨?_, ih hRest⟩
        intro l hl
        obtain ⟨e, he, rfl⟩ := List.mem_map.1 hl
        rcases (mem_put he).1 with hKey | hMem
        · rw [hKey]
          simpa using hSame
        · exact hFirst _ hMem

/-! ## Many writes -/

def written (same : κ → κ → Bool) (table writes : List (κ × α)) : List (κ × α) :=
  writes.foldl (fun table write => put same write.1 write.2 table) table

theorem distinct_written {table : List (κ × α)} (h : Distinct same (table.map Prod.fst))
    (writes : List (κ × α)) : Distinct same ((written same table writes).map Prod.fst) := by
  induction writes generalizing table with
  | nil => exact h
  | cons write writes ih => exact ih (distinct_put h)

theorem mem_written {table writes : List (κ × α)} {e : κ × α} (h : e ∈ written same table writes) :
    (e.1 ∈ table.map Prod.fst ∨ e.1 ∈ writes.map Prod.fst) ∧
      (e.2 ∈ table.map Prod.snd ∨ e.2 ∈ writes.map Prod.snd) := by
  induction writes generalizing table with
  | nil => exact ⟨Or.inl (List.mem_map_of_mem h), Or.inl (List.mem_map_of_mem h)⟩
  | cons write writes ih =>
      -- the same for keys and for values: what the first write put there is one of the writes
      have behind {β : Type} {part : κ × α → β} {b : β}
          (hPut : ∀ f ∈ put same write.1 write.2 table,
            part f = part write ∨ part f ∈ table.map part)
          (hb : b ∈ (put same write.1 write.2 table).map part ∨ b ∈ writes.map part) :
          b ∈ table.map part ∨ b ∈ (write :: writes).map part := by
        rcases hb with hb | hb
        · obtain ⟨f, hf, rfl⟩ := List.mem_map.1 hb
          rcases hPut f hf with hNew | hOld
          · right
            rw [hNew]
            exact List.mem_cons_self
          · exact Or.inl hOld
        · exact Or.inr (List.mem_cons_of_mem _ hb)
      obtain ⟨hKey, hValue⟩ := ih h
      exact ⟨behind (fun f hf => (mem_put hf).1) hKey, behind (fun f hf => (mem_put hf).2) hValue⟩

theorem written_eq_append {table writes : List (κ × α)}
    (h : Distinct same ((table ++ writes).map Prod.fst)) :
    written same table writes = table ++ writes := by
  induction writes generalizing table with
  | nil => simp [written]
  | cons write writes ih =>
      have hNew : ∀ k ∈ table.map Prod.fst, same k write.1 = false := by
        intro k hk
        rw [List.map_append] at h
        exact (List.pairwise_append.1 h).2.2 k hk _ List.mem_cons_self
      have hStep : written same table (write :: writes) =
          written same (table ++ [write]) writes := by
        rw [written, List.foldl_cons, put_of_new _ hNew]
        rfl
      rw [hStep, ih (by simpa using h)]
      simp

theorem distinct_ofWrites (same : κ → κ → Bool) (writes : List (κ × α)) :
    Distinct same ((ofWrites same writes).map Prod.fst) := by
  have hEmpty : Distinct same (([] : List (κ × α)).map Prod.fst) := List.Pairwise.nil
  exact distinct_written hEmpty writes

theorem mem_ofWrites {writes : List (κ × α)} {e : κ × α} (h : e ∈ ofWrites same writes) :
    e.1 ∈ writes.map Prod.fst ∧ e.2 ∈ writes.map Prod.snd := by
  have hMem : e ∈ written same [] writes := h
  simpa using mem_written hMem

theorem ofWrites_eq_self {writes : List (κ × α)} (h : Distinct same (writes.map Prod.fst)) :
    ofWrites same writes = writes := by
  have hAll : Distinct same (([] ++ writes).map Prod.fst) := h
  exact written_eq_append hAll

theorem distinct_iff_nodup [BEq κ] [LawfulBEq κ] {keys : List κ} :
    Distinct (· == ·) keys ↔ keys.Nodup := by
  unfold Distinct List.Nodup
  constructor <;> intro h <;> refine h.imp ?_ <;> intro k l hkl <;> simpa using hkl

theorem find?_eq_some [BEq κ] [LawfulBEq κ] {table : List (κ × α)}
    (h : (table.map Prod.fst).Nodup) {key : κ} {value : α} :
    find? (· == ·) key table = some value ↔ (key, value) ∈ table := by
  induction table with
  | nil => simp
  | cons entry rest ih =>
      obtain ⟨k, v⟩ := entry
      rw [List.map_cons, List.nodup_cons] at h
      by_cases hKey : k = key
      · subst hKey
        have hFresh : (k, value) ∉ rest := fun hMem => h.1 (List.mem_map.2 ⟨_, hMem, rfl⟩)
        simp [find?, hFresh, eq_comm]
      · have hOther : (key, value) ≠ (k, v) := fun hEq => hKey (congrArg Prod.fst hEq).symm
        rw [find?, if_neg (by simpa using hKey), ih h.2, List.mem_cons, or_iff_right hOther]

theorem filterMap_find? [BEq κ] [LawfulBEq κ] {table : List (κ × α)}
    (h : (table.map Prod.fst).Nodup) :
    ((table.map Prod.fst).filterMap fun key =>
      (find? (· == ·) key table).map fun value => (key, value)) = table := by
  calc ((table.map Prod.fst).filterMap fun key =>
        (find? (· == ·) key table).map fun value => (key, value))
    _ = table.filterMap some := by
      rw [List.filterMap_map]
      apply List.filterMap_congr
      intro entry hMem
      rw [Function.comp, (find?_eq_some h).2 hMem, Option.map_some]
    _ = table := List.filterMap_some

/-- The entries under some keys are what is found under each of them, in another order. -/
theorem filter_perm_filterMap_find? [BEq κ] [LawfulBEq κ] {table : List (κ × α)} {keys : List κ}
    (h : (table.map Prod.fst).Nodup) (hKeys : keys.Nodup) :
    (table.filter fun entry => keys.contains entry.1).Perm
      (keys.filterMap fun key => (find? (· == ·) key table).map fun value => (key, value)) := by
  have hEntries : table.Nodup :=
    List.Pairwise.of_map Prod.fst (fun e f hNe hSame => hNe (congrArg Prod.fst hSame)) h
  have hFound : (keys.filterMap fun key =>
      (find? (· == ·) key table).map fun value => (key, value)).Nodup := by
    refine List.Pairwise.filterMap _ ?_ hKeys
    intro k l hNe e he f hf hSame
    obtain ⟨v, -, rfl⟩ := Option.map_eq_some_iff.1 he
    obtain ⟨w, -, rfl⟩ := Option.map_eq_some_iff.1 hf
    exact hNe (congrArg Prod.fst hSame)
  rw [List.perm_ext_iff_of_nodup (hEntries.filter _) hFound]
  rintro ⟨k, v⟩
  rw [List.mem_filter, List.contains_iff_mem, List.mem_filterMap, ← find?_eq_some h]
  constructor
  · rintro ⟨hEntry, hKey⟩
    exact ⟨k, hKey, by rw [hEntry, Option.map_some]⟩
  · rintro ⟨l, hKey, hEntry⟩
    obtain ⟨w, hFind, hSame⟩ := Option.map_eq_some_iff.1 hEntry
    cases hSame
    exact ⟨hFind, hKey⟩

/-! ## First and last writes -/

theorem ofWrites_append (writes : List (κ × α)) (write : κ × α) :
    ofWrites same (writes ++ [write]) = put same write.1 write.2 (ofWrites same writes) := by
  rw [ofWrites, List.foldl_append]
  rfl

section

variable [BEq κ]

def lastWrite? (key : κ) (writes : List (κ × α)) : Option (κ × α) :=
  (writes.filter fun write => write.1 == key).getLast?

/-- Every key that was written, in order of the first writes, with the value of its last. -/
def latest (writes : List (κ × α)) : List (κ × α) :=
  (writes.map Prod.fst).eraseDups.filterMap fun key => lastWrite? key writes

variable [LawfulBEq κ]

theorem mem_of_lastWrite? {key : κ} {writes : List (κ × α)} {write : κ × α}
    (h : lastWrite? key writes = some write) : write ∈ writes ∧ write.1 = key := by
  have hMem := List.mem_filter.1 (List.mem_of_getLast? h)
  exact ⟨hMem.1, beq_iff_eq.1 hMem.2⟩

theorem mem_of_mem_latest {writes : List (κ × α)} {write : κ × α} (h : write ∈ latest writes) :
    write ∈ writes := by
  obtain ⟨key, -, hLast⟩ := List.mem_filterMap.1 h
  exact (mem_of_lastWrite? hLast).1

theorem keys_ofWrites (writes : List (κ × α)) :
    (ofWrites (· == ·) writes).map Prod.fst = (writes.map Prod.fst).eraseDups := by
  induction writes using List.reverseRecOn with
  | nil => rfl
  | append_singleton writes write ih =>
      rw [ofWrites_append, keys_put, ih, List.map_append, List.eraseDups_append]
      by_cases h : write.1 ∈ writes.map Prod.fst
      · rw [if_pos (List.mem_eraseDups.2 h)]
        simp [List.removeAll, h]
      · rw [if_neg (mt List.mem_eraseDups.1 h)]
        simp [List.removeAll, h, List.eraseDups_cons]

theorem find?_ofWrites (key : κ) (writes : List (κ × α)) :
    find? (· == ·) key (ofWrites (· == ·) writes) = (lastWrite? key writes).map Prod.snd := by
  induction writes using List.reverseRecOn with
  | nil => rfl
  | append_singleton writes write ih =>
      obtain ⟨k, v⟩ := write
      rw [ofWrites_append, lastWrite?, List.filter_append]
      by_cases h : key = k
      · subst h
        rw [find?_put_self _ _ _ _ (beq_self_eq_true key)]
        simp
      · rw [find?_put_of_ne v _ h, ih, lastWrite?]
        simp [Ne.symm h]

/-- **Writes leave the latest values in the order of the first.** -/
theorem ofWrites_eq_latest (writes : List (κ × α)) : ofWrites (· == ·) writes = latest writes := by
  have hDistinct := distinct_iff_nodup.1 (distinct_ofWrites (· == ·) writes)
  rw [← filterMap_find? hDistinct, keys_ofWrites, latest]
  apply List.filterMap_congr
  intro key _
  rw [find?_ofWrites]
  cases hLast : lastWrite? key writes with
  | none => rfl
  | some write =>
      rw [Option.map_some, Option.map_some, ← (mem_of_lastWrite? hLast).2]

theorem latest_append (writes : List (κ × α)) (write : κ × α) :
    latest (writes ++ [write]) = put (· == ·) write.1 write.2 (latest writes) := by
  rw [← ofWrites_eq_latest, ofWrites_append, ofWrites_eq_latest]

end

end NinjaFile.Entries
