import NinjaFile.Proofs.Cbor.Heads
import NinjaFile.Proofs.Tables
import NinjaFile.Proofs.Value.Same

/-!
# What the reader of CBOR gives

No map that is read has two keys that agree, and containers, tags and big integers
are nested no deeper than the reader allows (`sound_of_readItem`). An item inside
another is read from fewer octets, so the induction is on their number; the readers
of items and entries keep the two properties if the reader of one item does, on
octets that are no more.

Of keys that data may have only equal ones agree, so what is read and made of such
keys is data (`Keyed.data`).
-/

namespace NinjaFile

namespace Value

/-! ## Keys that agree -/

def isKey : Value → Bool
  | .int _ | .text _ | .bytes _ => true
  | _ => false

theorem isDatum_of_isKey {v : Value} (h : v.isKey = true) : v.isDatum = true := by
  cases v <;> first | rfl | cases h

theorem agrees_iff_of_isKey {k l : Value} (hk : k.isKey = true) (hl : l.isKey = true) :
    k.agrees l = true ↔ k = l := by
  cases k with
  | int | text | bytes =>
      cases l with
      | int | text | bytes => simp [agrees, sameNumber, compareNumbers?, whole?, number?]
      | _ => cases hl
  | _ => cases hk

theorem distinct_iff_nodup_of_isKey {ks : List Value} (h : ∀ k ∈ ks, k.isKey = true) :
    Entries.Distinct agrees ks ↔ ks.Nodup := by
  have differ {k l : Value} (hk : k ∈ ks) (hl : l ∈ ks) : k.agrees l = false ↔ k ≠ l := by
    rw [← Bool.not_eq_true, agrees_iff_of_isKey (h k hk) (h l hl)]
  constructor
  · exact fun hDistinct => hDistinct.imp_of_mem fun hk hl hkl => (differ hk hl).1 hkl
  · exact fun hNodup => List.Pairwise.imp_of_mem (fun hk hl hkl => (differ hk hl).2 hkl) hNodup

/-- No map has two keys that agree. What a tag holds is left open. -/
inductive Keyed : Value → Prop where
  | atom {v : Value} (isAtom : v.isAtom = true) : Keyed v
  | tagged (tag : Nat) (content : Value) : Keyed (.tagged tag content)
  | array {vs : List Value} (items : ∀ v ∈ vs, Keyed v) : Keyed (.array vs)
  | map {es : List (Value × Value)} (distinct : Entries.Distinct agrees (es.map Prod.fst))
      (values : ∀ e ∈ es, Keyed e.2) : Keyed (.map es)

theorem Keyed.data {atom key : Value → Bool} (hKey : ∀ k, key k = true → k.isKey = true)
    {v : Value} (h : Keyed v) (hMade : MadeOf atom key v) : Data atom key v := by
  induction h with
  | atom isAtom =>
      cases hMade with
      | atom _ allowed => exact .atom isAtom allowed
      | array => cases isAtom
      | map => cases isAtom
  | tagged =>
      cases hMade with
      | atom isAtom => cases isAtom
  | array items ih => exact .array fun v hv => ih v hv (hMade.of_array v hv)
  | @map es distinct values ih =>
      obtain ⟨keys, made⟩ := hMade.of_map
      have hKeys : ∀ k ∈ es.map Prod.fst, k.isKey = true := by
        intro k hk
        obtain ⟨e, he, rfl⟩ := List.mem_map.1 hk
        exact hKey e.1 (keys e he)
      exact .map keys ((distinct_iff_nodup_of_isKey hKeys).1 distinct) fun e he =>
        ih e he (made e he)

end Value

namespace Cbor

/-! ## Nesting -/

mutual

/-- How deep arrays, maps and tags are nested in the encoding of a value, where a container without
items counts for nothing. -/
def nesting : Value → Nat
  | .int n => if isBig n then 1 else 0
  | .tagged _ content => nesting content + 1
  | .array vs => if vs.length = 0 then 0 else itemsNesting vs + 1
  | .map es => if es.length = 0 then 0 else entriesNesting es + 1
  | _ => 0

def itemsNesting : List Value → Nat
  | [] => 0
  | v :: vs => max (nesting v) (itemsNesting vs)

def entriesNesting : List (Value × Value) → Nat
  | [] => 0
  | (k, v) :: es => max (max (nesting k) (nesting v)) (entriesNesting es)

end

theorem itemsNesting_le {vs : List Value} {depth : Nat} :
    itemsNesting vs ≤ depth ↔ ∀ v ∈ vs, nesting v ≤ depth := by
  induction vs with
  | nil => simp [itemsNesting]
  | cons v vs ih => rw [itemsNesting, Nat.max_le, ih, List.forall_mem_cons]

theorem entriesNesting_le {es : List (Value × Value)} {depth : Nat} :
    entriesNesting es ≤ depth ↔ ∀ e ∈ es, nesting e.1 ≤ depth ∧ nesting e.2 ≤ depth := by
  induction es with
  | nil => simp [entriesNesting]
  | cons e es ih => rw [entriesNesting, Nat.max_le, Nat.max_le, ih, List.forall_mem_cons]

/-- A container with items opens a level, one without does not. -/
theorem depthInside_eq_some {depth inner : Nat} {count? : Option Nat} :
    depthInside depth count? = some inner ↔
      count? = some 0 ∧ inner = depth ∨ count? ≠ some 0 ∧ depth = inner + 1 := by
  unfold depthInside
  split
  · rename_i hNone
    simp [hNone, eq_comm]
  · rename_i hSome
    cases depth <;> simp [hSome, eq_comm]

theorem exists_depthInside {count inside depth : Nat} (hInside : count = 0 → inside = 0)
    (h : (if count = 0 then 0 else inside + 1) ≤ depth) :
    ∃ inner, depthInside depth (some count) = some inner ∧ inside ≤ inner := by
  by_cases hCount : count = 0
  · refine ⟨depth, depthInside_eq_some.2 (Or.inl ⟨by rw [hCount], rfl⟩), ?_⟩
    rw [hInside hCount]
    exact Nat.zero_le depth
  · rw [if_neg hCount] at h
    obtain ⟨inner, rfl⟩ : ∃ inner, depth = inner + 1 := ⟨depth - 1, by omega⟩
    exact ⟨inner, depthInside_eq_some.2 (Or.inr ⟨by simpa using hCount, rfl⟩), by omega⟩

theorem le_of_depthInside {count inside depth inner : Nat} {count? : Option Nat}
    (hOpen : depthInside depth count? = some inner) (hCount : count? = some 0 → count = 0)
    (hInside : inside ≤ inner) : (if count = 0 then 0 else inside + 1) ≤ depth := by
  rcases depthInside_eq_some.1 hOpen with ⟨hNone, -⟩ | ⟨-, rfl⟩
  · rw [if_pos (hCount hNone)]
    exact Nat.zero_le depth
  · split <;> omega

/-! ## Reading -/

/-- What holds of an item that is read where so many containers may be opened. -/
structure Sound (depth : Nat) (v : Value) : Prop where
  keyed : v.Keyed
  nested : nesting v ≤ depth

theorem sound_atom {depth : Nat} {v : Value} (hAtom : v.isAtom = true) (hNesting : nesting v = 0) :
    Sound depth v :=
  ⟨.atom hAtom, hNesting ▸ Nat.zero_le depth⟩

theorem length_of_readItem {depth : Nat} {s rest : List UInt8} {v : Value}
    (h : readItem depth s = .ok (v, rest)) : rest.length < s.length := by
  obtain ⟨⟨_, shorter⟩, -, rfl⟩ := Outcome.map_eq_ok.1 h
  exact shorter

theorem nesting_int_le (n : Int) : nesting (.int n) ≤ 1 := by
  rw [nesting]
  split <;> omega

/-- An integer that was read without a tag is not a big one. -/
theorem sound_int {depth n : Nat} (h : n < 0x10000000000000000) {k : Int}
    (hk : k = n ∨ k = -1 - n) : Sound depth (.int k) := by
  have hDistance : distance k = n := by
    unfold distance
    split <;> omega
  have hBig : isBig k = false := by
    rw [isBig, hDistance]
    exact decide_eq_false (Nat.not_le.2 h)
  refine sound_atom rfl ?_
  rw [nesting, hBig]
  rfl

theorem sound_of_plainValue {depth : Nat} {arg : Argument} {v : Value}
    (h : plainValue arg = .ok v) : Sound depth v := by
  unfold plainValue at h
  repeat' split at h
  all_goals cases h <;> exact sound_atom rfl rfl

theorem sound_of_tagged {inner tag : Nat} {content v : Value} (hContent : nesting content ≤ inner)
    (h : tagged tag content = .ok v) : Sound (inner + 1) v := by
  unfold tagged at h
  split at h
  · split at h
    · cases h
      exact ⟨.atom rfl, Nat.le_trans (nesting_int_le _) (Nat.succ_le_succ (Nat.zero_le inner))⟩
    · cases h
  · cases h
    refine ⟨.tagged tag content, ?_⟩
    rw [nesting]
    omega

section

variable {bound depth : Nat}
  (hItem : ∀ s v rest, s.length ≤ bound → readItem depth s = .ok (v, rest) → Sound depth v)

include hItem

theorem sound_of_readItems {count? : Option Nat} {s rest : List UInt8} {vs : List Value}
    (hBound : s.length ≤ bound) (h : readItems depth count? s = .ok (vs, rest)) :
    ∀ v ∈ vs, Sound depth v := by
  induction hLength : s.length using Nat.strongRecOn generalizing count? s vs with
  | ind n ih =>
      -- one more item, wherever the count stands
      have step {next : Option Nat} {s : List UInt8} {vs : List Value} (hs : s.length = n)
          (hBound : s.length ≤ bound)
          (h : readNextItem depth next s = .ok (vs, rest)) : ∀ v ∈ vs, Sound depth v := by
        rw [readNextItem] at h
        split at h
        · cases h
        · rename_i v tail hRead
          obtain ⟨⟨others, rest'⟩, hOthers, hEq⟩ := Outcome.map_eq_ok.1 h
          cases hEq
          have hShorter := length_of_readItem hRead
          exact List.forall_mem_cons.2 ⟨hItem s v tail hBound hRead,
            ih tail.length (by omega) (by omega) hOthers rfl⟩
      cases count? with
      | some count =>
          cases count with
          | zero =>
              rw [readItems_zero] at h
              cases h
              simp
          | succ count =>
              rw [readItems_succ] at h
              exact step hLength hBound h
      | none =>
          cases s with
          | nil =>
              rw [readItems_open_nil] at h
              cases h
          | cons first s =>
              rw [readItems_open_cons] at h
              split at h
              · cases h
                simp
              · exact step hLength hBound h

theorem sound_of_readEntries {count? : Option Nat} {s rest : List UInt8} {es : List (Value × Value)}
    (hBound : s.length ≤ bound) (h : readEntries depth count? s = .ok (es, rest)) :
    ∀ e ∈ es, Sound depth e.1 ∧ Sound depth e.2 := by
  induction hLength : s.length using Nat.strongRecOn generalizing count? s es with
  | ind n ih =>
      have step {next : Option Nat} {s : List UInt8} {es : List (Value × Value)} (hs : s.length = n)
          (hBound : s.length ≤ bound)
          (h : readNextEntry depth next s = .ok (es, rest)) :
          ∀ e ∈ es, Sound depth e.1 ∧ Sound depth e.2 := by
        rw [readNextEntry] at h
        split at h
        · cases h
        · rename_i k tail hKey
          have hShorter := length_of_readItem hKey
          split at h
          · cases h
          · rename_i v tail' hValue
            obtain ⟨⟨others, rest'⟩, hOthers, hEq⟩ := Outcome.map_eq_ok.1 h
            cases hEq
            have hShorter' := length_of_readItem hValue
            exact List.forall_mem_cons.2 ⟨⟨hItem s k tail hBound hKey,
              hItem tail v tail' (by omega) hValue⟩,
              ih tail'.length (by omega) (by omega) hOthers rfl⟩
      cases count? with
      | some count =>
          cases count with
          | zero =>
              rw [readEntries_zero] at h
              cases h
              simp
          | succ count =>
              rw [readEntries_succ] at h
              exact step hLength hBound h
      | none =>
          cases s with
          | nil =>
              rw [readEntries_open_nil] at h
              cases h
          | cons first s =>
              rw [readEntries_open_cons] at h
              split at h
              · cases h
                simp
              · exact step hLength hBound h

end

theorem sound_array {depth inner : Nat} {count? : Option Nat} {vs : List Value}
    (hOpen : depthInside depth count? = some inner) (hCount : count? = some 0 → vs = [])
    (h : ∀ v ∈ vs, Sound inner v) : Sound depth (.array vs) := by
  refine ⟨.array fun v hv => (h v hv).keyed, ?_⟩
  rw [nesting]
  exact le_of_depthInside hOpen (fun hNone => by rw [hCount hNone]; rfl)
    (itemsNesting_le.2 fun v hv => (h v hv).nested)

theorem sound_map {depth inner : Nat} {count? : Option Nat} {es : List (Value × Value)}
    (hOpen : depthInside depth count? = some inner) (hCount : count? = some 0 → es = [])
    (h : ∀ e ∈ es, Sound inner e.1 ∧ Sound inner e.2) :
    Sound depth (.map (Entries.ofWrites Value.agrees es)) := by
  have inside {e : Value × Value} (he : e ∈ Entries.ofWrites Value.agrees es) :
      Sound inner e.1 ∧ Sound inner e.2 := by
    obtain ⟨hKey, hValue⟩ := Entries.mem_ofWrites he
    obtain ⟨f, hf, hKeyEq⟩ := List.mem_map.1 hKey
    obtain ⟨g, hg, hValueEq⟩ := List.mem_map.1 hValue
    exact ⟨hKeyEq ▸ (h f hf).1, hValueEq ▸ (h g hg).2⟩
  refine ⟨.map (Entries.distinct_ofWrites _ es) fun e he => (inside he).2.keyed, ?_⟩
  rw [nesting]
  exact le_of_depthInside hOpen (fun hNone => by rw [hCount hNone]; rfl)
    (entriesNesting_le.2 fun e he => ⟨(inside he).1.nested, (inside he).2.nested⟩)

/-- **What is read is keyed and not too deep.** -/
theorem sound_of_readItem {depth : Nat} {s rest : List UInt8} {v : Value}
    (h : readItem depth s = .ok (v, rest)) : Sound depth v := by
  induction hLength : s.length using Nat.strongRecOn generalizing depth s v rest with
  | ind n ih =>
      rw [readItem_eq] at h
      split at h
      · cases h
      · rename_i hd tail hHead
        have hShorter := length_of_readHead hHead
        -- whatever is inside the item is read from octets behind its head
        have hInside : ∀ inner s v rest, s.length ≤ tail.length →
            readItem inner s = .ok (v, rest) → Sound inner v :=
          fun inner s v rest hShort hRead => ih s.length (by omega) hRead rfl
        -- by major type: two of integers, octets, text, array, map, tag, and what is plain
        split at h
        · rename_i hMajor hGiven
          cases h
          exact sound_int (lt_of_readHead hHead hGiven) (Or.inl rfl)
        · rename_i hMajor hGiven
          cases h
          exact sound_int (lt_of_readHead hHead hGiven) (Or.inr rfl)
        · obtain ⟨⟨octets, tail'⟩, -, hEq⟩ := Outcome.map_eq_ok.1 h
          cases hEq
          exact sound_atom rfl rfl
        · split at h
          · cases h
          · obtain ⟨content, -, hEq⟩ := Outcome.map_eq_ok.1 h
            cases hEq
            exact sound_atom rfl rfl
        · split at h
          · cases h
          · rename_i inner hOpen
            obtain ⟨⟨vs, tail'⟩, hItems, hEq⟩ := Outcome.map_eq_ok.1 h
            cases hEq
            refine sound_array hOpen ?_ (sound_of_readItems (hInside inner) (Nat.le_refl _) hItems)
            intro hNone
            rw [hNone, readItems_zero] at hItems
            cases hItems
            rfl
        · split at h
          · cases h
          · rename_i inner hOpen
            obtain ⟨⟨es, tail'⟩, hEntries, hEq⟩ := Outcome.map_eq_ok.1 h
            cases hEq
            refine sound_map hOpen ?_
              (sound_of_readEntries (hInside inner) (Nat.le_refl _) hEntries)
            intro hNone
            rw [hNone, readEntries_zero] at hEntries
            cases hEntries
            rfl
        · split at h
          · cases h
          · rename_i inner hOpen
            rcases depthInside_eq_some.1 hOpen with ⟨hNone, -⟩ | ⟨-, rfl⟩
            · cases hNone
            split at h
            · cases h
            · rename_i content tail' hContent
              obtain ⟨w, hTagged, hEq⟩ := Outcome.map_eq_ok.1 h
              cases hEq
              have hSound := hInside inner _ content _ (Nat.le_refl _) hContent
              exact sound_of_tagged hSound.nested hTagged
        · obtain ⟨w, hPlain, hEq⟩ := Outcome.map_eq_ok.1 h
          cases hEq
          exact sound_of_plainValue hPlain
        · cases h

end Cbor

end NinjaFile
