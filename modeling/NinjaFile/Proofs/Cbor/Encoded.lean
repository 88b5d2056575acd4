import NinjaFile.Proofs.Cbor.Decoded

/-!
# Encoded data come back

The encoding of data is read back as the data, with the entries of maps in the
order of their encoded keys (`readItem_encode`), where as many containers may be
opened as are nested in it. All that the reader has to tell apart are counts and
widths, and these are below two to the sixty-fourth if the whole encoding is that
short.
-/

namespace NinjaFile.Cbor

def codeLe (v w : Value) : Bool :=
  keyLe (encode v) (encode w)

/-! ## The shape of encodings -/

theorem encodeItems_eq_flatMap (vs : List Value) : encodeItems vs = vs.flatMap encode := by
  induction vs with
  | nil => rfl
  | cons v vs ih => rw [encodeItems, ih, List.flatMap_cons]

theorem encodeEntries_eq_map (es : List (Value × Value)) :
    encodeEntries es = es.map fun e => (encode e.1, encode e.2) := by
  induction es with
  | nil => rfl
  | cons e es ih => rw [encodeEntries, ih, List.map_cons]

def encodeEntry (e : Value × Value) : List UInt8 :=
  encode e.1 ++ encode e.2

theorem encode_array (vs : List Value) :
    encode (.array vs) = head 4 vs.length ++ vs.flatMap encode := by
  rw [encode, encodeItems_eq_flatMap]

theorem encode_map (es : List (Value × Value)) : encode (.map es) =
    head 5 es.length ++ (es.mergeSort fun e f => codeLe e.1 f.1).flatMap encodeEntry := by
  have hSort : (es.map fun e => (encode e.1, encode e.2)).mergeSort (fun e f => keyLe e.1 f.1) =
      (es.mergeSort fun e f => codeLe e.1 f.1).map fun e => (encode e.1, encode e.2) := by
    have hMap := List.map_mergeSort (f := fun e : Value × Value => (encode e.1, encode e.2))
      (r := fun e f => codeLe e.1 f.1) (s := fun e f => keyLe e.1 f.1) (l := es) fun e _ f _ => rfl
    exact hMap.symm
  rw [encode, encodeEntries_eq_map, joinEntries, hSort, List.flatMap_map]
  rfl

theorem encode_ne_nil (v : Value) : encode v ≠ [] := by
  cases v with
  | int n =>
      simp only [encode, encodeInt, encodeNat]
      repeat' split
      all_goals simp [head_ne_nil]
  | float x =>
      simp only [encode, encodeFloat]
      repeat' split
      all_goals exact List.cons_ne_nil _ _
  | nan =>
      simp only [encode, encodeFloat]
      repeat' split
      all_goals exact List.cons_ne_nil _ _
  | _ => simp [encode, head_ne_nil]

/-- A row of parts is at least as long as it has parts, and as each of them. -/
theorem length_flatMap_bounds {α β : Type} (f : α → List β) {xs : List α}
    (h : ∀ x ∈ xs, f x ≠ []) :
    xs.length ≤ (xs.flatMap f).length ∧ ∀ x ∈ xs, (f x).length ≤ (xs.flatMap f).length := by
  induction xs with
  | nil => simp
  | cons x xs ih =>
      obtain ⟨hCount, hParts⟩ := ih fun y hy => h y (List.mem_cons_of_mem _ hy)
      have hFirst := List.length_pos_iff.2 (h x List.mem_cons_self)
      rw [List.flatMap_cons, List.length_append, List.length_cons]
      refine ⟨by omega, List.forall_mem_cons.2 ⟨by omega, fun y hy => ?_⟩⟩
      have hPart := hParts y hy
      omega

/-! ## Lengths -/

mutual

/-- How many octets encode a value. The order of entries does not matter for it. -/
def size : Value → Nat
  | .array vs => (head 4 vs.length).length + itemsSize vs
  | .map es => (head 5 es.length).length + entriesSize es
  | .tagged tag content => (head 6 tag).length + size content
  | v => (encode v).length

def itemsSize : List Value → Nat
  | [] => 0
  | v :: vs => size v + itemsSize vs

def entriesSize : List (Value × Value) → Nat
  | [] => 0
  | (k, v) :: es => size k + size v + entriesSize es

end

mutual

theorem length_encode (v : Value) : (encode v).length = size v := by
  cases v with
  | array vs => rw [encode_array, List.length_append, length_flatMap_encode, size]
  | map es =>
      have hPerm := (List.mergeSort_perm es fun e f => codeLe e.1 f.1).flatMap_right encodeEntry
      rw [encode_map, List.length_append, hPerm.length_eq, length_flatMap_encodeEntry, size]
  | tagged tag content => rw [encode, List.length_append, length_encode, size]
  | _ => rfl

theorem length_flatMap_encode (vs : List Value) : (vs.flatMap encode).length = itemsSize vs := by
  cases vs with
  | nil => rfl
  | cons v vs =>
      rw [List.flatMap_cons, List.length_append, length_encode, length_flatMap_encode, itemsSize]

theorem length_flatMap_encodeEntry (es : List (Value × Value)) :
    (es.flatMap encodeEntry).length = entriesSize es := by
  match es with
  | [] => rfl
  | (k, v) :: es =>
      rw [List.flatMap_cons, encodeEntry, List.length_append, List.length_append, length_encode,
        length_encode, length_flatMap_encodeEntry, entriesSize]

end

/-! ## Atoms -/

theorem readItem_encode_atom {v : Value} (hDatum : v.isDatum = true) {depth : Nat}
    (hNesting : nesting v ≤ depth) (hLength : (encode v).length < 0x10000000000000000)
    (rest : List UInt8) : readItem depth (encode v ++ rest) = .ok (v, rest) := by
  cases v with
  | null =>
      rw [encode, readItem_eq, readHead_head (by decide)]
      rfl
  | bool b =>
      rw [encode, readItem_eq, readHead_head (by decide)]
      cases b <;> rfl
  | int n =>
      rw [encode] at hLength ⊢
      refine readItem_encodeInt ?_ hLength rest
      intro hBig
      rw [nesting, if_pos hBig] at hNesting
      omega
  | text s =>
      rw [encode, List.length_append] at hLength
      rw [encode, List.append_assoc, readItem_eq, readHead_head (by decide),
        Nat.mod_eq_of_lt (by omega)]
      simp only [stringChunks, splitOctets_append rfl, textOf, Octets.toText?_ofText]
      rw [String.append_empty]
      rfl
  | bytes octets =>
      rw [encode, List.length_append] at hLength
      rw [encode, List.append_assoc]
      exact readItem_octets depth (by omega)
  | _ => cases hDatum

/-! ## Containers -/

/-- A value is read back in order, whatever follows it. -/
def Returns (depth : Nat) (v : Value) : Prop :=
  ∀ rest, readItem depth (encode v ++ rest) = .ok (v.inOrder codeLe, rest)

theorem readItems_flatMap {depth : Nat} {vs : List Value} (h : ∀ v ∈ vs, Returns depth v)
    (rest : List UInt8) : readItems depth (some vs.length) (vs.flatMap encode ++ rest) =
      .ok (vs.map (Value.inOrder codeLe), rest) := by
  induction vs with
  | nil => exact readItems_zero depth rest
  | cons v vs ih =>
      rw [List.length_cons, List.flatMap_cons, List.append_assoc, readItems_succ,
        readNextItem, h v List.mem_cons_self]
      simp only [ih fun w hw => h w (List.mem_cons_of_mem _ hw)]
      rfl

theorem readEntries_flatMap {depth : Nat} {es : List (Value × Value)}
    (hKeys : ∀ e ∈ es, ∀ rest, readItem depth (encode e.1 ++ rest) = .ok (e.1, rest))
    (hValues : ∀ e ∈ es, Returns depth e.2) (rest : List UInt8) :
    readEntries depth (some es.length) (es.flatMap encodeEntry ++ rest) =
      .ok (es.map fun e => (e.1, e.2.inOrder codeLe), rest) := by
  induction es with
  | nil => exact readEntries_zero depth rest
  | cons e es ih =>
      rw [List.length_cons, List.flatMap_cons, encodeEntry, List.append_assoc, List.append_assoc,
        readEntries_succ, readNextEntry, hKeys e List.mem_cons_self]
      simp only [hValues e List.mem_cons_self _]
      rw [ih (fun f hf => hKeys f (List.mem_cons_of_mem _ hf))
        fun f hf => hValues f (List.mem_cons_of_mem _ hf)]
      rfl

/-! ## Data -/

/-- **Encoded data come back**, in order. -/
theorem readItem_encode {v : Value} (h : v.Data Value.isDatum Value.isKey) {depth : Nat}
    (hNesting : nesting v ≤ depth) (hLength : (encode v).length < 0x10000000000000000) :
    Returns depth v := by
  induction h generalizing depth with
  | atom isAtom allowed =>
      intro rest
      rw [Value.inOrder_of_isAtom codeLe isAtom]
      exact readItem_encode_atom allowed hNesting hLength rest
  | @array vs items ih =>
      intro rest
      rw [encode_array] at hLength ⊢
      obtain ⟨hCount, hParts⟩ := length_flatMap_bounds encode fun v (_ : v ∈ vs) => encode_ne_nil v
      rw [List.length_append] at hLength
      rw [nesting] at hNesting
      obtain ⟨inner, hOpen, hInside⟩ := exists_depthInside
        (fun hNone => by rw [List.length_eq_zero_iff.1 hNone]; rfl) hNesting
      have hItems := readItems_flatMap (fun v hv => ih v hv (itemsNesting_le.1 hInside v hv)
        (Nat.lt_of_le_of_lt (hParts v hv) (by omega))) rest
      rw [List.append_assoc, readItem_eq, readHead_head (by decide), Nat.mod_eq_of_lt (by omega)]
      simp only [Argument.count?, hOpen, hItems, Value.inOrder_array]
      rfl
  | @map es keys distinct values ih =>
      intro rest
      rw [encode_map] at hLength ⊢
      rw [List.length_append] at hLength
      rw [nesting] at hNesting
      obtain ⟨inner, hOpen, hInside⟩ := exists_depthInside
        (fun hNone => by rw [List.length_eq_zero_iff.1 hNone]; rfl) hNesting
      have hSorted {e : Value × Value} (he : e ∈ es.mergeSort fun e f => codeLe e.1 f.1) :
          e ∈ es ∧ nesting e.1 ≤ inner ∧ nesting e.2 ≤ inner := by
        have hMem := List.mem_mergeSort.1 he
        exact ⟨hMem, entriesNesting_le.1 hInside e hMem⟩
      obtain ⟨hCount, hParts⟩ := length_flatMap_bounds encodeEntry
        fun e (_ : e ∈ es.mergeSort fun e f => codeLe e.1 f.1) => by
          simp [encodeEntry, encode_ne_nil]
      have hShort {e : Value × Value} (he : e ∈ es.mergeSort fun e f => codeLe e.1 f.1) :
          (encode e.1).length < 0x10000000000000000 ∧
            (encode e.2).length < 0x10000000000000000 := by
        have hPart := hParts e he
        rw [encodeEntry, List.length_append] at hPart
        omega
      have hEntries := readEntries_flatMap
        (fun e he => readItem_encode_atom (Value.isDatum_of_isKey (keys e (hSorted he).1))
          (hSorted he).2.1 (hShort he).1)
        (fun e he => ih e (hSorted he).1 (hSorted he).2.2 (hShort he).2) rest
      -- keys of data that agree are equal, so no entry replaces another
      have hTable : Entries.ofWrites Value.agrees (Value.arranged codeLe es) =
          Value.arranged codeLe es := by
        have hPerm := Value.keys_arranged_perm codeLe es
        refine Entries.ofWrites_eq_self
          ((Value.distinct_iff_nodup_of_isKey ?_).2 (hPerm.nodup_iff.2 distinct))
        intro k hk
        obtain ⟨e, he, rfl⟩ := List.mem_map.1 (hPerm.mem_iff.1 hk)
        exact keys e he
      rw [List.length_mergeSort] at hCount hEntries
      rw [List.append_assoc, readItem_eq, readHead_head (by decide), Nat.mod_eq_of_lt (by omega)]
      simp only [Argument.count?, hOpen, hEntries]
      rw [Value.inOrder_map, ← hTable]
      rfl

end NinjaFile.Cbor
