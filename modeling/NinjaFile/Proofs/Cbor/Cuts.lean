import NinjaFile.Proofs.Cbor.Encoded

/-!
# Cut encodings are not read

An item that is read from some octets is read from them again when more octets stand
behind, and when more containers may be opened (`readItem_append`): no reader looks
past what it takes. So an encoding that is cut short is not read at all
(`exists_decode_eq_error`). If it were, it would be read from the whole encoding too,
and what was cut off would be left over, of which there is nothing.
-/

namespace NinjaFile.Cbor

/-! ## Heads and strings -/

section

variable {s rest : List UInt8} (more : List UInt8)

theorem splitOctets_eq_append {count : Nat} {octets : List UInt8}
    (h : splitOctets count s = .ok (octets, rest)) :
    splitOctets count (s ++ more) = .ok (octets, rest ++ more) := by
  unfold splitOctets at h
  split at h
  · rename_i hCount
    cases h
    have hLength : (s.take count).length = count := List.length_take_of_le hCount
    rw [← List.take_append_drop count s, List.append_assoc, splitOctets_append hLength,
      List.take_append_drop]
  · cases h

theorem argumentIn_append {width : Nat} {arg : Argument}
    (h : argumentIn width s = .ok (arg, rest)) :
    argumentIn width (s ++ more) = .ok (arg, rest ++ more) := by
  obtain ⟨⟨octets, tail⟩, hSplit, hPure⟩ := Outcome.bind_eq_ok.1 h
  cases hPure
  rw [argumentIn, splitOctets_eq_append more hSplit]
  rfl

theorem argument_append {information : Nat} {arg : Argument}
    (h : argument information s = .ok (arg, rest)) :
    argument information (s ++ more) = .ok (arg, rest ++ more) := by
  unfold argument at h ⊢
  -- in the first octet, in one, two, four or eight more, left open, or reserved
  split at h
  · rename_i hFirst
    cases h
    rw [if_pos hFirst]
  · iterate 4
      rename_i hOther
      rw [if_neg hOther]
      split at h
      · rename_i hWidth
        rw [if_pos hWidth]
        exact argumentIn_append more h
    rename_i hOther
    rw [if_neg hOther]
    split at h
    · rename_i hOpen
      cases h
      rw [if_pos hOpen]
    · cases h

theorem readHead_append {hd : Head} (h : readHead s = .ok (hd, rest)) :
    readHead (s ++ more) = .ok (hd, rest ++ more) := by
  cases s with
  | nil => cases h
  | cons first s =>
      obtain ⟨⟨arg, tail⟩, hArgument, hPure⟩ := Outcome.bind_eq_ok.1 h
      cases hPure
      rw [List.cons_append, readHead, argument_append more hArgument]
      rfl

theorem chunk_append {major : Nat} {octets : List UInt8}
    (h : chunk major s = .ok (octets, rest)) :
    chunk major (s ++ more) = .ok (octets, rest ++ more) := by
  unfold chunk at h
  split at h
  · cases h
  · rename_i hd tail hHead
    rw [chunk, readHead_append more hHead]
    dsimp only
    split at h
    · split at h
      · rename_i hMajor
        rw [if_pos hMajor]
        exact splitOctets_eq_append more h
      · cases h
    · cases h

theorem chunks_append {major : Nat} {octets : List (List UInt8)}
    (h : chunks major s = .ok (octets, rest)) :
    chunks major (s ++ more) = .ok (octets, rest ++ more) := by
  fun_induction chunks major s generalizing octets with
  | case1 => cases h
  | case2 =>
      cases h
      rw [List.cons_append, chunks, if_pos rfl]
  | case3 => cases h
  | case4 => cases h
  | case5 first rest' hFirst octets' tail hChunk _ others tail' hChunks ih =>
      cases h
      have hOne := chunk_append more hChunk
      have hOthers := ih hChunks
      rw [List.cons_append] at hOne
      rw [List.cons_append, chunks, if_neg hFirst]
      split
      · rename_i hError
        cases hOne.symm.trans hError
      · rename_i hOk
        cases hOne.symm.trans hOk
        rw [hOthers]

theorem stringChunks_append {major : Nat} {arg : Argument} {octets : List (List UInt8)}
    (h : stringChunks major arg s = .ok (octets, rest)) :
    stringChunks major arg (s ++ more) = .ok (octets, rest ++ more) := by
  cases arg with
  | given width n =>
      rw [stringChunks] at h
      split at h
      · cases h
      · rename_i hSplit
        cases h
        rw [stringChunks, splitOctets_eq_append more hSplit]
  | indefinite => exact chunks_append more h

end

/-! ## Items -/

theorem exists_depthInside_of_le {depth depth' inner : Nat} (hDepth : depth ≤ depth')
    {count? : Option Nat} (h : depthInside depth count? = some inner) :
    ∃ inner', depthInside depth' count? = some inner' ∧ inner ≤ inner' := by
  rcases depthInside_eq_some.1 h with ⟨hNone, rfl⟩ | ⟨hSome, rfl⟩
  · exact ⟨depth', depthInside_eq_some.2 (Or.inl ⟨hNone, rfl⟩), hDepth⟩
  · obtain ⟨inner', rfl⟩ : ∃ inner', depth' = inner' + 1 := ⟨depth' - 1, by omega⟩
    exact ⟨inner', depthInside_eq_some.2 (Or.inr ⟨hSome, rfl⟩), by omega⟩

section

variable {bound depth depth' : Nat} {more : List UInt8}
  (hItem : ∀ s v rest, s.length ≤ bound → readItem depth s = .ok (v, rest) →
    readItem depth' (s ++ more) = .ok (v, rest ++ more))

include hItem

theorem readItems_append {count? : Option Nat} {s rest : List UInt8} {vs : List Value}
    (hBound : s.length ≤ bound) (h : readItems depth count? s = .ok (vs, rest)) :
    readItems depth' count? (s ++ more) = .ok (vs, rest ++ more) := by
  induction hLength : s.length using Nat.strongRecOn generalizing count? s vs with
  | ind n ih =>
      -- one more item, wherever the count stands
      have step {next : Option Nat} {s : List UInt8} {vs : List Value} (hs : s.length = n)
          (hBound : s.length ≤ bound)
          (h : readNextItem depth next s = .ok (vs, rest)) :
          readNextItem depth' next (s ++ more) = .ok (vs, rest ++ more) := by
        rw [readNextItem] at h ⊢
        split at h
        · cases h
        · rename_i v tail hRead
          obtain ⟨⟨others, rest'⟩, hOthers, hEq⟩ := Outcome.map_eq_ok.1 h
          cases hEq
          have hShorter := length_of_readItem hRead
          rw [hItem s v tail hBound hRead]
          dsimp only
          rw [ih tail.length (by omega) (by omega) hOthers rfl]
          rfl
      cases count? with
      | some count =>
          cases count with
          | zero =>
              rw [readItems_zero] at h ⊢
              cases h
              rfl
          | succ count =>
              rw [readItems_succ] at h ⊢
              exact step hLength hBound h
      | none =>
          cases s with
          | nil =>
              rw [readItems_open_nil] at h
              cases h
          | cons first s =>
              rw [readItems_open_cons] at h
              rw [List.cons_append, readItems_open_cons]
              split at h
              · rename_i hBreak
                cases h
                rw [if_pos hBreak]
              · rename_i hBreak
                rw [if_neg hBreak]
                exact step hLength hBound h

theorem readEntries_append {count? : Option Nat} {s rest : List UInt8}
    {es : List (Value × Value)} (hBound : s.length ≤ bound)
    (h : readEntries depth count? s = .ok (es, rest)) :
    readEntries depth' count? (s ++ more) = .ok (es, rest ++ more) := by
  induction hLength : s.length using Nat.strongRecOn generalizing count? s es with
  | ind n ih =>
      have step {next : Option Nat} {s : List UInt8} {es : List (Value × Value)} (hs : s.length = n)
          (hBound : s.length ≤ bound)
          (h : readNextEntry depth next s = .ok (es, rest)) :
          readNextEntry depth' next (s ++ more) = .ok (es, rest ++ more) := by
        rw [readNextEntry] at h ⊢
        split at h
        · cases h
        · rename_i k tail hKey
          have hShorter := length_of_readItem hKey
          split at h
          · cases h
          · rename_i v tail' hValue
            obtain ⟨⟨others, rest'⟩, hOthers, hEq⟩ := Outcome.map_eq_ok.1 h
            cases hEq
            have hShorter' := length_of_readItem hValue
            rw [hItem s k tail hBound hKey]
            dsimp only
            rw [hItem tail v tail' (by omega) hValue]
            dsimp only
            rw [ih tail'.length (by omega) (by omega) hOthers rfl]
            rfl
      cases count? with
      | some count =>
          cases count with
          | zero =>
              rw [readEntries_zero] at h ⊢
              cases h
              rfl
          | succ count =>
              rw [readEntries_succ] at h ⊢
              exact step hLength hBound h
      | none =>
          cases s with
          | nil =>
              rw [readEntries_open_nil] at h
              cases h
          | cons first s =>
              rw [readEntries_open_cons] at h
              rw [List.cons_append, readEntries_open_cons]
              split at h
              · rename_i hBreak
                cases h
                rw [if_pos hBreak]
              · rename_i hBreak
                rw [if_neg hBreak]
                exact step hLength hBound h

end

/-- **An item is read again with more behind it**, and where more containers may be opened. -/
theorem readItem_append {depth depth' : Nat} (hDepth : depth ≤ depth') {s rest : List UInt8}
    {v : Value} (h : readItem depth s = .ok (v, rest)) (more : List UInt8) :
    readItem depth' (s ++ more) = .ok (v, rest ++ more) := by
  induction hLength : s.length using Nat.strongRecOn generalizing depth depth' s v rest with
  | ind n ih =>
      rw [readItem_eq] at h
      split at h
      · cases h
      · rename_i hd tail hHead
        have hShorter := length_of_readHead hHead
        -- whatever is inside the item is read from octets behind its head
        have hInside {inner inner' : Nat} (hInner : inner ≤ inner') :
            ∀ s v rest, s.length ≤ tail.length → readItem inner s = .ok (v, rest) →
              readItem inner' (s ++ more) = .ok (v, rest ++ more) :=
          fun s v rest hShort hRead => ih s.length (by omega) hInner hRead rfl
        rw [readItem_eq, readHead_append more hHead]
        dsimp only
        -- by major type: two of integers, octets, text, array, map, tag, and what is plain
        split at h
        · cases h
          rfl
        · cases h
          rfl
        · obtain ⟨⟨octets, tail'⟩, hChunks, hEq⟩ := Outcome.map_eq_ok.1 h
          cases hEq
          simp only [stringChunks_append more hChunks]
          rfl
        · split at h
          · cases h
          · rename_i octets tail' hChunks
            obtain ⟨content, hText, hEq⟩ := Outcome.map_eq_ok.1 h
            cases hEq
            simp only [stringChunks_append more hChunks, hText]
            rfl
        · split at h
          · cases h
          · rename_i inner hOpen
            obtain ⟨⟨vs, tail'⟩, hItems, hEq⟩ := Outcome.map_eq_ok.1 h
            cases hEq
            obtain ⟨inner', hOpen', hInner⟩ := exists_depthInside_of_le hDepth hOpen
            simp only [hOpen', readItems_append (hInside hInner) (Nat.le_refl _) hItems]
            rfl
        · split at h
          · cases h
          · rename_i inner hOpen
            obtain ⟨⟨es, tail'⟩, hEntries, hEq⟩ := Outcome.map_eq_ok.1 h
            cases hEq
            obtain ⟨inner', hOpen', hInner⟩ := exists_depthInside_of_le hDepth hOpen
            simp only [hOpen', readEntries_append (hInside hInner) (Nat.le_refl _) hEntries]
            rfl
        · split at h
          · cases h
          · rename_i inner hOpen
            split at h
            · cases h
            · rename_i content tail' hContent
              obtain ⟨w, hTagged, hEq⟩ := Outcome.map_eq_ok.1 h
              cases hEq
              obtain ⟨inner', hOpen', hInner⟩ := exists_depthInside_of_le hDepth hOpen
              have hContent' := hInside hInner _ content _ (Nat.le_refl _) hContent
              simp only [hOpen', hContent', hTagged]
              rfl
        · obtain ⟨w, hPlain, hEq⟩ := Outcome.map_eq_ok.1 h
          cases hEq
          simp only [hPlain]
          rfl
        · cases h

/-! ## Whole encodings -/

/-- **A cut encoding is not read.** It does not matter how deep the data are nested: that the reader
has a limit for it only makes it refuse more. -/
theorem exists_decode_eq_error {v : Value} (h : v.Data Value.isDatum Value.isKey)
    (hLength : (encode v).length < 0x10000000000000000) {front back : List UInt8}
    (hCut : front ++ back = encode v) (hBack : back ≠ []) :
    ∃ defect, decode front = .error defect := by
  cases hDecode : decode front with
  | error defect => exact ⟨defect, rfl⟩
  | ok w =>
      obtain ⟨⟨w, rest⟩, hRead, -⟩ := Outcome.map_eq_ok.1 hDecode
      have hFront := readItem_append (Nat.le_max_left depthLimit (nesting v)) hRead back
      have hWhole := readItem_encode h (Nat.le_max_right depthLimit (nesting v)) hLength []
      rw [List.append_nil, ← hCut, hFront] at hWhole
      have hLeft : rest ++ back = [] := (Prod.mk.inj (Except.ok.inj hWhole)).2
      exact absurd (List.append_eq_nil_iff.1 hLeft).2 hBack

end NinjaFile.Cbor
