import NinjaFile.Proofs.Cbor.Encoded

/-!
# One encoding

The order of encoded keys is total and tells keys of data apart that are texts, and
what is encoded does not depend on the order in which a map keeps its entries
(`encode_inOrder`). Together with the way back this says that two data have one
encoding exactly when they have one form in order (`encode_eq_iff`).
-/

namespace NinjaFile

namespace Cbor

/-! ## The order of keys -/

theorem keyLe_iff {a b : List UInt8} :
    keyLe a b = true ↔ a.length < b.length ∨ a.length = b.length ∧ a ≤ b := by
  simp [keyLe, List.not_lt]

theorem codeLe_trans (u v w : Value) (h : codeLe u v = true) (h' : codeLe v w = true) :
    codeLe u w = true := by
  rw [codeLe, keyLe_iff] at *
  rcases h with hShorter | ⟨hLength, hLe⟩
  · rcases h' with hShorter' | ⟨hLength', -⟩
    · left
      omega
    · left
      omega
  · rcases h' with hShorter' | ⟨hLength', hLe'⟩
    · left
      omega
    · right
      exact ⟨hLength.trans hLength', List.le_trans hLe hLe'⟩

theorem codeLe_total (v w : Value) : (codeLe v w || codeLe w v) = true := by
  rw [Bool.or_eq_true, codeLe, codeLe, keyLe_iff, keyLe_iff]
  rcases Nat.lt_trichotomy (encode v).length (encode w).length with hShorter | hLength | hLonger
  · exact Or.inl (Or.inl hShorter)
  · rcases List.le_total (encode v) (encode w) with hLe | hLe
    · exact Or.inl (Or.inr ⟨hLength, hLe⟩)
    · exact Or.inr (Or.inr ⟨hLength.symm, hLe⟩)
  · exact Or.inr (Or.inl hLonger)

theorem encode_text_injective {s t : String} (h : encode (.text s) = encode (.text t)) : s = t := by
  rw [encode, encode] at h
  have hText := congrArg Octets.toText? (rest_of_head (by decide) h)
  rw [Octets.toText?_ofText, Octets.toText?_ofText] at hText
  exact Option.some.inj hText

theorem codeLe_antisymm (v w : Value) (hv : v.isText = true) (hw : w.isText = true)
    (h : codeLe v w = true) (h' : codeLe w v = true) : v = w := by
  rw [codeLe, keyLe_iff] at h h'
  have hCode : encode v = encode w := by
    rcases h with hShorter | ⟨hLength, hLe⟩
    · rcases h' with hShorter' | ⟨hLength', -⟩ <;> omega
    · rcases h' with hShorter' | ⟨-, hLe'⟩
      · omega
      · exact List.le_antisymm hLe hLe'
  cases v with
  | text s =>
      cases w with
      | text t => rw [encode_text_injective hCode]
      | _ => cases hw
  | _ => cases hv

/-! ## Order and encodings -/

theorem arranged_pairwise (es : List (Value × Value)) :
    (Value.arranged codeLe es).Pairwise fun e f => codeLe e.1 f.1 = true := by
  rw [Value.arranged, List.pairwise_map]
  exact List.pairwise_mergeSort (fun a b c => codeLe_trans a.1 b.1 c.1)
    (fun a b => codeLe_total a.1 b.1) es

/-- **Order does not change encodings.** -/
theorem encode_inOrder {atom key : Value → Bool} {v : Value} (h : v.Data atom key) :
    encode (v.inOrder codeLe) = encode v := by
  induction h with
  | atom isAtom => rw [Value.inOrder_of_isAtom codeLe isAtom]
  | @array vs items ih =>
      rw [Value.inOrder_array, encode_array, encode_array, List.length_map, List.flatMap_map]
      congr 1
      exact List.flatMap_congr ih
  | @map es keys distinct values ih =>
      -- what is arranged stays where it is when it is sorted once more
      rw [Value.inOrder_map, encode_map, encode_map,
        List.mergeSort_of_pairwise (arranged_pairwise es), Value.arranged, List.length_map,
        List.length_mergeSort, List.flatMap_map]
      congr 1
      refine List.flatMap_congr fun e he => ?_
      rw [encodeEntry, encodeEntry, ih e (List.mem_mergeSort.1 he)]

/-- **One encoding, one form.** Data that are encoded alike are alike in order. -/
theorem encode_eq_iff {v w : Value} (hv : v.Data Value.isDatum Value.isKey)
    (hw : w.Data Value.isDatum Value.isKey) (hLength : (encode v).length < 0x10000000000000000) :
    encode v = encode w ↔ v.inOrder codeLe = w.inOrder codeLe := by
  constructor
  · intro h
    -- both are read from the same octets, with room for the deeper one
    have hRead := readItem_encode hv (Nat.le_max_left (nesting v) (nesting w)) hLength []
    have hRead' := readItem_encode hw (Nat.le_max_right (nesting v) (nesting w)) (h ▸ hLength) []
    rw [h, hRead'] at hRead
    exact (Prod.mk.inj (Except.ok.inj hRead)).1.symm
  · intro h
    rw [← encode_inOrder hv, h, encode_inOrder hw]

end Cbor

end NinjaFile
