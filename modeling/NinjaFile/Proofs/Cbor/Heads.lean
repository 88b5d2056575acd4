import NinjaFile.Cbor.Decoding
import NinjaFile.Cbor.Encoding
import NinjaFile.Proofs.Text.Octets

/-!
# Heads and numbers come back

A head is read back with its argument (`readHead_head`), which an argument below
two to the sixty-fourth is equal to. What follows is kept, so of two encodings
with heads in front the rest is the same whatever the arguments are. An integer
comes back in either form, as an argument or as a tagged byte string
(`readItem_encodeInt`).
-/

namespace NinjaFile.Cbor

/-! ## Heads -/

theorem splitOctets_append {count : Nat} {octets : List UInt8} (h : octets.length = count)
    (rest : List UInt8) : splitOctets count (octets ++ rest) = .ok (octets, rest) := by
  subst h
  rw [splitOctets, if_pos (by simp), List.take_left, List.drop_left]

theorem argumentIn_bigEndian (width n : Nat) (rest : List UInt8) :
    argumentIn width (Octets.bigEndian width n ++ rest) =
      .ok (.given width (n % 256 ^ width), rest) := by
  rw [argumentIn, splitOctets_append (Octets.length_bigEndian width n), ← Octets.toNat_bigEndian]
  rfl

/-- The argument of a head comes back, up to what eight octets do not hold. -/
theorem argument_information (n : Nat) (rest : List UInt8) :
    argument (information (widthFor n) n) (Octets.bigEndian (widthFor n) n ++ rest) =
      .ok (.given (widthFor n) (n % 0x10000000000000000), rest) := by
  -- one case for each width
  by_cases hZero : n < 24
  · have hWidth : widthFor n = 0 := by rw [widthFor, if_pos hZero]
    rw [hWidth, information, if_pos rfl, argument, if_pos hZero, Nat.mod_eq_of_lt (by omega)]
    rfl
  by_cases hOne : n < 0x100
  · have hWidth : widthFor n = 1 := by rw [widthFor, if_neg hZero, if_pos hOne]
    have hFits : n % 256 ^ 1 = n % 0x10000000000000000 := by omega
    rw [hWidth, ← hFits]
    exact argumentIn_bigEndian 1 n rest
  by_cases hTwo : n < 0x10000
  · have hWidth : widthFor n = 2 := by rw [widthFor, if_neg hZero, if_neg hOne, if_pos hTwo]
    have hFits : n % 256 ^ 2 = n % 0x10000000000000000 := by omega
    rw [hWidth, ← hFits]
    exact argumentIn_bigEndian 2 n rest
  by_cases hFour : n < 0x100000000
  · have hWidth : widthFor n = 4 := by
      rw [widthFor, if_neg hZero, if_neg hOne, if_neg hTwo, if_pos hFour]
    have hFits : n % 256 ^ 4 = n % 0x10000000000000000 := by omega
    rw [hWidth, ← hFits]
    exact argumentIn_bigEndian 4 n rest
  · have hWidth : widthFor n = 8 := by
      rw [widthFor, if_neg hZero, if_neg hOne, if_neg hTwo, if_neg hFour]
    rw [hWidth]
    exact argumentIn_bigEndian 8 n rest

theorem information_lt (n : Nat) : information (widthFor n) n < 32 := by
  by_cases hSmall : n < 24
  · rw [widthFor, if_pos hSmall, information, if_pos rfl]
    omega
  · have hWidth : widthFor n ≠ 0 := by
      rw [widthFor, if_neg hSmall]
      repeat' split
      all_goals decide
    rw [information, if_neg hWidth]
    repeat' split
    all_goals decide

/-- **A head comes back**, and what follows it is left. -/
theorem readHead_head {major : Nat} (hMajor : major < 8) (n : Nat) (rest : List UInt8) :
    readHead (head major n ++ rest) =
      .ok (⟨major, .given (widthFor n) (n % 0x10000000000000000)⟩, rest) := by
  have hInformation := information_lt n
  have hOctet : (UInt8.ofNat (32 * major + information (widthFor n) n)).toNat =
      32 * major + information (widthFor n) n := by
    rw [UInt8.toNat_ofNat']
    omega
  rw [head, headOf, List.cons_append, readHead, hOctet]
  have hMajorPart : (32 * major + information (widthFor n) n) / 32 = major := by omega
  have hInformationPart : (32 * major + information (widthFor n) n) % 32 =
      information (widthFor n) n := by omega
  rw [hMajorPart, hInformationPart, argument_information]
  rfl

theorem lt_of_readHead {s rest : List UInt8} {hd : Head} {width n : Nat}
    (h : readHead s = .ok (hd, rest)) (hGiven : hd.argument = .given width n) :
    n < 0x10000000000000000 := by
  cases s with
  | nil => cases h
  | cons first s =>
      obtain ⟨⟨arg, tail⟩, hArgument, hPure⟩ := Outcome.bind_eq_ok.1 h
      cases hPure
      cases hGiven
      have inOctets {count : Nat} (hCount : count ≤ 8)
          (hIn : argumentIn count s = .ok (.given width n, rest)) : n < 0x10000000000000000 := by
        obtain ⟨⟨octets, tail⟩, hSplit, hPure⟩ := Outcome.bind_eq_ok.1 hIn
        cases hPure
        have hLength : octets.length ≤ 8 := by
          unfold splitOctets at hSplit
          split at hSplit
          · cases hSplit
            simp only [List.length_take]
            omega
          · cases hSplit
        calc Octets.toNat octets < 256 ^ octets.length := Octets.toNat_lt octets
          _ ≤ 256 ^ 8 := Nat.pow_le_pow_right (by decide) hLength
          _ = 0x10000000000000000 := by decide
      unfold argument at hArgument
      split at hArgument
      · cases hArgument
        omega
      split at hArgument
      · exact inOctets (by decide) hArgument
      split at hArgument
      · exact inOctets (by decide) hArgument
      split at hArgument
      · exact inOctets (by decide) hArgument
      split at hArgument
      · exact inOctets (by decide) hArgument
      split at hArgument <;> cases hArgument

/-- Behind heads of one major type the rest is the same if the whole is. -/
theorem rest_of_head {major : Nat} (hMajor : major < 8) {m n : Nat} {a b : List UInt8}
    (h : head major m ++ a = head major n ++ b) : a = b := by
  have hRead := congrArg readHead h
  rw [readHead_head hMajor, readHead_head hMajor] at hRead
  exact (Prod.mk.inj (Except.ok.inj hRead)).2

theorem head_ne_nil (major n : Nat) : head major n ≠ [] :=
  List.cons_ne_nil _ _

/-! ## Integers -/

theorem toNat_magnitude (n : Nat) : Octets.toNat (magnitude n) = n := by
  induction n using Nat.strongRecOn with
  | ind n ih =>
      rw [magnitude]
      split
      · rename_i hZero
        rw [hZero]
        rfl
      · have hOctet : (UInt8.ofNat (n % 256)).toNat = n % 256 := by
          rw [UInt8.toNat_ofNat']
          omega
        rw [Octets.toNat_append_singleton, ih (n / 256) (by omega), hOctet]
        omega

/-- How far an integer is from zero, or from minus one if it is negative. -/
def distance (n : Int) : Nat :=
  if 0 ≤ n then n.toNat else (-1 - n).toNat

/-- Is the integer too far out for an argument? -/
def isBig (n : Int) : Bool :=
  decide (0x10000000000000000 ≤ distance n)

theorem readItem_octets {octets rest : List UInt8} (depth : Nat)
    (h : octets.length < 0x10000000000000000) :
    readItem depth (head 2 octets.length ++ (octets ++ rest)) = .ok (.bytes octets, rest) := by
  rw [readItem_eq, readHead_head (by decide)]
  simp only [stringChunks, Nat.mod_eq_of_lt h, splitOctets_append rfl]
  simp [Except.map]

/-- A number comes back in either sign: only the major type and the tag tell which it was. -/
theorem readItem_encodeNat {major tag n : Nat} {k : Int}
    (hSign : major = 0 ∧ tag = 2 ∧ k = n ∨ major = 1 ∧ tag = 3 ∧ k = -1 - n) {depth : Nat}
    (hDepth : 0x10000000000000000 ≤ n → 0 < depth)
    (hLength : (encodeNat major tag n).length < 0x10000000000000000) (rest : List UInt8) :
    readItem depth (encodeNat major tag n ++ rest) = .ok (.int k, rest) := by
  unfold encodeNat at hLength ⊢
  split
  · rename_i hSmall
    rcases hSign with ⟨rfl, -, rfl⟩ | ⟨rfl, -, rfl⟩
    · rw [readItem_eq, readHead_head (by decide), Nat.mod_eq_of_lt hSmall]
      rfl
    · rw [readItem_eq, readHead_head (by decide), Nat.mod_eq_of_lt hSmall]
      rfl
  · rename_i hBig
    rw [if_neg hBig, List.length_append, List.length_append] at hLength
    obtain ⟨inner, rfl⟩ : ∃ inner, depth = inner + 1 :=
      Nat.exists_eq_add_one.2 (hDepth (Nat.le_of_not_lt hBig))
    -- a tag, and in it the octets of the number
    have hContent : readItem inner (head 2 (magnitude n).length ++ (magnitude n ++ rest)) =
        .ok (.bytes (magnitude n), rest) := readItem_octets inner (by omega)
    rw [List.append_assoc (head 6 tag), List.append_assoc (head 6 tag), readItem_eq,
      readHead_head (by decide), Nat.mod_eq_of_lt (by omega)]
    rcases hSign with ⟨-, rfl, rfl⟩ | ⟨-, rfl, rfl⟩
    · simp [depthInside, hContent, tagged, toNat_magnitude, Except.map]
    · simp [depthInside, hContent, tagged, toNat_magnitude, Except.map]

/-- **An integer comes back**, where a big one needs room for its tag. -/
theorem readItem_encodeInt {n : Int} {depth : Nat} (hDepth : isBig n = true → 0 < depth)
    (hLength : (encodeInt n).length < 0x10000000000000000) (rest : List UInt8) :
    readItem depth (encodeInt n ++ rest) = .ok (.int n, rest) := by
  have hRoom : 0x10000000000000000 ≤ distance n → 0 < depth :=
    fun hBig => hDepth (decide_eq_true hBig)
  unfold encodeInt at hLength ⊢
  unfold distance at hRoom
  split
  · rename_i hSign
    rw [if_pos hSign] at hLength hRoom
    exact readItem_encodeNat (Or.inl ⟨rfl, rfl, by omega⟩) hRoom hLength rest
  · rename_i hSign
    rw [if_neg hSign] at hLength hRoom
    exact readItem_encodeNat (Or.inr ⟨rfl, rfl, by omega⟩) hRoom hLength rest

end NinjaFile.Cbor
