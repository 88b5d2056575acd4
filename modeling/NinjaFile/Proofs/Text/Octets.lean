import Mathlib.Algebra.Group.Nat.Defs
import Mathlib.Data.List.Induction
import NinjaFile.Digest.Sha256
import NinjaFile.Text.Hex
import NinjaFile.Text.Octets

/-!
# Numbers and texts as octets

What is written in a fixed width has that width, and big-endian octets stand for
the number, reduced to what fits (`Octets.toNat_bigEndian`). The octets of a text
are those of that text only (`Octets.toText?_ofText`).
-/

namespace NinjaFile

namespace Hex

theorem length_fixed (width n : Nat) : (fixed width n).length = width := by
  induction width generalizing n with
  | zero => rfl
  | succ width ih => rw [fixed, List.length_append, ih, List.length_singleton]

theorem length_ofOctets (octets : List UInt8) :
    (ofOctets octets).toList.length = 2 * octets.length := by
  rw [ofOctets, String.toList_ofList]
  induction octets with
  | nil => rfl
  | cons octet octets ih =>
      rw [List.flatMap_cons, List.length_append, length_fixed, ih, List.length_cons]
      omega

end Hex

namespace Octets

theorem length_bigEndian (width n : Nat) : (bigEndian width n).length = width := by
  induction width generalizing n with
  | zero => rfl
  | succ width ih => rw [bigEndian, List.length_append, ih, List.length_singleton]

theorem toNat_append_singleton (octets : List UInt8) (octet : UInt8) :
    toNat (octets ++ [octet]) = 256 * toNat octets + octet.toNat := by
  rw [toNat, List.foldl_append]
  rfl

theorem toNat_lt (octets : List UInt8) : toNat octets < 256 ^ octets.length := by
  induction octets using List.reverseRecOn with
  | nil => decide
  | append_singleton octets octet ih =>
      have hOctet := octet.toNat_lt
      rw [toNat_append_singleton, List.length_append, List.length_singleton, Nat.pow_succ]
      omega

theorem toNat_bigEndian (width n : Nat) : toNat (bigEndian width n) = n % 256 ^ width := by
  induction width generalizing n with
  | zero => rw [bigEndian, Nat.pow_zero, Nat.mod_one]; rfl
  | succ width ih =>
      have hPow : 256 ^ (width + 1) = 256 * 256 ^ width := by rw [Nat.pow_succ, Nat.mul_comm]
      have hOctet : (UInt8.ofNat (n % 256)).toNat = n % 256 := by
        rw [UInt8.toNat_ofNat']
        omega
      rw [bigEndian, toNat_append_singleton, ih, hOctet, hPow, Nat.mod_mul, Nat.add_comm]

theorem lt_of_mem_ofText {text : String} (h : ∀ c ∈ text.toList, c.toNat < 0x80) :
    ∀ octet ∈ ofText text, octet < 0x80 := by
  have hOctets : ofText text = text.toList.flatMap String.utf8EncodeChar := by
    rw [ofText, String.toUTF8, ← String.utf8Encode_toList]
    simp [List.utf8Encode]
  rw [hOctets]
  intro octet hOctet
  obtain ⟨c, hc, hMem⟩ := List.mem_flatMap.1 hOctet
  have hAscii : c.val.toNat ≤ 127 := Nat.le_of_lt_succ (h c hc)
  rw [String.utf8EncodeChar, if_pos hAscii] at hMem
  rw [List.mem_singleton.1 hMem, UInt8.lt_iff_toNat_lt, UInt8.toNat_ofNat']
  show c.val.toNat % 2 ^ 8 < 0x80
  omega

theorem toText?_ofText (text : String) : toText? (ofText text) = some text := by
  have hBytes : (⟨(ofText text).toArray⟩ : ByteArray) = text.toByteArray := rfl
  rw [toText?, hBytes, String.fromUTF8?, dif_pos text.isValidUTF8]
  rfl

end Octets

namespace Sha256

theorem length_hex (message : List UInt8) : (hex message).toList.length = 64 := by
  rw [hex, Hex.length_ofOctets]
  simp [digest, Octets.length_bigEndian]

end Sha256

end NinjaFile
