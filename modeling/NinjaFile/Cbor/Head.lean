import NinjaFile.Outcome
import NinjaFile.Text.Octets

/-!
# Heads of CBOR items

An item begins with a head: one of eight major types and an argument, which
stands in the first octet, in one, two, four or eight octets behind it, or is
left open. A head is written in the fewest octets and read in any form.
-/

namespace NinjaFile.Cbor

inductive Argument where
  /-- A number, and in how many octets behind the first it stands. -/
  | given (width : Nat) (n : Nat)
  /-- No number: the item ends at a break. -/
  | indefinite
  deriving DecidableEq, Repr

structure Head where
  major : Nat
  argument : Argument
  deriving DecidableEq, Repr

inductive Defect where
  | truncated
  | reservedHead
  | unexpectedBreak
  | openNumber
  | badChunk
  | notText
  | shortSimple
  | notOctets
  | tooDeep
  deriving DecidableEq, Repr

def Defect.wording : Defect → String
  | .truncated => "premature end of the data"
  | .reservedHead => "reserved additional information in a head"
  | .unexpectedBreak => "break outside an item of indefinite length"
  | .openNumber => "indefinite length where a number is needed"
  | .badChunk => "chunk of an indefinite string that is not a definite string of its kind"
  | .notText => "text that is not UTF-8"
  | .shortSimple => "simple value below 32 in two octets"
  | .notOctets => "big number whose content is not a byte string"
  | .tooDeep => "containers nested too deeply"

/-! ## Writing -/

/-- The fewest octets behind the first that hold an argument. -/
def widthFor (n : Nat) : Nat :=
  if n < 24 then 0 else if n < 0x100 then 1 else if n < 0x10000 then 2
  else if n < 0x100000000 then 4 else 8

/-- What the first octet says of an argument in so many octets behind it. -/
def information (width n : Nat) : Nat :=
  if width = 0 then n else if width = 1 then 24 else if width = 2 then 25
  else if width = 4 then 26 else 27

def headOf (major width n : Nat) : List UInt8 :=
  UInt8.ofNat (32 * major + information width n) :: Octets.bigEndian width n

/-- A head in the fewest octets, for an argument below two to the sixty-fourth. -/
def head (major n : Nat) : List UInt8 :=
  headOf major (widthFor n) n

/-! ## Reading -/

def splitOctets (count : Nat) (s : List UInt8) : Except Defect (List UInt8 × List UInt8) :=
  if count ≤ s.length then .ok (s.take count, s.drop count) else .error .truncated

theorem length_of_splitOctets {count : Nat} {s octets rest : List UInt8}
    (h : splitOctets count s = .ok (octets, rest)) : rest.length ≤ s.length := by
  unfold splitOctets at h
  split at h
  · cases h
    simp
  · cases h

def argumentIn (width : Nat) (s : List UInt8) : Except Defect (Argument × List UInt8) := do
  let (octets, rest) ← splitOctets width s
  return (.given width (Octets.toNat octets), rest)

/-- The argument that the information of the first octet announces, with what follows it. -/
def argument (information : Nat) (s : List UInt8) : Except Defect (Argument × List UInt8) :=
  if information < 24 then .ok (.given 0 information, s)
  else if information = 24 then argumentIn 1 s
  else if information = 25 then argumentIn 2 s
  else if information = 26 then argumentIn 4 s
  else if information = 27 then argumentIn 8 s
  else if information = 31 then .ok (.indefinite, s)
  else .error .reservedHead

def readHead : List UInt8 → Except Defect (Head × List UInt8)
  | [] => .error .truncated
  | first :: s => do
    let (arg, rest) ← argument (first.toNat % 32) s
    return (⟨first.toNat / 32, arg⟩, rest)

theorem length_of_argumentIn {width : Nat} {s rest : List UInt8} {arg : Argument}
    (h : argumentIn width s = .ok (arg, rest)) : rest.length ≤ s.length := by
  obtain ⟨⟨octets, tail⟩, hSplit, hPure⟩ := Outcome.bind_eq_ok.1 h
  cases hPure
  exact length_of_splitOctets hSplit

theorem length_of_argument {information : Nat} {s rest : List UInt8} {arg : Argument}
    (h : argument information s = .ok (arg, rest)) : rest.length ≤ s.length := by
  unfold argument at h
  split at h
  · cases h
    exact Nat.le_refl _
  · iterate 4
      split at h
      · exact length_of_argumentIn h
    split at h
    · cases h
      exact Nat.le_refl _
    · cases h

theorem length_of_readHead {s rest : List UInt8} {hd : Head} (h : readHead s = .ok (hd, rest)) :
    rest.length < s.length := by
  cases s with
  | nil => cases h
  | cons first s =>
    obtain ⟨⟨arg, tail⟩, hArgument, hPure⟩ := Outcome.bind_eq_ok.1 h
    cases hPure
    exact Nat.lt_succ_of_le (length_of_argument hArgument)

end NinjaFile.Cbor
