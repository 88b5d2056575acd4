import Mathlib.Algebra.Group.Int.Defs
import NinjaFile.Manifest.Exchange
import NinjaFile.Proofs.Cbor.Encoded
import NinjaFile.Proofs.Manifest.Documents

/-!
# Manifests through CBOR

A manifest that comes from a document or from CBOR is exported to octets that are
read as the same manifest (`ofCbor_toCbor`). Here the data may also have integers
of any size, and byte strings and integers for keys.

The reader opens no more than `Cbor.depthLimit` containers. A manifest that was
read is nested no deeper than what it was read from, and that of a document is
nested five deep at most.
-/

namespace NinjaFile

open Cbor (nesting)

namespace Value

theorem suits_isDatum : Suits isDatum isKey where
  key _ := rfl
  text _ := rfl
  bool _ := rfl
  version := rfl

theorem hasScalars_isDatum : HasScalars isDatum := by
  intro s _ _
  cases s <;> rfl

end Value

/-! ## Nesting -/

namespace Cbor

theorem nesting_array_le {vs : List Value} {inner : Nat} (h : ∀ v ∈ vs, nesting v ≤ inner) :
    nesting (.array vs) ≤ inner + 1 := by
  rw [nesting]
  have hItems := itemsNesting_le.2 h
  split <;> omega

theorem nesting_record_le {fs : List (String × Value)} {inner : Nat}
    (h : ∀ f ∈ fs, nesting f.2 ≤ inner) : nesting (.record fs) ≤ inner + 1 := by
  have hEntries : entriesNesting (Value.named fs) ≤ inner := by
    apply entriesNesting_le.2
    intro e he
    obtain ⟨f, hf, rfl⟩ := List.mem_map.1 he
    exact ⟨Nat.zero_le inner, h f hf⟩
  rw [Value.record, nesting]
  split <;> omega

theorem nesting_lt_of_mem {es : List (Value × Value)} {k v : Value} (h : (k, v) ∈ es) :
    nesting v < nesting (.map es) := by
  have hEntries : nesting v ≤ entriesNesting es :=
    (entriesNesting_le.1 (Nat.le_refl _) (k, v) h).2
  have hLength := List.length_pos_of_mem h
  rw [nesting, if_neg (by omega)]
  omega

theorem nesting_texts_le (names : List String) : nesting (.texts names) ≤ 1 := by
  apply nesting_array_le
  intro v hv
  obtain ⟨s, -, rfl⟩ := List.mem_map.1 hv
  exact Nat.le_refl 0

end Cbor

theorem Scalar.nesting_toValue_le (s : Scalar) : nesting s.toValue ≤ 1 := by
  cases s with
  | int n => exact Cbor.nesting_int_le n
  | text | bool => exact Nat.zero_le 1

theorem Flag.nesting_toValue_le (f : Flag) : nesting f.toValue ≤ 1 := by
  cases f with
  | int n => exact Cbor.nesting_int_le n
  | float x =>
      rw [toValue, Value.ofFloat]
      split <;> exact Nat.zero_le 1
  | text | bool => exact Nat.zero_le 1

theorem Rule.nesting_record_le (r : Rule) : nesting (.record r.fields) ≤ 2 :=
  Cbor.nesting_record_le (r.forall_fields (P := fun v => nesting v ≤ 1) (fun _ => Nat.zero_le 1)
    fun f _ => f.nesting_toValue_le)

theorem Edge.nesting_record_le (e : Edge) : nesting (.record e.fields) ≤ 3 := by
  refine Cbor.nesting_record_le (e.forall_fields (P := fun v => nesting v ≤ 2)
    (fun _ => Nat.zero_le 2) ?_ ?_)
  · exact fun names => Nat.le_trans (Cbor.nesting_texts_le names) (by decide)
  · intro v hv
    rw [mem_bindingsValue? hv]
    apply Cbor.nesting_record_le
    intro f hf
    obtain ⟨b, -, rfl⟩ := List.mem_map.1 hf
    exact b.2.nesting_toValue_le

theorem Binding.nesting_record_le (b : Binding) : nesting (.record b.fields) ≤ 2 := by
  refine Cbor.nesting_record_le ?_
  simp only [fields, List.forall_mem_cons, List.not_mem_nil, false_implies, implies_true, and_true]
  exact ⟨b.name.nesting_toValue_le, b.value.nesting_toValue_le⟩

namespace Manifest

variable {m : Manifest}

theorem nesting_toValue_le {inner : Nat} (hVersion : nesting m.schemaVersion = 0)
    (hRules : nesting (records m.rules) ≤ inner) (hEdges : nesting (records m.edges) ≤ inner)
    (hBindings : nesting (records m.bindings) ≤ inner) : nesting m.toValue ≤ inner + 1 :=
  Cbor.nesting_record_le (m.forall_fields (P := fun v => nesting v ≤ inner)
    (Nat.le_trans (Nat.le_of_eq hVersion) (Nat.zero_le inner)) (fun _ => Nat.zero_le inner)
    hRules hEdges hBindings)

theorem Data.nesting_version {atom key : Value → Bool} (h : m.Data atom key) :
    nesting m.schemaVersion = 0 := by
  rcases h.version with hVersion | hVersion <;> rw [hVersion] <;> rfl

theorem nesting_ofDocument {d : Document} (h : ofDocument d = .ok m) : nesting m.toValue ≤ 5 := by
  obtain ⟨digest, -, hManifest⟩ := Outcome.bind_eq_ok.1 h
  cases hManifest
  have records {α : Type} (xs : List α) {f : α → List (String × Value)}
      (hRecords : ∀ x, nesting (.record (f x)) ≤ 3) :
      nesting (records (xs.map fun x => Value.named (f x))) ≤ 4 := by
    apply Cbor.nesting_array_le
    intro v hv
    obtain ⟨x, -, rfl⟩ := exists_of_mem_records hv
    exact hRecords x
  refine nesting_toValue_le rfl (records _ ?_) (records _ ?_) (records _ ?_)
  · exact fun r => Nat.le_succ_of_le r.nesting_record_le
  · exact Edge.nesting_record_le
  · exact fun b => Nat.le_succ_of_le b.nesting_record_le

/-! ## Sources -/

/-- A manifest of a document or of CBOR, without fractional numbers and without the kinds of values
that only CBOR has, but for byte strings. -/
inductive CborSource (m : Manifest) : Prop where
  | built {d : Document} (reachable : d.Reachable)
      (flags : ∀ r ∈ d.rules, ∀ f ∈ r.flags, f.toValue.isDatum = true)
      (taken : ofDocument d = .ok m)
  | read {octets : List UInt8} (accepted : ofCbor octets = .ok m)
      (whole : m.MadeOf Value.isDatum Value.isKey)

theorem exists_of_ofCbor {octets : List UInt8} (h : ofCbor octets = .ok m) :
    ∃ es, Cbor.Sound Cbor.depthLimit (.map es) ∧ ReadFrom es m := by
  unfold ofCbor at h
  split at h
  · cases h
  · rename_i v hDecode
    obtain ⟨⟨w, rest⟩, hRead, hEq⟩ := Outcome.map_eq_ok.1 hDecode
    cases hEq
    obtain ⟨es, rfl, hFrom⟩ := exists_of_ofValue h
    exact ⟨es, Cbor.sound_of_readItem hRead, hFrom⟩

theorem CborSource.data (h : m.CborSource) : m.Data Value.isDatum Value.isKey := by
  cases h with
  | built reachable flags taken =>
      exact data_ofDocument Value.suits_isDatum Value.hasScalars_isDatum reachable flags taken
  | read accepted whole =>
      obtain ⟨es, hSound, hFrom⟩ := exists_of_ofCbor accepted
      refine whole.data (fun v hv => hv) hFrom ?_
      intro k v hMem hMade
      cases hSound.keyed with
      | atom isAtom => cases isAtom
      | map distinct values => exact (values (k, v) hMem).data (fun _ h => h) hMade

theorem CborSource.nesting_le (h : m.CborSource) : nesting m.toValue ≤ Cbor.depthLimit := by
  have hVersion := h.data.nesting_version
  cases h with
  | built reachable flags taken => exact Nat.le_trans (nesting_ofDocument taken) (by decide)
  | read accepted whole =>
      obtain ⟨es, hSound, hFrom⟩ := exists_of_ofCbor accepted
      have found {v : Value} (hFound : Found es v) : nesting v ≤ 399 := by
        rcases hFound with rfl | ⟨k, hMem⟩
        · exact Nat.zero_le 399
        · exact Nat.le_of_lt_succ (Nat.lt_of_lt_of_le (Cbor.nesting_lt_of_mem hMem) hSound.nested)
      exact nesting_toValue_le hVersion (found hFrom.rules) (found hFrom.edges)
        (found hFrom.bindings)

/-! ## There and back -/

theorem Data.ofCbor_eq (h : m.Data Value.isDatum Value.isKey)
    (hNesting : nesting m.toValue ≤ Cbor.depthLimit)
    (hLength : m.toCbor.length < 0x10000000000000000) :
    ofCbor m.toCbor = .ok (m.inOrder Cbor.codeLe) := by
  have hRead := Cbor.readItem_encode (h.data_toValue Value.suits_isDatum) hNesting hLength []
  rw [List.append_nil] at hRead
  rw [ofCbor, toCbor, Cbor.decode, hRead]
  exact h.ofValue_inOrder Cbor.codeLe

/-- **CBOR keeps manifests.** The export of a manifest of a document or of CBOR is accepted again,
as the same manifest. The lengths in CBOR are below two to the sixty-fourth, so an export has to be
shorter than that, as every list of octets in memory is. -/
theorem ofCbor_toCbor (h : m.CborSource) (hLength : m.toCbor.length < 0x10000000000000000) :
    ∃ back, ofCbor m.toCbor = .ok back ∧ back.Same m :=
  ⟨_, h.data.ofCbor_eq h.nesting_le hLength, h.data.same_inOrder Cbor.codeLe⟩

/-- The manifest of a small document with an integer for a flag that no argument holds. -/
theorem ofCbor_toCbor_small :
    ∃ m, ofDocument (Document.small (.int (2 ^ 64)) (some ["a", "b"]) (.bool true)) = .ok m ∧
      ∃ back, ofCbor m.toCbor = .ok back ∧ back.Same m := by
  have hReachable := Document.reachable_small (.int (2 ^ 64)) ["a", "b"] (.bool true)
  refine ⟨_, rfl, ofCbor_toCbor (.built hReachable ?_ rfl) ?_⟩
  · intro r hr f hf
    cases List.mem_singleton.1 hr
    cases List.mem_singleton.1 hf
    rfl
  · rw [toCbor, Cbor.length_encode]
    decide +kernel

end Manifest

end NinjaFile
