import NinjaFile.Proofs.Cbor.Canonical
import NinjaFile.Proofs.Manifest.Json

/-!
# Canonical exports

Manifests of documents and of JSON texts have equal exports exactly when they are
the same, in either form (`exports_canonical`). One direction is that both forms put
entries in order, so what is the same becomes equal before it is written; the other
that what is written comes back.

A manifest that only keeps the entries of such a manifest in another order has its
exports, wherever it comes from.
-/

namespace NinjaFile

namespace Value

theorem isDatum_of_isShort {limit : Nat} (v : Value) (h : v.isShort limit = true) :
    v.isDatum = true := by
  cases v <;> first | rfl | cases h

theorem isKey_of_isText (v : Value) (h : v.isText = true) : v.isKey = true := by
  cases v <;> first | rfl | cases h

end Value

namespace Manifest

variable {m n : Manifest}

/-- No map in the records has two keys that agree. -/
structure Keyed (m : Manifest) : Prop where
  rules : (records m.rules).Keyed
  edges : (records m.edges).Keyed
  bindings : (records m.bindings).Keyed

theorem Data.of_same {atom key : Value → Bool} (hKey : ∀ k, key k = true → k.isKey = true)
    (h : m.Data atom key) (hSame : m.Same n) (hKeyed : n.Keyed) : n.Data atom key where
  version := hSame.schemaVersion ▸ h.version
  digest := hSame.digest ▸ h.digest
  rules := hKeyed.rules.data hKey (h.rules.madeOf.of_same hSame.rules)
  edges := hKeyed.edges.data hKey (h.edges.madeOf.of_same hSame.edges)
  bindings := hKeyed.bindings.data hKey (h.bindings.madeOf.of_same hSame.bindings)

/-! ## Either export -/

theorem Data.toJson_eq_iff (hm : m.Data (Value.isShort Numeral.limit) Value.isText)
    (hn : n.Data (Value.isShort Numeral.limit) Value.isText) : m.toJson = n.toJson ↔ m.Same n := by
  constructor
  · intro h
    rw [hm.toJson_eq, hn.toJson_eq] at h
    have hOrder := congrArg ofJson (Except.ok.inj h)
    rw [hm.ofJson_eq, hn.ofJson_eq] at hOrder
    have hBack := hn.same_inOrder Value.nameLe
    rw [← Except.ok.inj hOrder] at hBack
    exact (hm.same_inOrder Value.nameLe).symm.trans hBack
  · intro h
    have hOrder := (hm.same_iff_toValue_inOrder Value.nameLe_trans Value.nameLe_total
      Value.nameLe_antisymm hn).1 h
    rw [hm.toJson_eq, hn.toJson_eq, hOrder]

/-- Unlike `ofCbor` this has no limit on how deep the records are nested. -/
theorem Data.toCbor_eq_iff (hm : m.Data (Value.isShort Numeral.limit) Value.isText)
    (hn : n.Data (Value.isShort Numeral.limit) Value.isText)
    (hLength : m.toCbor.length < 0x10000000000000000) : m.toCbor = n.toCbor ↔ m.Same n := by
  have encoded {m : Manifest} (hm : m.Data (Value.isShort Numeral.limit) Value.isText) :
      m.toValue.Data Value.isDatum Value.isKey :=
    (hm.data_toValue (Value.suits_isShort (by decide))).mono Value.isDatum_of_isShort
      Value.isKey_of_isText
  rw [toCbor, toCbor, Cbor.encode_eq_iff (encoded hm) (encoded hn) hLength]
  exact (hm.same_iff_toValue_inOrder Cbor.codeLe_trans Cbor.codeLe_total Cbor.codeLe_antisymm
    hn).symm

/-! ## Both exports -/

/-- **Both exports are canonical.** Manifests of documents and of JSON texts can be exported, and
have the same JSON text, or the same CBOR octets, exactly when they are the same. In particular it
does not matter in which order any map in a record keeps its entries. -/
theorem exports_canonical (hm : m.JsonSource) (hn : n.JsonSource)
    (hLength : m.toCbor.length < 0x10000000000000000) :
    (∃ text, m.toJson = .ok text) ∧ (∃ text, n.toJson = .ok text) ∧
      (m.toJson = n.toJson ↔ m.Same n) ∧ (m.toCbor = n.toCbor ↔ m.Same n) ∧
      ∀ other : Manifest, other.Keyed → m.Same other →
        other.toJson = m.toJson ∧ other.toCbor = m.toCbor := by
  refine ⟨⟨_, hm.data.toJson_eq⟩, ⟨_, hn.data.toJson_eq⟩, hm.data.toJson_eq_iff hn.data,
    hm.data.toCbor_eq_iff hn.data hLength, ?_⟩
  intro other hKeyed hSame
  have hOther := hm.data.of_same Value.isKey_of_isText hSame hKeyed
  constructor
  · exact ((hm.data.toJson_eq_iff hOther).2 hSame).symm
  · exact ((hm.data.toCbor_eq_iff hOther hLength).2 hSame).symm

/-- Two small documents that are written alike have exports that tell the number one from a truth
value. -/
theorem exports_canonical_small :
    ∃ m n, ofDocument (Document.small (.int 1) (some []) (.int 1)) = .ok m ∧
      ofDocument (Document.small (.bool true) (some []) (.int 1)) = .ok n ∧
      m.digest = n.digest ∧ m.toJson ≠ n.toJson ∧ m.toCbor ≠ n.toCbor := by
  have source (flag : Flag) (hShort : flag.toValue.isShort Numeral.limit = true) {m : Manifest}
      (h : ofDocument (Document.small flag (some []) (.int 1)) = .ok m) : m.JsonSource := by
    refine .built (Document.reachable_small flag [] (.int 1)) ?_ h
    intro r hr f hf
    cases List.mem_singleton.1 hr
    cases List.mem_singleton.1 hf
    exact hShort
  have differ {m n : Manifest}
      (hm : ofDocument (Document.small (.int 1) (some []) (.int 1)) = .ok m)
      (hn : ofDocument (Document.small (.bool true) (some []) (.int 1)) = .ok n) : ¬m.Same n := by
    intro h
    cases flag_of_same_small hm hn h
  obtain ⟨-, -, hJson, hCbor, -⟩ := exports_canonical (source (.int 1) (by decide) rfl)
    (source (.bool true) (by decide) rfl) (by rw [toCbor, Cbor.length_encode]; decide +kernel)
  exact ⟨_, _, rfl, rfl, rfl, fun h => differ rfl rfl (hJson.1 h),
    fun h => differ rfl rfl (hCbor.1 h)⟩

end Manifest

end NinjaFile
