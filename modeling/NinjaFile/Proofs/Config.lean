import Mathlib.Data.List.Sort
import NinjaFile.Config
import NinjaFile.Proofs.Manifest.Payloads

/-!
# Tables that are configurations

A table may have five settings, each of which it may leave out (`Config.Setting.all`). It
is a configuration exactly when it has no other keys and all that it has under these keys
fits. What is wrong with any other table is said in one of three ways: it is no table,
or it has unknown keys, all of which are named in order whatever else is wrong, or there
is a first setting in the order of reading that does not fit (`Config.outcome_of_table`).

Reading a table without unknown keys is checking its settings one after the other
(`Config.forget_ofMembers`), and the keys that are unknown are a set told in order, so
nothing hangs on the order of the table (`Config.ofJson_of_perm`).
-/

namespace NinjaFile

def Json.keys : Json → List String
  | .object members => members.map Prod.fst
  | _ => []

namespace Config

/-! ## Settings -/

inductive Setting where
  | text (key : String)
  | flag (key : String)
  deriving DecidableEq

/-- A table has the text under the key, and it is not empty; where there is no text, it has nothing
there or null. -/
def HasText (table : Json) (key : String) : Option String → Prop
  | some s => table.get? key = some (.text s) ∧ s ≠ ""
  | none => table.get? key = none ∨ table.get? key = some .null

/-- A table has the truth value under the key, or nothing there and the value is false. -/
def HasFlag (table : Json) (key : String) (b : Bool) : Prop :=
  table.get? key = some (.bool b) ∨ table.get? key = none ∧ b = false

structure Describes (table : Json) (c : Config) : Prop where
  requiredVersion : HasText table "required_version" c.requiredVersion
  buildDir : HasText table "build_dir" c.buildDir
  header : HasText table "header" c.header
  defaultTarget : HasText table "default" c.defaultTarget
  onlyIfChanged : HasFlag table "only_if_changed" c.onlyIfChanged

namespace Setting

/-- All settings, in the order in which they are read. -/
def all : List Setting :=
  [.text "required_version", .text "build_dir", .text "header", .text "default",
    .flag "only_if_changed"]

def key : Setting → String
  | .text key => key
  | .flag key => key

def Fits (table : Json) : Setting → Prop
  | .text key => ∃ text, HasText table key text
  | .flag key => ∃ b, HasFlag table key b

def keys : List String := all.map key

end Setting

/-! ## One setting -/

section

variable {members : List (String × Json)} {name : String}

theorem text?_eq_ok {text : Option String} :
    text? name members = .ok text ↔ HasText (.object members) name text := by
  have hMember : Json.get? (.object members) name = member? name members := rfl
  rw [text?]
  cases text with
  | none =>
      rw [HasText, hMember]
      cases member? name members with
      | none => simp
      | some v =>
          cases v with
          | text s => by_cases hEmpty : s = "" <;> simp [hEmpty]
          | _ => simp
  | some s =>
      rw [HasText, hMember]
      cases member? name members with
      | none => simp
      | some v =>
          cases v with
          | text found =>
              simp only [Option.some.injEq, Json.text.injEq]
              by_cases hEmpty : found = ""
              · rw [if_pos hEmpty, hEmpty]
                simp [eq_comm]
              · rw [if_neg hEmpty, Except.ok.injEq, Option.some.injEq]
                refine (and_iff_left_of_imp ?_).symm
                rintro rfl
                exact hEmpty
          | _ => simp

theorem flag_eq_ok {b : Bool} :
    flag name members = .ok b ↔ HasFlag (.object members) name b := by
  have hMember : Json.get? (.object members) name = member? name members := rfl
  rw [flag, HasFlag, hMember]
  cases member? name members with
  | none => simp [eq_comm]
  | some v => cases v <;> simp

theorem text?_cases (name : String) (members : List (String × Json)) :
    (∃ text, text? name members = .ok text) ∨ text? name members = .error (.value name) := by
  unfold text?
  split
  · exact Or.inl ⟨_, rfl⟩
  · exact Or.inl ⟨_, rfl⟩
  · split
    · exact Or.inr rfl
    · exact Or.inl ⟨_, rfl⟩
  · exact Or.inr rfl

theorem flag_cases (name : String) (members : List (String × Json)) :
    (∃ b, flag name members = .ok b) ∨ flag name members = .error (.value name) := by
  unfold flag
  split
  · exact Or.inl ⟨_, rfl⟩
  · exact Or.inl ⟨_, rfl⟩
  · exact Or.inr rfl

end

/-- The check of a setting: it is read, and what it holds is forgotten. -/
def check (members : List (String × Json)) : Setting → Except Defect Unit
  | .text key => (text? key members).map fun _ => ()
  | .flag key => (flag key members).map fun _ => ()

/-- **The check of a setting** succeeds exactly when what the table has there fits. -/
theorem check_eq_ok {members : List (String × Json)} {s : Setting} :
    check members s = .ok () ↔ s.Fits (.object members) := by
  cases s with
  | text key =>
      rw [check, Outcome.forget_eq_ok]
      exact exists_congr fun _ => text?_eq_ok
  | flag key =>
      rw [check, Outcome.forget_eq_ok]
      exact exists_congr fun _ => flag_eq_ok

/-- **A check that fails** names the key of its setting. -/
theorem check_cases (members : List (String × Json)) (s : Setting) :
    check members s = .ok () ∨ check members s = .error (.value s.key) := by
  cases s with
  | text key => exact Outcome.forget_cases (text?_cases key members)
  | flag key => exact Outcome.forget_cases (flag_cases key members)

/-! ## Unknown keys -/

theorem mem_knownKeys {key : String} : key ∈ knownKeys ↔ key ∈ Setting.keys := by
  have hPerm : knownKeys.Perm Setting.keys := by decide
  exact hPerm.mem_iff

theorem mem_unknownKeys {members : List (String × Json)} {key : String} :
    key ∈ unknownKeys members ↔ key ∈ members.map Prod.fst ∧ key ∉ Setting.keys := by
  rw [unknownKeys, List.mem_mergeSort, List.mem_filter, ← mem_knownKeys]
  simp

theorem unknownKeys_eq_nil {members : List (String × Json)} :
    unknownKeys members = [] ↔ ∀ key ∈ members.map Prod.fst, key ∈ Setting.keys := by
  rw [List.eq_nil_iff_forall_not_mem]
  simp only [mem_unknownKeys, not_and, not_not]

theorem pairwise_unknownKeys {members : List (String × Json)}
    (h : (members.map Prod.fst).Nodup) : (unknownKeys members).Pairwise (· < ·) := by
  have hSorted : (unknownKeys members).Pairwise fun a b => (!decide (b < a)) = true := by
    refine List.pairwise_mergeSort ?_ ?_ _
    · intro a b c hab hbc
      simp only [Bool.not_eq_true', decide_eq_false_iff_not, String.not_lt] at *
      exact String.le_trans hab hbc
    · intro a b
      simp only [Bool.or_eq_true, Bool.not_eq_true', decide_eq_false_iff_not, String.not_lt]
      exact String.le_total a b
  have hNodup : (unknownKeys members).Nodup :=
    (List.mergeSort_perm _ _).nodup_iff.2 (h.filter _)
  refine (hSorted.and hNodup).imp ?_
  rintro a b ⟨hLe, hNe⟩
  simp only [Bool.not_eq_true', decide_eq_false_iff_not, String.not_lt] at hLe
  by_contra hNot
  exact hNe (String.le_antisymm hLe (String.not_lt.1 hNot))

theorem unknownKeys_eq_of_perm {ms ns : List (String × Json)} (h : (ms.map Prod.fst).Nodup)
    (hPerm : ms.Perm ns) : unknownKeys ms = unknownKeys ns := by
  have hKeys := hPerm.map Prod.fst
  refine (pairwise_unknownKeys h).eq_of_mem_iff (pairwise_unknownKeys (hKeys.nodup_iff.1 h)) ?_
  intro key
  rw [mem_unknownKeys, mem_unknownKeys, hKeys.mem_iff]

/-! ## Tables -/

section

variable {members : List (String × Json)}

theorem ofMembers_of_unknown (h : unknownKeys members ≠ []) :
    ofMembers members = .error (.unknownKeys (unknownKeys members)) := by
  rw [ofMembers]
  split
  · rename_i hNone
    exact absurd hNone h
  · rfl

/-- **Reading is checking** if what is read is forgotten. -/
theorem forget_ofMembers (h : unknownKeys members = []) :
    (ofMembers members).map (fun _ => ()) = forM Setting.all (check members) := by
  simp only [ofMembers, h]
  -- what follows a setting does not depend on what it holds
  repeat refine Outcome.map_bind_const fun _ => ?_
  rfl

/-- **A table describes what is read from it.** -/
theorem describes_of_ofMembers {c : Config} (h : ofMembers members = .ok c) :
    unknownKeys members = [] ∧ Describes (.object members) c := by
  rw [ofMembers] at h
  split at h
  · rename_i hNone
    obtain ⟨requiredVersion, hVersion, h⟩ := Outcome.bind_eq_ok.1 h
    obtain ⟨buildDir, hBuildDir, h⟩ := Outcome.bind_eq_ok.1 h
    obtain ⟨header, hHeader, h⟩ := Outcome.bind_eq_ok.1 h
    obtain ⟨defaultTarget, hDefault, h⟩ := Outcome.bind_eq_ok.1 h
    obtain ⟨onlyIfChanged, hFlag, h⟩ := Outcome.bind_eq_ok.1 h
    cases h
    exact ⟨hNone, text?_eq_ok.1 hVersion, text?_eq_ok.1 hBuildDir, text?_eq_ok.1 hHeader,
      text?_eq_ok.1 hDefault, flag_eq_ok.1 hFlag⟩
  · cases h

/-- A table is read exactly when it has no unknown keys and all its settings fit. -/
theorem exists_ofMembers_iff :
    (∃ c, ofMembers members = .ok c) ↔
      (∀ key ∈ members.map Prod.fst, key ∈ Setting.keys) ∧
        ∀ s ∈ Setting.all, s.Fits (.object members) := by
  rw [← unknownKeys_eq_nil]
  constructor
  · rintro ⟨c, h⟩
    have hNone := (describes_of_ofMembers h).1
    have hChecks := (Outcome.exists_ok_of_forget (forget_ofMembers hNone)).1 ⟨c, h⟩
    exact ⟨hNone, fun s hs => check_eq_ok.1 (hChecks s hs)⟩
  · rintro ⟨hNone, hFits⟩
    exact (Outcome.exists_ok_of_forget (forget_ofMembers hNone)).2
      fun s hs => check_eq_ok.2 (hFits s hs)

theorem ofMembers_of_misfit (hNone : unknownKeys members = []) {before after : List Setting}
    {s : Setting} (hAll : Setting.all = before ++ s :: after)
    (hBefore : ∀ q ∈ before, q.Fits (.object members)) (hNot : ¬ s.Fits (.object members)) :
    ofMembers members = .error (.value s.key) := by
  have hFails := (check_cases members s).resolve_left (mt check_eq_ok.1 hNot)
  exact Outcome.eq_error_of_forget (forget_ofMembers hNone) hAll
    (fun q hq => check_eq_ok.2 (hBefore q hq)) hFails

theorem ofMembers_of_perm {others : List (String × Json)} (h : (members.map Prod.fst).Nodup)
    (hPerm : members.Perm others) : ofMembers others = ofMembers members := by
  have hMember (name : String) : member? name others = member? name members := by
    refine Option.ext fun v => ?_
    have hOthers := ((hPerm.map Prod.fst).nodup_iff).1 h
    rw [member?, member?, Entries.find?_eq_some h, Entries.find?_eq_some hOthers, hPerm.mem_iff]
  simp only [ofMembers, unknownKeys_eq_of_perm h hPerm, text?, flag, hMember]

end

/-! ## Answers -/

/-- What comes of a table: a configuration, or the diagnostic of what is wrong. -/
def answer (table : Json) : Except Diagnostic Config :=
  (ofJson table).mapError Defect.diagnostic

structure Answered (table : Json) (result : Except Diagnostic Config) : Prop where
  /-- There is a configuration exactly if a table has nothing but settings that fit. -/
  accepted : (∃ c, result = .ok c) ↔ (∃ members, table = .object members) ∧
    (∀ key ∈ table.keys, key ∈ Setting.keys) ∧ ∀ s ∈ Setting.all, s.Fits table
  /-- It has what the table has. -/
  described : ∀ c, result = .ok c → Describes table c
  /-- What is no table is refused as that. -/
  notMapping : (∀ members, table ≠ .object members) → result = .error
    { code := .config, message := "Generator config must be a mapping." }
  /-- Where there are unknown keys they are named, all and only they, in order. -/
  unknown : ∃ keys : List String, keys.Pairwise (· < ·) ∧
    (∀ key, key ∈ keys ↔ key ∈ table.keys ∧ key ∉ Setting.keys) ∧
    (keys ≠ [] → result = .error
      { code := .config
        message := "Unknown generator config keys."
        hint := some
          "Supported keys: build_dir, default, header, only_if_changed, required_version."
        context := [("keys", ", ".intercalate keys)] })
  /-- Where there are none, the first setting that does not fit is named. -/
  misfit : ∀ members, table = .object members → (∀ key ∈ table.keys, key ∈ Setting.keys) →
    ∀ before s after, Setting.all = before ++ s :: after →
      (∀ q ∈ before, q.Fits table) → ¬ s.Fits table → result = .error
        { code := .config
          message := "Invalid generator config " ++ "`" ++ s.key ++ "`" ++ " value."
          context := [("key", s.key)] }
  /-- The order of the table does not matter. -/
  reordered : ∀ ms ns, table = .object ms → ms.Perm ns → answer (.object ns) = result

theorem answer_eq_ok {table : Json} {c : Config} : answer table = .ok c ↔ ofJson table = .ok c := by
  rw [answer]
  cases ofJson table <;> simp [Except.mapError]

theorem answer_of_error {table : Json} {defect : Defect} (h : ofJson table = .error defect) :
    answer table = .error defect.diagnostic := by
  rw [answer, h]
  rfl

/-- What is no table has no keys and no settings. -/
theorem answered_of_no_object {table : Json} (h : ∀ members, table ≠ .object members) :
    Answered table (answer table) := by
  have hRefused : ofJson table = .error .notMapping := by
    cases table with
    | object members => exact absurd rfl (h members)
    | _ => rfl
  have hKeys : table.keys = [] := by
    cases table with
    | object members => exact absurd rfl (h members)
    | _ => rfl
  have hAnswer := answer_of_error hRefused
  constructor
  case accepted =>
    rw [hAnswer]
    constructor
    · rintro ⟨c, hc⟩
      cases hc
    · rintro ⟨⟨members, hTable⟩, -⟩
      exact absurd hTable (h members)
  case described =>
    rw [hAnswer]
    intro c hc
    cases hc
  case notMapping => exact fun _ => hAnswer
  case unknown => exact ⟨[], List.Pairwise.nil, by simp [hKeys], fun h => absurd rfl h⟩
  case misfit => exact fun members hTable => absurd hTable (h members)
  case reordered => exact fun members _ hTable => absurd hTable (h members)

/-- **What comes of a table** with distinct keys. -/
theorem outcome_of_table {table : Json} (hDistinct : table.keys.Nodup) :
    Answered table (answer table) := by
  by_cases hTable : ∃ members, table = .object members
  · obtain ⟨members, rfl⟩ := hTable
    constructor
    case accepted =>
      simp only [answer_eq_ok]
      rw [and_iff_right ⟨members, rfl⟩]
      exact exists_ofMembers_iff
    case described => exact fun c hc => (describes_of_ofMembers (answer_eq_ok.1 hc)).2
    case notMapping => exact fun h => absurd rfl (h members)
    case unknown =>
      refine ⟨unknownKeys members, pairwise_unknownKeys hDistinct, fun _ => mem_unknownKeys, ?_⟩
      intro hSome
      have hRefused : ofJson (.object members) = .error (.unknownKeys (unknownKeys members)) :=
        ofMembers_of_unknown hSome
      exact answer_of_error hRefused
    case misfit =>
      intro _ _ hKnown before s after hAll hBefore hNot
      have hRefused : ofJson (.object members) = .error (.value s.key) :=
        ofMembers_of_misfit (unknownKeys_eq_nil.2 hKnown) hAll hBefore hNot
      exact answer_of_error hRefused
    case reordered =>
      intro ms ns hSame hPerm
      cases hSame
      exact congrArg (Except.mapError _) (ofMembers_of_perm hDistinct hPerm)
  · exact answered_of_no_object fun members h => hTable ⟨members, h⟩

def fitting : List (String × Json) :=
  [("only_if_changed", .bool true), ("header", .null), ("build_dir", .text "out")]

/-- A table with two unknown keys, out of order, and a number for a text. -/
def strangeTable : Json :=
  .object [("pool", .int 1), ("header", .int 3), ("Jobs", .null)]

/-- A table with null for the flag and an empty text. -/
def unfitTable : Json :=
  .object [("only_if_changed", .null), ("build_dir", .text "")]

theorem outcome_of_table_small :
    ((Json.object fitting).keys.Nodup ∧
      answer (.object fitting) = .ok { buildDir := some "out", onlyIfChanged := true } ∧
      Describes (.object fitting) { buildDir := some "out", onlyIfChanged := true }) ∧
    (strangeTable.keys.Nodup ∧ ∃ d, answer strangeTable = .error d ∧
      d.context = [("keys", "Jobs, pool")]) ∧
    (unfitTable.keys.Nodup ∧ ∃ d, answer unfitTable = .error d ∧
      d.context = [("key", "build_dir")]) := by
  have hFitting : (Json.object fitting).keys.Nodup := by decide
  have hStrange : strangeTable.keys.Nodup := by decide
  have hUnfit : unfitTable.keys.Nodup := by decide
  refine ⟨⟨hFitting, ?_⟩, ⟨hStrange, ?_⟩, ⟨hUnfit, ?_⟩⟩
  · have hNone : unknownKeys fitting = [] := unknownKeys_eq_nil.2 (by decide)
    have hRead : answer (.object fitting) =
        .ok { buildDir := some "out", onlyIfChanged := true } := by
      rw [answer_eq_ok, ofJson, ofMembers, hNone]
      rfl
    exact ⟨hRead, (outcome_of_table hFitting).described _ hRead⟩
  · obtain ⟨keys, hOrder, hKeys, hRefused⟩ := (outcome_of_table hStrange).unknown
    have hUnknown : ∀ key ∈ strangeTable.keys, key ∉ Setting.keys → key ∈ ["Jobs", "pool"] := by
      decide
    have hNamed : ∀ key ∈ ["Jobs", "pool"], key ∈ strangeTable.keys ∧ key ∉ Setting.keys := by
      decide
    have hSame : keys = ["Jobs", "pool"] :=
      hOrder.eq_of_mem_iff (by decide) fun key =>
        (hKeys key).trans ⟨fun h => hUnknown key h.1 h.2, hNamed key⟩
    exact ⟨_, hRefused (by simp [hSame]), by rw [hSame]; decide⟩
  · refine ⟨_, (outcome_of_table hUnfit).misfit _ rfl (by decide) [.text "required_version"]
      (.text "build_dir") _ rfl ?_ ?_, rfl⟩
    · rw [List.forall_mem_singleton]
      exact ⟨none, Or.inl rfl⟩
    · rintro ⟨_ | text, h⟩
      · rcases h with h | h <;> cases h
      · obtain ⟨h, hText⟩ := h
        cases h
        exact hText rfl

end Config

end NinjaFile
