import NinjaFile.Proofs.Manifest.Fields
import NinjaFile.Proofs.Value.FromJson

/-!
# Payloads that are manifests

What a payload must be and have to be a manifest is a list of requirements
(`Requirement.all`). A manifest is read exactly when all are met, and else the fault is
the one of the first that is not; what is read are the values that the requirements are
about (`outcome_of_payload`).

Reading goes field by field and keeps what it finds. If all that is kept is forgotten,
reading is nothing but the checks of the requirements one after the other
(`forget_ofValue`), so which fault comes first follows for any list of checks, and what
remains is one statement for each kind of requirement.
-/

namespace NinjaFile

def Json.get? (payload : Json) (name : String) : Option Json :=
  match payload with
  | .object members => Entries.find? (· == ·) name members
  | _ => none

theorem Json.Tidy.getD_get? {payload : Json} (h : payload.Tidy Numeral.limit true) (name : String) :
    ((payload.get? name).getD .null).Tidy Numeral.limit true := by
  cases h with
  | @object members distinct tidy =>
      cases hFind : Entries.find? (· == ·) name members with
      | none =>
          rw [Json.get?, hFind]
          exact .null
      | some v =>
          rw [Json.get?, hFind]
          exact tidy _ ((Entries.find?_eq_some distinct).1 hFind)
  | _ => exact .null

namespace Manifest

/-! ## Requirements -/

inductive Requirement where
  | object
  | version
  | digest
  | text (name : String)
  | records (name : String)
  deriving DecidableEq, Repr

/-- The payload has the text under the name; where there is no text, it has nothing there or
null. -/
def HasText (payload : Json) (name : String) : Option String → Prop
  | some s => payload.get? name = some (.text s)
  | none => payload.get? name = none ∨ payload.get? name = some .null

/-- The payload has a list of objects under the name, and the records are all their entries. It may
have nothing there, which is no records. -/
def HasRecords (payload : Json) (name : String) (rs : List (List (Value × Value))) : Prop :=
  payload.get? name = none ∧ rs = [] ∨
    ∃ objects : List (List (String × Json)),
      payload.get? name = some (.array (objects.map .object)) ∧
        rs = objects.map Value.ofJsonMembers

structure Describes (payload : Json) (m : Manifest) : Prop where
  schemaVersion : (payload.get? "schema_version").map .ofJson = some m.schemaVersion
  digest : payload.get? "digest" = some (.text m.digest)
  requiredVersion : HasText payload "required_version" m.requiredVersion
  buildDir : HasText payload "build_dir" m.buildDir
  header : HasText payload "header" m.header
  defaultTarget : HasText payload "default" m.defaultTarget
  rules : HasRecords payload "rules" m.rules
  edges : HasRecords payload "edges" m.edges
  bindings : HasRecords payload "bindings" m.bindings

/-- The text of the version of a payload in a message. A version that is left out is shown like
null. -/
def versionText (payload : Json) : String :=
  match (Value.ofJson ((payload.get? "schema_version").getD .null)).display with
  | .ok shown => shown
  | .error _ => ""

namespace Requirement

/-- All requirements, in the order in which they are checked. -/
def all : List Requirement :=
  [.object, .version, .digest, .text "required_version", .text "build_dir", .text "header",
    .text "default", .records "rules", .records "edges", .records "bindings"]

def name? : Requirement → Option String
  | .object => none
  | .version => some "schema_version"
  | .digest => some "digest"
  | .text name => some name
  | .records name => some name

def Met (payload : Json) : Requirement → Prop
  | .object => ∃ members, payload = .object members
  | .version => ∃ v, payload.get? "schema_version" = some v ∧
      (v = .int 1 ∨ v = .bool true ∨ v = .float .one)
  | .digest => ∃ s, payload.get? "digest" = some (.text s) ∧ s ≠ ""
  | .text name => ∃ text, HasText payload name text
  | .records name => ∃ rs, HasRecords payload name rs

def defect (payload : Json) : Requirement → Defect
  | .object => .notMapping
  | .version => .schemaVersion (versionText payload)
  | .digest => .field "digest"
  | .text name => .field name
  | .records name => .field name

def entriesOf : Value → List (Value × Value)
  | .map entries => entries
  | _ => []

def checkMap : Value → Except Fault Unit
  | .map _ => .ok ()
  | _ => refuse .notMapping

def checkVersion (version : Value) : Except Fault Unit := do
  if version.agrees (.int schema) then .ok ()
  else
    let shown ← Fault.ofOverlong version.display
    refuse (.schemaVersion shown)

/-- The check of a requirement: the field is read, and what it holds is forgotten. -/
def check (v : Value) : Requirement → Except Fault Unit
  | .object => checkMap v
  | .version => checkVersion ((Value.field? "schema_version" (entriesOf v)).getD .null)
  | .digest => (digestField (entriesOf v)).map fun _ => ()
  | .text name => (textField name (entriesOf v)).map fun _ => ()
  | .records name => (recordsField name (entriesOf v)).map fun _ => ()

end Requirement

open Requirement (entriesOf checkMap checkVersion check)

/-! ## Reading and checking -/

/-- **Reading is checking** if what is read is forgotten. -/
theorem forget_ofValue (v : Value) :
    (ofValue v).map (fun _ => ()) = forM Requirement.all (check v) := by
  cases v with
  | map es =>
      -- the value is a map, so that the first check succeeds
      show (ofEntries es).map (fun _ => ()) =
        check (.map es) .version >>= fun _ => forM (Requirement.all.drop 2) (check (.map es))
      by_cases hVersion :
          ((Value.field? "schema_version" es).getD .null).agrees (.int schema) = true
      · simp only [ofEntries, check, checkVersion, entriesOf, hVersion, if_true]
        -- what follows a field does not depend on what it holds
        repeat refine Outcome.map_bind_const fun _ => ?_
        rfl
      · simp only [ofEntries, check, checkVersion, entriesOf, hVersion]
        cases Fault.ofOverlong ((Value.field? "schema_version" es).getD .null).display <;> rfl
  | _ => rfl

theorem exists_ofValue_iff {v : Value} :
    (∃ m, ofValue v = .ok m) ↔ ∀ r ∈ Requirement.all, check v r = .ok () :=
  Outcome.exists_ok_of_forget (forget_ofValue v)

theorem ofValue_eq_error {v : Value} {before after : List Requirement} {r : Requirement}
    {fault : Fault} (hAll : Requirement.all = before ++ r :: after)
    (hBefore : ∀ q ∈ before, check v q = .ok ()) (h : check v r = .error fault) :
    ofValue v = .error fault :=
  Outcome.eq_error_of_forget (forget_ofValue v) hAll hBefore h

/-! ## One field -/

theorem field?_entriesOf (payload : Json) (name : String) :
    Value.field? name (entriesOf (.ofJson payload)) = (payload.get? name).map .ofJson := by
  cases payload with
  | object members => exact Value.field?_ofJsonMembers name members
  | float x =>
      rw [Value.ofJson]
      rcases Value.ofFloat_cases x with hFloat | hFloat <;> rw [hFloat] <;> rfl
  | _ => rfl

theorem asRecords?_iff {items : List Json} {rs : List (List (Value × Value))} :
    asRecords? (Value.ofJsonItems items) = some rs ↔
      ∃ objects : List (List (String × Json)),
        items = objects.map .object ∧ rs = objects.map Value.ofJsonMembers := by
  constructor
  · intro h
    induction items generalizing rs with
    | nil =>
        cases h
        exact ⟨[], rfl, rfl⟩
    | cons item items ih =>
        cases item with
        | object members =>
            obtain ⟨others, hOthers, rfl⟩ := Option.map_eq_some_iff.1 h
            obtain ⟨objects, rfl, rfl⟩ := ih hOthers
            exact ⟨members :: objects, rfl, rfl⟩
        | float x =>
            rw [Value.ofJsonItems, Value.ofJson] at h
            rcases Value.ofFloat_cases x with hFloat | hFloat <;> rw [hFloat] at h <;> cases h
        | _ => cases h
  · rintro ⟨objects, rfl, rfl⟩
    induction objects with
    | nil => rfl
    | cons members objects ih =>
        rw [List.map_cons, Value.ofJsonItems, Value.ofJson, asRecords?, ih]
        rfl

section

variable {payload : Json} {name : String} {es : List (Value × Value)}

theorem digestField_iff (hField : Value.field? "digest" es = (payload.get? "digest").map .ofJson)
    {digest : String} :
    digestField es = .ok digest ↔ payload.get? "digest" = some (.text digest) ∧ digest ≠ "" := by
  rw [digestField, hField]
  cases hGet : payload.get? "digest" with
  | none => simp [refuse]
  | some v =>
      cases v with
      | text s =>
          by_cases hEmpty : s = ""
          · simp only [Option.map_some, Value.ofJson, if_pos hEmpty]
            constructor
            · intro h
              cases h
            · rintro ⟨hSame, hDigest⟩
              cases hSame
              exact absurd hEmpty hDigest
          · simp only [Option.map_some, Value.ofJson, if_neg hEmpty]
            constructor
            · intro h
              cases h
              exact ⟨rfl, hEmpty⟩
            · rintro ⟨hSame, -⟩
              cases hSame
              rfl
      | float x =>
          rcases Value.ofFloat_cases x with hFloat | hFloat <;>
            simp [Value.ofJson, hFloat, refuse]
      | _ => simp [Value.ofJson, refuse]

variable (hField : Value.field? name es = (payload.get? name).map .ofJson)

include hField

theorem textField_iff {text : Option String} :
    textField name es = .ok text ↔ HasText payload name text := by
  rw [textField, hField]
  cases hGet : payload.get? name with
  | none => cases text <;> simp [HasText, hGet]
  | some v =>
      cases v with
      | float x =>
          rcases Value.ofFloat_cases x with hFloat | hFloat <;>
            cases text <;> simp [HasText, hGet, Value.ofJson, hFloat, refuse]
      | _ => cases text <;> simp [HasText, hGet, Value.ofJson, refuse]

theorem recordsField_iff {rs : List (List (Value × Value))} :
    recordsField name es = .ok rs ↔ HasRecords payload name rs := by
  rw [recordsField, hField]
  cases hGet : payload.get? name with
  | none => simp [HasRecords, hGet, eq_comm]
  | some v =>
      cases v with
      | array items =>
          have hHas : HasRecords payload name rs ↔
              asRecords? (Value.ofJsonItems items) = some rs := by
            simp [HasRecords, hGet, asRecords?_iff]
          rw [hHas]
          simp only [Option.map_some, Value.ofJson]
          split
          · rename_i found hFound
            simp [hFound]
          · rename_i hNone
            simp [hNone, refuse]
      | float x =>
          rcases Value.ofFloat_cases x with hFloat | hFloat <;>
            simp [HasRecords, hGet, Value.ofJson, hFloat, refuse]
      | _ => simp [HasRecords, hGet, Value.ofJson, refuse]

end

/-! ## What is refused -/

theorem digestField_cases (es : List (Value × Value)) :
    (∃ digest, digestField es = .ok digest) ∨ digestField es = refuse (.field "digest") := by
  unfold digestField
  split
  · split
    · exact Or.inr rfl
    · exact Or.inl ⟨_, rfl⟩
  · exact Or.inr rfl

theorem textField_cases (name : String) (es : List (Value × Value)) :
    (∃ text, textField name es = .ok text) ∨ textField name es = refuse (.field name) := by
  unfold textField
  split
  · exact Or.inl ⟨_, rfl⟩
  · exact Or.inl ⟨_, rfl⟩
  · exact Or.inl ⟨_, rfl⟩
  · exact Or.inr rfl

theorem recordsField_cases (name : String) (es : List (Value × Value)) :
    (∃ rs, recordsField name es = .ok rs) ∨ recordsField name es = refuse (.field name) := by
  unfold recordsField
  split
  · exact Or.inl ⟨_, rfl⟩
  · split
    · exact Or.inl ⟨_, rfl⟩
    · exact Or.inr rfl
  · exact Or.inr rfl

theorem checkMap_cases (v : Value) : checkMap v = .ok () ∨ checkMap v = refuse .notMapping := by
  unfold checkMap
  split
  · exact Or.inl rfl
  · exact Or.inr rfl

theorem checkVersion_eq_ok {version : Value} :
    checkVersion version = .ok () ↔ version.agrees (.int schema) = true := by
  unfold checkVersion
  split
  · rename_i hVersion
    exact iff_of_true rfl hVersion
  · rename_i hVersion
    refine iff_of_false ?_ hVersion
    intro h
    cases hDisplay : version.display <;> rw [hDisplay] at h <;> cases h

theorem checkVersion_cases {version : Value} {shown : String}
    (hShown : version.display = .ok shown) :
    checkVersion version = .ok () ∨ checkVersion version = refuse (.schemaVersion shown) := by
  unfold checkVersion
  split
  · exact Or.inl rfl
  · rw [hShown]
    exact Or.inr rfl

/-! ## One requirement -/

theorem getD_schemaVersion (payload : Json) :
    (Value.field? "schema_version" (entriesOf (.ofJson payload))).getD .null =
      .ofJson ((payload.get? "schema_version").getD .null) := by
  rw [field?_entriesOf]
  cases payload.get? "schema_version" <;> rfl

/-- **The check of a requirement** succeeds exactly when the payload meets it. -/
theorem check_eq_ok {payload : Json} {r : Requirement} :
    check (.ofJson payload) r = .ok () ↔ r.Met payload := by
  cases r with
  | object =>
      cases payload with
      | object members => exact iff_of_true rfl ⟨members, rfl⟩
      | float x =>
          rcases Value.ofFloat_cases x with hFloat | hFloat <;>
            simp [check, checkMap, Requirement.Met, refuse, Value.ofJson, hFloat]
      | _ => simp [check, checkMap, Requirement.Met, refuse, Value.ofJson]
  | version =>
      rw [check, getD_schemaVersion, checkVersion_eq_ok, Requirement.Met]
      cases hGet : payload.get? "schema_version" with
      | none => exact iff_of_false (by decide) (by simp)
      | some v =>
          simp only [Option.getD_some, Option.some.injEq, exists_eq_left']
          exact Value.agrees_one_iff
  | digest =>
      rw [check, Outcome.forget_eq_ok]
      exact exists_congr fun _ => digestField_iff (field?_entriesOf payload _)
  | text name =>
      rw [check, Outcome.forget_eq_ok]
      exact exists_congr fun _ => textField_iff (field?_entriesOf payload _)
  | records name =>
      rw [check, Outcome.forget_eq_ok]
      exact exists_congr fun _ => recordsField_iff (field?_entriesOf payload _)

/-- **A check that fails** does so by the defect of its requirement. -/
theorem check_cases {payload : Json} (hTidy : payload.Tidy Numeral.limit true) (r : Requirement) :
    check (.ofJson payload) r = .ok () ∨ check (.ofJson payload) r = refuse (r.defect payload) := by
  cases r with
  | object => exact checkMap_cases _
  | version =>
      obtain ⟨shown, -, hShown⟩ := Value.exists_display (hTidy.getD_get? "schema_version")
      rw [check, getD_schemaVersion, Requirement.defect, versionText, hShown]
      exact checkVersion_cases hShown
  | digest => exact Outcome.forget_cases (digestField_cases _)
  | text name => exact Outcome.forget_cases (textField_cases _ _)
  | records name => exact Outcome.forget_cases (recordsField_cases _ _)

/-! ## Whole payloads -/

/-- **A payload describes what is read from it.** -/
theorem describes_of_ofValue {payload : Json} {m : Manifest}
    (h : ofValue (.ofJson payload) = .ok m) : Describes payload m := by
  obtain ⟨version, hVersion, -⟩ : Requirement.version.Met payload :=
    check_eq_ok.1 (exists_ofValue_iff.1 ⟨m, h⟩ _ (by decide))
  cases hMap : Value.ofJson payload with
  | map es =>
      have hField (name : String) : Value.field? name es = (payload.get? name).map .ofJson := by
        rw [← field?_entriesOf, hMap]
        rfl
      rw [hMap] at h
      have parsed := parsed_of_ofEntries h
      constructor
      case schemaVersion =>
        rw [← parsed.schemaVersion, hField, hVersion]
        rfl
      case digest => exact ((digestField_iff (hField _)).1 parsed.digest).1
      case requiredVersion => exact (textField_iff (hField _)).1 parsed.requiredVersion
      case buildDir => exact (textField_iff (hField _)).1 parsed.buildDir
      case header => exact (textField_iff (hField _)).1 parsed.header
      case defaultTarget => exact (textField_iff (hField _)).1 parsed.defaultTarget
      case rules => exact (recordsField_iff (hField _)).1 parsed.rules
      case edges => exact (recordsField_iff (hField _)).1 parsed.edges
      case bindings => exact (recordsField_iff (hField _)).1 parsed.bindings
  | _ =>
      rw [hMap] at h
      cases h

theorem ofValue_toValue {v : Value} {m : Manifest} (h : ofValue v = .ok m) :
    ofValue m.toValue = .ok m := by
  obtain ⟨es, -, hRead⟩ := exists_of_ofValue h
  exact m.carries_fields.ofEntries hRead.version hRead.digest

/-- Only what is under the names of the requirements is looked at. -/
theorem ofEntries_congr {es fs : List (Value × Value)}
    (h : ∀ r ∈ Requirement.all, ∀ name ∈ r.name?, Value.field? name es = Value.field? name fs) :
    ofEntries es = ofEntries fs := by
  simp only [Requirement.all, List.forall_mem_cons, Requirement.name?, Option.mem_def,
    Option.some.injEq, forall_eq'] at h
  obtain ⟨-, hVersion, hDigest, hRequiredVersion, hBuildDir, hHeader, hDefault, hRules, hEdges,
    hBindings, -⟩ := h
  simp only [ofEntries, digestField, textField, recordsField, hVersion, hDigest, hRequiredVersion,
    hBuildDir, hHeader, hDefault, hRules, hEdges, hBindings]

theorem ofValue_congr {ms ns : List (String × Json)} (hDistinct : (ms.map Prod.fst).Nodup)
    (hDistinct' : (ns.map Prod.fst).Nodup)
    (h : ∀ r ∈ Requirement.all, ∀ name ∈ r.name?, ∀ v, (name, v) ∈ ms ↔ (name, v) ∈ ns) :
    ofValue (.ofJson (.object ms)) = ofValue (.ofJson (.object ns)) := by
  apply ofEntries_congr
  intro r hr name hName
  rw [Value.field?_ofJsonMembers, Value.field?_ofJsonMembers]
  refine congrArg _ (Option.ext fun v => ?_)
  rw [Entries.find?_eq_some hDistinct, Entries.find?_eq_some hDistinct']
  exact h r hr name hName v

/-! ## Refusals -/

section

variable {payload : Json} (hTidy : payload.Tidy Numeral.limit true)

include hTidy

/-- A payload is refused for the first requirement that it does not meet. -/
theorem ofValue_of_unmet {before after : List Requirement} {r : Requirement}
    (hAll : Requirement.all = before ++ r :: after) (hBefore : ∀ q ∈ before, q.Met payload)
    (hNot : ¬ r.Met payload) :
    ofValue (.ofJson payload) = .error (.diagnostic (r.defect payload).diagnostic) := by
  have hFails := (check_cases hTidy r).resolve_left (mt check_eq_ok.1 hNot)
  exact ofValue_eq_error hAll (fun q hq => check_eq_ok.2 (hBefore q hq)) hFails

theorem shown_versionText :
    ((payload.get? "schema_version").getD .null).Shown (versionText payload) := by
  obtain ⟨shown, hShown, hDisplay⟩ := Value.exists_display (hTidy.getD_get? "schema_version")
  rw [versionText, hDisplay]
  exact hShown

end

structure Answered (payload : Json) (result : Except Fault Manifest) : Prop where
  /-- There is a manifest exactly if the payload meets all requirements. -/
  accepted : (∃ m, result = .ok m) ↔ ∀ r ∈ Requirement.all, r.Met payload
  /-- It has what the payload has. -/
  described : ∀ m, result = .ok m → Describes payload m
  /-- Its own value is accepted again, as the same manifest. -/
  again : ∀ m, result = .ok m → ofValue m.toValue = .ok m
  /-- What is no object is refused as that. -/
  notObject : (∀ members, payload ≠ .object members) → result = .error (.diagnostic
    { code := .manifest
      message := "Invalid manifest payload type."
      hint := none
      context := [] })
  /-- An object of another version is refused with the version that it has. -/
  version : (∃ members, payload = .object members) → ¬ Requirement.version.Met payload →
    ∃ shown, ((payload.get? "schema_version").getD .null).Shown shown ∧
      result = .error (.diagnostic
        { code := .manifest
          message := "Unsupported manifest schema version."
          hint := some "Regenerate the manifest with schema version 1."
          context := [("schema_version", shown)] })
  /-- Else the first field that is not as required is named. -/
  field : ∀ before r after, Requirement.all = [.object, .version] ++ before ++ r :: after →
    (∀ q ∈ [.object, .version] ++ before, q.Met payload) → ¬ r.Met payload →
      ∀ name ∈ r.name?, result = .error (.diagnostic
        { code := .manifest
          message := "Invalid manifest " ++ "`" ++ name ++ "`" ++ " value."
          hint := none
          context := [] })
  /-- Neither the order of the members matters nor what there is under other names. -/
  reordered : ∀ ms ns, payload = .object ms → (Json.object ns).Tidy Numeral.limit true →
    (∀ r ∈ Requirement.all, ∀ name ∈ r.name?, ∀ v, (name, v) ∈ ms ↔ (name, v) ∈ ns) →
      ofValue (.ofJson (.object ns)) = result

/-- The requirements behind the first two are those that name a field. -/
theorem diagnostic_of_field (payload : Json) {before after : List Requirement} {r : Requirement}
    (hAll : Requirement.all = [.object, .version] ++ before ++ r :: after) {name : String}
    (hName : name ∈ r.name?) :
    (r.defect payload).diagnostic =
      { code := .manifest, message := "Invalid manifest " ++ "`" ++ name ++ "`" ++ " value." } := by
  cases r with
  | digest | text | records =>
      cases hName
      rfl
  | object => cases hName
  | version =>
      -- the version is required once only
      have hCount := congrArg (List.count Requirement.version) hAll
      simp [Requirement.all] at hCount

/-- **Exactly the payloads that meet all requirements are manifests**, and any other is refused for
the first requirement that it does not meet. -/
theorem outcome_of_payload {payload : Json} (hTidy : payload.Tidy Numeral.limit true) :
    Answered payload (ofValue (.ofJson payload)) := by
  constructor
  case accepted =>
    rw [exists_ofValue_iff]
    exact forall₂_congr fun _ _ => check_eq_ok
  case described => exact fun m h => describes_of_ofValue h
  case again => exact fun m h => ofValue_toValue h
  case notObject =>
    intro h
    have hAll : Requirement.all = [] ++ .object :: Requirement.all.drop 1 := rfl
    have hNot : ¬ Requirement.object.Met payload := fun ⟨members, hMembers⟩ => h members hMembers
    rw [ofValue_of_unmet hTidy hAll (List.forall_mem_nil _) hNot]
    rfl
  case version =>
    intro hObject hNot
    have hAll : Requirement.all = [.object] ++ .version :: Requirement.all.drop 2 := rfl
    refine ⟨versionText payload, shown_versionText hTidy, ?_⟩
    rw [ofValue_of_unmet hTidy hAll (List.forall_mem_singleton.2 hObject) hNot]
    rfl
  case field =>
    intro before r after hAll hBefore hNot name hName
    rw [ofValue_of_unmet hTidy hAll hBefore hNot, diagnostic_of_field payload hAll hName]
  case reordered =>
    rintro ms ns rfl hTidy' hSame
    cases hTidy with
    | object distinct =>
        cases hTidy' with
        | object distinct' => exact (ofValue_congr distinct distinct' hSame).symm

/-- A payload with a truth value for its version, a header that is null and one rule. -/
def smallPayload : Json :=
  .object [("note", .int 7), ("digest", .text "d"), ("header", .null),
    ("rules", .array [.object [("name", .text "cc"), ("restat", .bool false)]]),
    ("schema_version", .bool true)]

theorem tidy_smallPayload : smallPayload.Tidy Numeral.limit true := by
  refine .object (by decide) ?_
  simp only [List.forall_mem_cons, List.not_mem_nil, false_implies, implies_true, and_true]
  refine ⟨.int (by decide), .text _, .null, .array ?_, .bool _⟩
  rw [List.forall_mem_singleton]
  refine .object (by decide) ?_
  simp only [List.forall_mem_cons, List.not_mem_nil, false_implies, implies_true, and_true]
  exact ⟨.text _, .bool _⟩

/-- A payload whose version is a list, which is looked at before its digest. -/
def laterPayload : Json :=
  .object [("digest", .null),
    ("schema_version", .array [.int (-2), .text "b'3"])]

theorem tidy_laterPayload : laterPayload.Tidy Numeral.limit true := by
  refine .object (by decide) ?_
  rw [List.forall_mem_cons, List.forall_mem_singleton]
  refine ⟨.null, .array ?_⟩
  rw [List.forall_mem_cons, List.forall_mem_singleton]
  exact ⟨.int (by decide), .text _⟩

/-- A payload with two defects: a number for the build directory, and null for the rules. -/
def flawedPayload : Json :=
  .object [("rules", .null), ("build_dir", .int 3), ("digest", .text "d"),
    ("schema_version", .float .one)]

theorem tidy_flawedPayload : flawedPayload.Tidy Numeral.limit true := by
  refine .object (by decide) ?_
  simp only [List.forall_mem_cons, List.not_mem_nil, false_implies, implies_true, and_true]
  exact ⟨.null, .int (by decide), .text _, .float rfl _⟩

theorem outcome_of_payload_small :
    (∃ m, ofValue (.ofJson smallPayload) = .ok m ∧ Describes smallPayload m ∧
      m.schemaVersion = .bool true ∧ m.header = none ∧
      m.rules = [[(.text "name", .text "cc"), (.text "restat", .bool false)]] ∧ m.edges = [] ∧
      ofValue m.toValue = .ok m) ∧
    ofValue (.ofJson (.array [smallPayload])) = .error (.diagnostic
      { code := .manifest, message := "Invalid manifest payload type." }) ∧
    ofValue (.ofJson laterPayload) = .error (.diagnostic
      { code := .manifest
        message := "Unsupported manifest schema version."
        hint := some "Regenerate the manifest with schema version 1."
        context := [("schema_version", "[-2, \"b'3\"]")] }) ∧
    ofValue (.ofJson flawedPayload) = .error (.diagnostic
      { code := .manifest, message := "Invalid manifest " ++ "`" ++ "build_dir" ++ "`" ++ " value." })
    := by
  refine ⟨?_, ?_, ?_, ?_⟩
  · have hAnswered := outcome_of_payload tidy_smallPayload
    exact ⟨_, rfl, hAnswered.described _ rfl, rfl, rfl, rfl, rfl, hAnswered.again _ rfl⟩
  · have hArray : (Json.array [smallPayload]).Tidy Numeral.limit true :=
      .array (List.forall_mem_singleton.2 tidy_smallPayload)
    apply (outcome_of_payload hArray).notObject
    intro members h
    cases h
  · have hVersion : ¬ Requirement.version.Met laterPayload := by
      rintro ⟨v, hGet, hOne⟩
      cases hGet
      simp at hOne
    obtain ⟨shown, hShown, hRefused⟩ :=
      (outcome_of_payload tidy_laterPayload).version ⟨_, rfl⟩ hVersion
    have hNoText (s : String) : Json.array [.int (-2), .text "b'3"] ≠ .text s := by
      intro h
      cases h
    have hList := Json.Shown.part hNoText (.array (.cons (.int _) (.cons (.text _) .nil)))
    have hText : shown = "[-2, \"b'3\"]" := by
      rw [Json.Shown.unique (tidy_laterPayload.getD_get? _) hShown hList]
      decide +kernel
    rw [hRefused, hText]
  · refine (outcome_of_payload tidy_flawedPayload).field [.digest, .text "required_version"]
      (.text "build_dir") _ rfl ?_ ?_ _ rfl
    · simp only [List.cons_append, List.nil_append, List.forall_mem_cons, List.not_mem_nil,
        false_implies, implies_true, and_true]
      exact ⟨⟨_, rfl⟩, ⟨_, rfl, .inr (.inr rfl)⟩, ⟨"d", rfl, by decide⟩, ⟨none, .inl rfl⟩⟩
    · rintro ⟨_ | text, h⟩
      · rcases h with h | h <;> cases h
      · cases h

end Manifest

end NinjaFile
