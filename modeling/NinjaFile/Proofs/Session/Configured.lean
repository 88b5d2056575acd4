import NinjaFile.Proofs.Config
import NinjaFile.Proofs.Session.History

/-!
# Sessions from tables

A session that a table configures begins with a document that has the preamble of the
table and nothing else. So the manifest of this document has just the entries of the
table that are not null, under the same names (`Config.preamble_perm`), and its text has
a line for each (`Config.render_document`). From there on the session goes on like one
that was created with the version, the build directory and the flag of the table, and
whose first steps declare the header and the default target (`Run.startsFrom_of_table`).

What the table has is read off it here without the checks (`Config.textAt?`,
`Config.flagAt`). A table that passed them describes its configuration, and what is read
off is then what the configuration has (`Config.textAt?_of_hasText`).
-/

namespace NinjaFile

namespace Config

/-! ## Reading a table -/

def textAt? (table : Json) (key : String) : Option String :=
  match table.get? key with
  | some (.text s) => some s
  | _ => none

/-- The truth value that a table has under a key; without one it is false. -/
def flagAt (table : Json) (key : String) : Bool :=
  match table.get? key with
  | some (.bool b) => b
  | _ => false

theorem textAt?_of_hasText {table : Json} {key : String} {text : Option String}
    (h : HasText table key text) : textAt? table key = text := by
  cases text with
  | none =>
      rcases h with h | h
      · rw [textAt?, h]
      · rw [textAt?, h]
  | some s => rw [textAt?, h.1]

theorem flagAt_of_hasFlag {table : Json} {key : String} {b : Bool} (h : HasFlag table key b) :
    flagAt table key = b := by
  rcases h with h | ⟨h, rfl⟩
  · rw [flagAt, h]
  · rw [flagAt, h]

/-! ## The preamble -/

def preambleKeys : List String := ["required_version", "build_dir", "header", "default"]

def shown? : Json → Option Value
  | .null => none
  | v => some (.ofJson v)

def shownEntry? (entry : String × Json) : Option (String × Value) :=
  (shown? entry.2).map (entry.1, ·)

/-- The entries of a table that belong to the preamble and are not null. -/
def preamble : Json → List (String × Value)
  | .object members =>
    (members.filter fun entry => preambleKeys.contains entry.1).filterMap shownEntry?
  | _ => []

theorem bind_shownEntry? {members : List (String × Json)} {key : String} {text : Option String}
    (h : HasText (.object members) key text) :
    ((Entries.find? (· == ·) key members).map (key, ·)).bind shownEntry? =
      text.map fun s => (key, .text s) := by
  have hMember : Json.get? (.object members) key = Entries.find? (· == ·) key members := rfl
  rw [← hMember]
  cases text with
  | none =>
      rcases h with h | h
      · rw [h]
        rfl
      · rw [h]
        rfl
  | some s =>
      rw [h.1]
      rfl

theorem optionalField_text (key : String) (text : Option String) :
    Value.optionalField key (text.map .text) = (text.map fun s => (key, Value.text s)).toList := by
  cases text <;> rfl

/-- **The preamble of a configuration** has the entries of its table that are not null. -/
theorem preamble_perm {members : List (String × Json)} {c : Config}
    (hDistinct : (members.map Prod.fst).Nodup) (h : Describes (.object members) c) :
    (preamble (.object members)).Perm
      (Value.optionalField "required_version" (c.requiredVersion.map .text) ++
        Value.optionalField "build_dir" (c.buildDir.map .text) ++
        Value.optionalField "header" (c.header.map .text) ++
        Value.optionalField "default" (c.defaultTarget.map .text)) := by
  have hKeys : preambleKeys.Nodup := by decide
  have hEntries := (Entries.filter_perm_filterMap_find? hDistinct hKeys).filterMap shownEntry?
  refine hEntries.trans (List.Perm.of_eq ?_)
  rw [List.filterMap_filterMap, List.filterMap_eq_flatMap_toList]
  simp only [preambleKeys, List.flatMap_cons, List.flatMap_nil, bind_shownEntry? h.requiredVersion,
    bind_shownEntry? h.buildDir, bind_shownEntry? h.header, bind_shownEntry? h.defaultTarget,
    optionalField_text, List.append_assoc, List.append_nil]

def preambleTexts (table : Json) : List String :=
  (textAt? table "header").toList.map (· ++ "\n\n") ++
    (textAt? table "required_version").toList.map ("ninja_required_version = " ++ · ++ "\n") ++
    (textAt? table "build_dir").toList.map ("builddir=" ++ · ++ "\n") ++
    (textAt? table "default").toList.map ("default " ++ · ++ "\n")

theorem optionalPiece_eq (before after : String) (text : Option String) :
    Document.optionalPiece before after text =
      (text.toList.map fun s => before ++ s ++ after).map .ok := by
  cases text <;> rfl

/-- **The text of a document with a preamble only.** -/
theorem render_document {table : Json} {c : Config} (h : Describes table c) :
    c.document.render = .ok (String.join (preambleTexts table)) := by
  have hPieces : c.document.pieces = (preambleTexts table).map .ok := by
    rw [preambleTexts, textAt?_of_hasText h.header, textAt?_of_hasText h.requiredVersion,
      textAt?_of_hasText h.buildDir, textAt?_of_hasText h.defaultTarget]
    simp [document, Document.pieces, optionalPiece_eq]
  rw [Document.render, hPieces, Piece.join_map_ok]
  rfl

end Config

namespace Manifest

/-- The fields of a manifest without the digest, where nothing but the preamble is declared. -/
def undeclared : List (String × Value) :=
  [("schema_version", .int 1), ("rules", .array []), ("edges", .array []), ("bindings", .array [])]

theorem filter_fields_of_config {c : Config} {m : Manifest} (h : ofDocument c.document = .ok m) :
    m.fields.filter (·.1 != "digest") = undeclared ++
      (Value.optionalField "required_version" (c.requiredVersion.map .text) ++
        Value.optionalField "build_dir" (c.buildDir.map .text) ++
        Value.optionalField "header" (c.header.map .text) ++
        Value.optionalField "default" (c.defaultTarget.map .text)) := by
  obtain ⟨digest, -, hManifest⟩ := Outcome.bind_eq_ok.1 h
  cases hManifest
  have hOptional {name : String} (hName : name ≠ "digest") (value : Option Value) :
      (Value.optionalField name value).filter (·.1 != "digest") = Value.optionalField name value := by
    cases value with
    | none => rfl
    | some v => simp [Value.optionalField, hName]
  simp only [fields, List.filter_append]
  rw [hOptional (by decide), hOptional (by decide), hOptional (by decide), hOptional (by decide)]
  simp only [List.append_assoc]
  rfl

end Manifest

namespace Run

def configured (c : Config) (journal : Journal) (storage : Storage) : Run where
  session := { Session.ofConfig c journal with storage }

def created (version buildDir : Option String) (onlyIfChanged : Bool) (journal : Journal)
    (storage : Storage) : Run where
  session := { document := { version, buildDir }, onlyIfChanged, journal, storage }

def preambleSteps (table : Json) : List Step :=
  (Config.textAt? table "header").toList.map (fun text => .edit (.header (some text))) ++
    (Config.textAt? table "default").toList.map fun name => .edit (.defaultTarget (some name))

theorem steps_append (r : Run) (before after : List Step) :
    r.steps (before ++ after) =
      (((r.steps before).1.steps after).1,
        (r.steps before).2 ++ ((r.steps before).1.steps after).2) := by
  induction before generalizing r with
  | nil => rfl
  | cons s before ih =>
      show (((r.step s).1.steps (before ++ after)).1,
        (r.step s).2 :: ((r.step s).1.steps (before ++ after)).2) = _
      rw [ih]
      rfl

/-- **The steps of the preamble** lead from a session without a configuration to the configured
one. -/
theorem steps_preambleSteps {table : Json} {c : Config} (h : Config.Describes table c)
    (journal : Journal) (storage : Storage) :
    (created c.requiredVersion c.buildDir c.onlyIfChanged journal storage).steps
        (preambleSteps table) =
      (configured c journal storage, (preambleSteps table).map fun _ => .done) := by
  rw [preambleSteps, Config.textAt?_of_hasText h.header, Config.textAt?_of_hasText h.defaultTarget]
  obtain ⟨requiredVersion, buildDir, header, defaultTarget, onlyIfChanged⟩ := c
  cases header <;> cases defaultTarget <;> rfl

structure StartsFrom (table : Json) (start : Run) : Prop where
  /-- But for the digest, the manifest has the entries of the table that are not null, and nothing is
  declared. -/
  manifest : ∃ m, Manifest.ofDocument start.session.document = .ok m ∧
    (m.fields.filter (·.1 != "digest")).Perm (Manifest.undeclared ++ Config.preamble table)
  /-- The text has each entry in its place. -/
  text : start.session.document.render = .ok (String.join (Config.preambleTexts table))
  /-- Whatever comes next is answered, and ends, as in a session that was created with the version,
  the build directory and the flag, and in which the header and the default target were declared. -/
  steps : ∀ steps,
    (created (Config.textAt? table "required_version") (Config.textAt? table "build_dir")
        (Config.flagAt table "only_if_changed") start.session.journal start.session.storage).steps
          (preambleSteps table ++ steps) =
      ((start.steps steps).1, (preambleSteps table).map (fun _ => .done) ++ (start.steps steps).2)

/-- **A table reaches the session as it is.** -/
theorem startsFrom_of_table {table : Json} {c : Config} (hDistinct : table.keys.Nodup)
    (hTable : Config.ofJson table = .ok c) (journal : Journal) (storage : Storage) :
    StartsFrom table (configured c journal storage) := by
  obtain ⟨members, rfl⟩ : ∃ members, table = .object members := by
    cases table with
    | object members => exact ⟨members, rfl⟩
    | _ => cases hTable
  obtain ⟨-, hDescribes⟩ := Config.describes_of_ofMembers hTable
  have hText := Config.render_document hDescribes
  constructor
  case manifest =>
    obtain ⟨m, hTaken⟩ := Manifest.exists_ofDocument hText
    refine ⟨m, hTaken, ?_⟩
    rw [Manifest.filter_fields_of_config hTaken]
    exact (Config.preamble_perm hDistinct hDescribes).symm.append_left _
  case text => exact hText
  case steps =>
    intro steps
    rw [Config.textAt?_of_hasText hDescribes.requiredVersion,
      Config.textAt?_of_hasText hDescribes.buildDir,
      Config.flagAt_of_hasFlag hDescribes.onlyIfChanged]
    show (created c.requiredVersion c.buildDir c.onlyIfChanged journal storage).steps _ = _
    rw [steps_append, steps_preambleSteps hDescribes]

def settings : List (String × Json) :=
  [("default", .text "all"), ("only_if_changed", .bool true), ("header", .null),
    ("build_dir", .text "out")]

/-- The second save is skipped, since the table has the flag. -/
theorem startsFrom_of_table_small :
    (Json.object settings).keys.Nodup ∧
      ∃ c, Config.ofJson (.object settings) = .ok c ∧
        Config.preamble (.object settings) = [("default", .text "all"), ("build_dir", .text "out")] ∧
        StartsFrom (.object settings) (configured c {} {}) ∧
        ((configured c {} {}).steps [.save ⟨["build.ninja"]⟩ none none,
          .save ⟨["build.ninja"]⟩ none none]).1.session.journal.records.map (·.operation) =
            ["save", "save_skipped"] := by
  have hDistinct : (Json.object settings).keys.Nodup := by decide
  have hNone : Config.unknownKeys settings = [] := Config.unknownKeys_eq_nil.2 (by decide)
  have hRead : Config.ofJson (.object settings) =
      .ok { buildDir := some "out", defaultTarget := some "all", onlyIfChanged := true } := by
    rw [Config.ofJson, Config.ofMembers, hNone]
    rfl
  exact ⟨hDistinct, _, hRead, by rfl, startsFrom_of_table hDistinct hRead {} {}, by decide +kernel⟩

end Run

end NinjaFile
