import Mathlib.Data.List.Induction
import NinjaFile.Proofs.Binary.Doubles
import NinjaFile.Rule

/-!
# What changes make of a rule

A rule is declared with some values and changed any number of times. Each change gives
one field a value, and what counts in the end is the value that was given last
(`Rule.edits_eq_declared`); none given, the rule keeps the one it was declared with. So
it does not matter in which order different fields are changed, nor how often.

Text and record show the fields in one order (`Rule.Field.all`). The text has lines for
an optional text that is there and for a flag that holds, the record an entry for
whatever is there (`Rule.text_eq`, `Rule.fields_eq`). Flags that are given need not
hold: `Flag.zeros` has all that do not.
-/

namespace NinjaFile

/-! ## Flags -/

namespace Flag

/-- The flags that do not hold: the truth value, zero as an integer and as a fractional number with
either sign, and the empty text. -/
def zeros : List Flag :=
  [.bool false, .int 0, .float ⟨0⟩, .float ⟨0x8000000000000000⟩, .text ""]

/-- Does a flag that may be unset count as set? -/
def counts : Option Flag → Bool
  | none => false
  | some flag => decide (flag ∉ zeros)

/-- A double stands for zero when it has no bit but for the sign. -/
theorem holds_float_eq_false {x : Binary64} :
    (float x).holds = false ↔ x = ⟨0⟩ ∨ x = ⟨0x8000000000000000⟩ := by
  constructor
  · intro h
    cases hx : x.datum with
    | nan | infinite =>
        simp only [holds, hx] at h
        cases h
    | finite negative significand exponent =>
        simp only [holds, hx, bne_eq_false_iff_eq] at h
        obtain ⟨-, ⟨hField, hFraction, -⟩ | ⟨-, hLeading, -⟩⟩ := Binary64.parts_of_datum hx
        · have hBound := x.bits.toNat_lt
          have hBits : x.bits.toNat = 0 ∨ x.bits.toNat = 0x8000000000000000 := by omega
          cases x
          exact hBits.imp (fun h => congrArg _ (UInt64.toNat_inj.1 h))
            fun h => congrArg _ (UInt64.toNat_inj.1 h)
        · omega
  · rintro (rfl | rfl) <;> rfl

theorem holds_iff {flag : Flag} : flag.holds = true ↔ flag ∉ zeros := by
  cases flag with
  | bool b => cases b <;> decide
  | int n => simp [holds, zeros]
  | float x =>
      rw [← Bool.not_eq_false, holds_float_eq_false]
      simp [zeros]
  | text s => simp [holds, zeros]

theorem counts_some (flag : Flag) : counts (some flag) = flag.holds := by
  rw [Bool.eq_iff_iff, holds_iff]
  exact decide_eq_true_iff

end Flag

namespace Rule

/-! ## Changes -/

namespace Edit

def command? : Edit → Option String
  | .command text => some text
  | _ => none

def description? : Edit → Option (Option String)
  | .description text => some text
  | _ => none

def depfile? : Edit → Option (Option String)
  | .depfile file => some file
  | _ => none

def restat? : Edit → Option (Option Flag)
  | .restat flag => some flag
  | _ => none

def generator? : Edit → Option (Option Flag)
  | .generator flag => some flag
  | _ => none

def pool? : Edit → Option (Option String)
  | .pool name => some name
  | _ => none

end Edit

def edits (r : Rule) (changes : List Edit) : Rule :=
  changes.foldl edit r

structure Given where
  command : Option String := none
  description : Option (Option String) := none
  depfile : Option (Option String) := none
  restat : Option (Option Flag) := none
  generator : Option (Option Flag) := none
  pool : Option (Option String) := none
  deriving DecidableEq

def lastGiven (changes : List Edit) : Given where
  command := (changes.filterMap Edit.command?).getLast?
  description := (changes.filterMap Edit.description?).getLast?
  depfile := (changes.filterMap Edit.depfile?).getLast?
  restat := (changes.filterMap Edit.restat?).getLast?
  generator := (changes.filterMap Edit.generator?).getLast?
  pool := (changes.filterMap Edit.pool?).getLast?

/-- The rule that is declared like another one, but for the values that are given. -/
def declared (r : Rule) (given : Given) : Rule where
  name := r.name
  command := given.command.getD r.command
  description := given.description.getD r.description
  depfile := given.depfile.getD r.depfile
  restat := given.restat.getD r.restat
  generator := given.generator.getD r.generator
  pool := given.pool.getD r.pool

/-- **One change** gives one field the value that counts from now on. -/
theorem edit_declared (r : Rule) (changes : List Edit) (change : Edit) :
    (r.declared (lastGiven changes)).edit change =
      r.declared (lastGiven (changes ++ [change])) := by
  cases change <;>
    simp only [edit, declared, lastGiven, List.filterMap_append, List.filterMap_cons,
      List.filterMap_nil, Edit.command?, Edit.description?, Edit.depfile?, Edit.restat?,
      Edit.generator?, Edit.pool?, List.append_nil, List.getLast?_concat, Option.getD_some]

theorem edits_concat (r : Rule) (changes : List Edit) (change : Edit) :
    r.edits (changes ++ [change]) = (r.edits changes).edit change := by
  rw [edits, List.foldl_append]
  rfl

/-- **All changes.** The rule is the one that is declared with the last values. -/
theorem edits_eq_declared (r : Rule) (changes : List Edit) :
    r.edits changes = r.declared (lastGiven changes) := by
  induction changes using List.reverseRecOn with
  | nil => rfl
  | append_singleton changes change ih => rw [edits_concat, ih, edit_declared]

/-! ## Text and record -/

inductive Field where
  | name
  | command
  | description
  | restat
  | generator
  | pool
  | depfile
  deriving DecidableEq

namespace Field

def all : List Field := [.name, .command, .description, .restat, .generator, .pool, .depfile]

def key : Field → String
  | .name => "name"
  | .command => "command"
  | .description => "description"
  | .restat => "restat"
  | .generator => "generator"
  | .pool => "pool"
  | .depfile => "depfile"

/-- The value of a field in the record of a rule, if it is there. -/
def value? (r : Rule) : Field → Option Value
  | .name => some (.text r.name)
  | .command => some (.text r.command)
  | .description => r.description.map .text
  | .restat => r.restat.map Flag.toValue
  | .generator => r.generator.map Flag.toValue
  | .pool => r.pool.map .text
  | .depfile => r.depfile.map .text

def lines (r : Rule) : Field → List String
  | .name => ["rule " ++ r.name]
  | .command => ["  command = " ++ r.command]
  | .description => r.description.elim [] fun text => ["  description = " ++ text]
  | .restat => if Flag.counts r.restat then ["  restat = 1"] else []
  | .generator => if Flag.counts r.generator then ["  generator = 1"] else []
  | .pool => r.pool.elim [] fun pool => ["  pool = " ++ pool]
  | .depfile => r.depfile.elim [] fun file => ["  depfile = " ++ file, "  deps = gcc"]

end Field

def textOfLines (lines : List String) : String :=
  String.join (lines.map (· ++ "\n"))

theorem textOfLines_append (a b : List String) :
    textOfLines (a ++ b) = textOfLines a ++ textOfLines b := by
  rw [textOfLines, List.map_append, String.join_append]
  rfl

theorem textOfLines_optional (key front : String) (h : front = "  " ++ key ++ " = ")
    (value : Option String) :
    textOfLines (value.elim [] fun v => [front ++ v]) = optionalLine key value := by
  cases value with
  | none => rfl
  | some v =>
      rw [h]
      simp [textOfLines, optionalLine, line]

theorem textOfLines_flag (key front : String) (h : front ++ "\n" = line key "1")
    (flag : Option Flag) :
    textOfLines (if Flag.counts flag then [front] else []) = flagLine key flag := by
  cases flag with
  | none => rfl
  | some f =>
      rw [Flag.counts_some]
      cases hHolds : f.holds with
      | false => simp [flagLine, hHolds, textOfLines]
      | true => simp [flagLine, hHolds, textOfLines, h]

theorem textOfLines_depfile (file : Option String) :
    textOfLines (file.elim [] fun file => ["  depfile = " ++ file, "  deps = gcc"]) =
      depfileLines file := by
  cases file with
  | none => rfl
  | some file => simp [textOfLines, depfileLines, line]

/-- **The text** has the lines of the fields in their order. -/
theorem text_eq (r : Rule) : r.text = textOfLines (Field.all.flatMap (Field.lines r)) := by
  have hName : textOfLines ["rule " ++ r.name] = "rule " ++ r.name ++ "\n" := by
    simp [textOfLines]
  have hCommand : textOfLines ["  command = " ++ r.command] = line "command" r.command := by
    simp [textOfLines, line]
  have hDescription : textOfLines (Field.lines r .description) =
      optionalLine "description" r.description :=
    textOfLines_optional "description" "  description = " rfl _
  have hRestat : textOfLines (Field.lines r .restat) = flagLine "restat" r.restat :=
    textOfLines_flag "restat" "  restat = 1" rfl _
  have hGenerator : textOfLines (Field.lines r .generator) = flagLine "generator" r.generator :=
    textOfLines_flag "generator" "  generator = 1" rfl _
  have hPool : textOfLines (Field.lines r .pool) = optionalLine "pool" r.pool :=
    textOfLines_optional "pool" "  pool = " rfl _
  have hDepfile : textOfLines (Field.lines r .depfile) = depfileLines r.depfile :=
    textOfLines_depfile _
  calc r.text
    _ = textOfLines ["rule " ++ r.name] ++ textOfLines ["  command = " ++ r.command] ++
          textOfLines (Field.lines r .description) ++ textOfLines (Field.lines r .restat) ++
          textOfLines (Field.lines r .generator) ++ textOfLines (Field.lines r .pool) ++
          textOfLines (Field.lines r .depfile) := by
      rw [hName, hCommand, hDescription, hRestat, hGenerator, hPool, hDepfile, text]
    _ = textOfLines (Field.all.flatMap (Field.lines r)) := by
      rw [← textOfLines_append, ← textOfLines_append, ← textOfLines_append, ← textOfLines_append,
        ← textOfLines_append, ← textOfLines_append]
      congr 1
      simp only [Field.all, List.flatMap_cons, List.flatMap_nil, List.append_nil,
        List.append_assoc, Field.lines]

theorem filterMap_value? (r : Rule) (fs : List Field) :
    (fs.filterMap fun f => (f.value? r).map fun v => (f.key, v)) =
      fs.flatMap fun f => Value.optionalField f.key (f.value? r) := by
  induction fs with
  | nil => rfl
  | cons f fs ih =>
      rw [List.filterMap_cons, List.flatMap_cons, ← ih]
      cases f.value? r <;> rfl

/-- **The record** has the values of the fields in their order. -/
theorem fields_eq (r : Rule) :
    r.fields = Field.all.filterMap fun f => (f.value? r).map fun v => (f.key, v) := by
  rw [filterMap_value?]
  simp only [Field.all, List.flatMap_cons, List.flatMap_nil, List.append_nil, Field.value?,
    Field.key, fields, List.append_assoc]
  rfl

/-! ## Whole histories -/

/-- **A rule is what was last given to its fields.** It is the rule that is declared with the last
values. Its text has the lines of these values in a fixed order, its record the values themselves.
Changes that give the same last values make the same of it, in whatever order they come. -/
theorem edits_by_last_values (start : Rule) (changes : List Edit) :
    let r := start.declared (lastGiven changes)
    start.edits changes = r ∧
      (start.edits changes).text = textOfLines (Field.all.flatMap (Field.lines r)) ∧
      (start.edits changes).fields =
        (Field.all.filterMap fun f => (f.value? r).map fun v => (f.key, v)) ∧
      ∀ others, lastGiven others = lastGiven changes →
        (start.edits others).text = (start.edits changes).text ∧
          (start.edits others).fields = (start.edits changes).fields := by
  intro r
  have hEdits : start.edits changes = r := edits_eq_declared start changes
  refine ⟨hEdits, ?_, ?_, ?_⟩
  · rw [hEdits, text_eq]
  · rw [hEdits, fields_eq]
  · intro others hSame
    have hOthers : start.edits others = start.edits changes := by
      rw [edits_eq_declared, edits_eq_declared, hSame]
    rw [hOthers]
    exact ⟨rfl, rfl⟩

def flagged : Rule := { name := "cc", restat := some (.int 1), depfile := some "d" }

/-- Changes that take the file away again, and give a flag that does not hold for one that does. -/
def sixChanges : List Edit :=
  [.pool (some "slow"), .restat (some (.text "")), .depfile none, .generator (some (.text "0")),
    .pool none, .command "gcc"]

def fourChanges : List Edit :=
  [.command "gcc", .generator (some (.text "0")), .depfile none, .restat (some (.text ""))]

theorem edits_by_last_values_small :
    (flagged.edits sixChanges).text = "rule cc\n  command = gcc\n  generator = 1\n" ∧
      (flagged.edits sixChanges).fields =
        [("name", .text "cc"), ("command", .text "gcc"), ("restat", .text ""),
          ("generator", .text "0")] ∧
      lastGiven (.pool none :: fourChanges) = lastGiven sixChanges ∧
      (flagged.edits (.pool none :: fourChanges)).text = (flagged.edits sixChanges).text := by
  obtain ⟨-, hText, hRecord, hOthers⟩ := edits_by_last_values flagged sixChanges
  have hSame : lastGiven (.pool none :: fourChanges) = lastGiven sixChanges := by decide
  refine ⟨?_, ?_, hSame, (hOthers _ hSame).1⟩
  · rw [hText]
    decide
  · rw [hRecord]
    rfl

end Rule

end NinjaFile
