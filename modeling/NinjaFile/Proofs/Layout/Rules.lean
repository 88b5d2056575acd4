import NinjaFile.Proofs.Escaping
import NinjaFile.Rule

/-!
# Rules as blocks

The text of a rule is that of one block, and the block determines what the rule
declares (`Rule.alike_of_block`): the settings have fixed keys, so a field is
looked up by its key. Of a flag the text tells only whether it holds; `Alike` is
equality up to that.
-/

namespace NinjaFile

/-! ## Settings -/

def Block.optional (key : String) : Option String → List (String × String)
  | none => []
  | some value => [(key, value)]

theorem Block.lookup_optional (key other : String) (value : Option String) :
    (Block.optional key value).lookup other = if other = key then value else none := by
  cases value with
  | none => simp [Block.optional]
  | some v =>
      by_cases h : other = key
      · simp [Block.optional, h]
      · have hKey : (other == key) = false := by simpa using h
        simp [Block.optional, hKey, h]

theorem Block.clean_optional {key : String} {value : Option String}
    (hKey : ' ' ∉ key.toList ∧ '\n' ∉ key.toList) (hValue : ∀ v ∈ value, IsLine v) :
    ∀ s ∈ Block.optional key value, Block.CleanSetting s := by
  intro s hs
  cases value with
  | none => cases hs
  | some v =>
      cases List.mem_singleton.1 hs
      exact ⟨hKey.1, hKey.2, hValue v rfl⟩

/-! ## Rules -/

def Flag.isSet : Option Flag → Bool
  | none => false
  | some flag => flag.holds

namespace Rule

structure Legible (r : Rule) : Prop where
  name : IsWord r.name
  command : IsLine r.command
  description : ∀ s ∈ r.description, IsLine s
  depfile : ∀ s ∈ r.depfile, IsLine s
  pool : ∀ s ∈ r.pool, IsLine s

structure Alike (r s : Rule) : Prop where
  name : r.name = s.name
  command : r.command = s.command
  description : r.description = s.description
  depfile : r.depfile = s.depfile
  restat : Flag.isSet r.restat = Flag.isSet s.restat
  generator : Flag.isSet r.generator = Flag.isSet s.generator
  pool : r.pool = s.pool

def flagValue (flag : Option Flag) : Option String :=
  if Flag.isSet flag then some "1" else none

def block (r : Rule) : Block where
  head := "rule " ++ r.name
  settings := [("command", r.command)] ++ Block.optional "description" r.description ++
    Block.optional "restat" (flagValue r.restat) ++
    Block.optional "generator" (flagValue r.generator) ++ Block.optional "pool" r.pool ++
    Block.optional "depfile" r.depfile ++ Block.optional "deps" (r.depfile.map fun _ => "gcc")

theorem toList_line (name value : String) :
    (line name value).toList = unlines [Block.line (name, value)] := by
  simp [line, Block.line]

theorem toList_optionalLine (name : String) (value : Option String) :
    (optionalLine name value).toList = unlines ((Block.optional name value).map Block.line) := by
  cases value with
  | none => rfl
  | some v => exact toList_line name v

theorem toList_flagLine (name : String) (flag : Option Flag) :
    (flagLine name flag).toList =
      unlines ((Block.optional name (flagValue flag)).map Block.line) := by
  cases flag with
  | none => rfl
  | some f =>
      cases hHolds : f.holds with
      | false => simp [flagLine, flagValue, Flag.isSet, Block.optional, hHolds]
      | true =>
          simp only [flagLine, flagValue, Flag.isSet, hHolds, if_true, Block.optional]
          exact toList_line name "1"

theorem toList_depfileLines (file : Option String) :
    (depfileLines file).toList = unlines ((Block.optional "depfile" file ++
      Block.optional "deps" (file.map fun _ => "gcc")).map Block.line) := by
  cases file with
  | none => rfl
  | some f =>
      rw [depfileLines, String.toList_append, toList_line, toList_line, ← unlines_append]
      rfl

theorem toList_text (r : Rule) : r.text.toList = unlines r.block.lines := by
  delta text
  simp only [block, Block.lines, String.toList_append, toList_line, toList_optionalLine,
    toList_flagLine, toList_depfileLines, List.map_append, unlines_cons, unlines_append,
    List.append_assoc, List.map_cons, List.map_nil]
  simp

theorem isLine_flagValue (flag : Option Flag) : ∀ v ∈ flagValue flag, IsLine v := by
  intro v hv
  unfold flagValue at hv
  split at hv
  · cases hv
    show '\n' ∉ "1".toList
    decide
  · cases hv

theorem clean_block {r : Rule} (h : r.Legible) : r.block.Clean := by
  have hGcc : ∀ v ∈ r.depfile.map fun _ => "gcc", IsLine v := by
    intro v hv
    obtain ⟨_, -, rfl⟩ := Option.map_eq_some_iff.1 hv
    decide
  refine ⟨?_, by simp [block], ?_⟩
  · simpa [block, IsLine] using h.name.isLine
  · simp only [block, List.forall_mem_append]
    refine ⟨⟨⟨⟨⟨⟨?_, ?_⟩, ?_⟩, ?_⟩, ?_⟩, ?_⟩, ?_⟩
    · have hCommand : ∀ v ∈ some r.command, IsLine v := by simpa using h.command
      exact Block.clean_optional (by decide) hCommand
    · exact Block.clean_optional (by decide) h.description
    · exact Block.clean_optional (by decide) (isLine_flagValue _)
    · exact Block.clean_optional (by decide) (isLine_flagValue _)
    · exact Block.clean_optional (by decide) h.pool
    · exact Block.clean_optional (by decide) h.depfile
    · exact Block.clean_optional (by decide) hGcc

theorem isSet_of_flagValue {f g : Option Flag} (h : flagValue f = flagValue g) :
    Flag.isSet f = Flag.isSet g := by
  unfold flagValue at h
  cases hf : Flag.isSet f <;> cases hg : Flag.isSet g <;> simp [hf, hg] at h ⊢

theorem lookup_settings (r : Rule) (key : String) : r.block.settings.lookup key =
    ((((((if key = "command" then some r.command else none).or
      (if key = "description" then r.description else none)).or
      (if key = "restat" then flagValue r.restat else none)).or
      (if key = "generator" then flagValue r.generator else none)).or
      (if key = "pool" then r.pool else none)).or
      (if key = "depfile" then r.depfile else none)).or
      (if key = "deps" then r.depfile.map fun _ => "gcc" else none) := by
  have hCommand : [("command", r.command)] = Block.optional "command" (some r.command) := rfl
  simp only [block, hCommand, List.lookup_append, Block.lookup_optional]

/-- The block of a rule determines what it declares. -/
theorem alike_of_block {r s : Rule} (h : r.block = s.block) : r.Alike s := by
  have look (key : String) : r.block.settings.lookup key = s.block.settings.lookup key := by
    rw [h]
  simp only [lookup_settings] at look
  constructor
  · have hHead := congrArg Block.head h
    simpa [block] using hHead
  · simpa using look "command"
  · simpa using look "description"
  · simpa using look "depfile"
  · exact isSet_of_flagValue (by simpa using look "restat")
  · exact isSet_of_flagValue (by simpa using look "generator")
  · simpa using look "pool"

end Rule

end NinjaFile
