import NinjaFile.Proofs.Layout.Edges

/-!
# What the text of a document tells

**The text of a legible document determines its declarations**
(`Document.alike_of_render`). Behind the header the text is one list of blocks.
The first word of a head tells which section its block belongs to: the words of
the sections differ from each other and from the name of every binding, and the
line of the build directory has an equals sign in its first word. So the blocks
of a section are those whose heads say so, and each section is compared clause by
clause.

What the text does not tell is left open by `Alike`: how a flag was given, whether
an empty list of names was ever set, and of which kind a scalar is.
-/

namespace NinjaFile

/-! ## Bindings -/

namespace Binding

/-- Words that begin a line of another kind. -/
def reserved : List String :=
  ["rule", "build", "default", "ninja_required_version"]

/-- The name of a binding is a word that begins no other line, and its value stays on the line. -/
structure Legible (b : Binding) : Prop where
  name : ∀ s, b.name.text? = .ok s → IsWord s ∧ s ∉ reserved
  value : ∀ s, b.value.text? = .ok s → IsLine s

structure Alike (b c : Binding) : Prop where
  name : b.name.text? = c.name.text?
  value : b.value.text? = c.value.text?

structure Written (b : Binding) : Prop where
  name : b.name.text? = .ok b.name.shown
  value : b.value.text? = .ok b.value.shown

def block (b : Binding) : Block where
  head := b.name.shown ++ " = " ++ b.value.shown

theorem toList_head (b : Binding) : b.block.head.toList =
    b.name.shown.toList ++ ' ' :: '=' :: ' ' :: b.value.shown.toList := by
  simp [block]

theorem alike_of_block {b c : Binding} (hb : b.Legible) (hc : c.Legible) (hbWritten : b.Written)
    (hcWritten : c.Written) (h : b.block = c.block) : b.Alike c := by
  have hHead := congrArg (fun block => block.head.toList) h
  simp only [toList_head] at hHead
  obtain ⟨hName, hValue⟩ := append_cons_inj
    ((hb.name _ hbWritten.name).1.not_mem (by decide))
    ((hc.name _ hcWritten.name).1.not_mem (by decide)) hHead
  simp only [List.cons.injEq, true_and] at hValue
  constructor
  · rw [hbWritten.name, hcWritten.name, String.toList_injective hName]
  · rw [hbWritten.value, hcWritten.value, String.toList_injective hValue]

theorem clean_block {b : Binding} (h : b.Legible) (hWritten : b.Written) : b.block.Clean := by
  obtain ⟨hName, -⟩ := h.name _ hWritten.name
  have hValue := h.value _ hWritten.value
  refine ⟨?_, ?_, by simp [block]⟩
  · rw [toList_head]
    simp only [List.mem_append, List.mem_cons, not_or]
    exact ⟨hName.isLine, by decide, by decide, by decide, hValue⟩
  · rw [toList_head]
    cases hChars : b.name.shown.toList with
    | nil => exact absurd (String.toList_injective hChars) hName.1
    | cons c cs =>
        have hHead := hName.head_ne_blank
        rw [hChars] at hHead
        exact hHead

theorem written_of_piece {b : Binding} {s : String} (h : b.piece = .ok s) : b.Written := by
  obtain ⟨name, hName, hRest⟩ := Outcome.bind_eq_ok.1 h
  obtain ⟨value, hValue, -⟩ := Outcome.bind_eq_ok.1 hRest
  constructor
  · rw [Scalar.shown_eq hName, hName]
  · rw [Scalar.shown_eq hValue, hValue]

theorem chars_piece {b : Binding} (h : b.Written) : b.piece.chars = unlines b.block.lines := by
  rw [piece, h.name, h.value]
  show (b.name.shown ++ " = " ++ b.value.shown ++ "\n").toList = _
  simp [Block.lines, block]

end Binding

/-! ## Sections -/

/-- The sections of a document behind its header. -/
inductive Section where
  | version
  | buildDir
  | rules
  | edges
  | bindings
  | defaultTarget
  deriving DecidableEq, Repr

namespace Section

def all : List Section :=
  [version, buildDir, rules, edges, bindings, defaultTarget]

def ofWord (word : List Char) : Section :=
  if '=' ∈ word then buildDir
  else if word = "ninja_required_version".toList then version
  else if word = "rule".toList then rules
  else if word = "build".toList then edges
  else if word = "default".toList then defaultTarget
  else bindings

def ofHead (head : String) : Section :=
  ofWord (head.toList.takeWhile (· ≠ ' '))

theorem ofHead_eq {head : String} {word rest : List Char}
    (hHead : head.toList = word ++ ' ' :: rest) (hWord : ' ' ∉ word) :
    ofHead head = ofWord word := by
  have hAll : ∀ c ∈ word, decide (c ≠ ' ') = true := by
    intro c hc
    exact decide_eq_true fun he => hWord (he ▸ hc)
  rw [ofHead, hHead, List.takeWhile_append_of_pos hAll, List.takeWhile_cons_of_neg (by simp),
    List.append_nil]

theorem ofWord_binding {name : String} (h : IsWord name) (hFree : name ∉ Binding.reserved) :
    ofWord name.toList = bindings := by
  simp only [Binding.reserved, List.mem_cons, not_or, List.not_mem_nil, not_false_eq_true,
    and_true] at hFree
  have hNe {word : String} (hWord : name ≠ word) : name.toList ≠ word.toList :=
    fun he => hWord (String.toList_injective he)
  rw [ofWord, if_neg (h.not_mem (by decide)), if_neg (hNe hFree.2.2.2), if_neg (hNe hFree.1),
    if_neg (hNe hFree.2.1), if_neg (hNe hFree.2.2.1)]

end Section

namespace Document

def optionalBlock (before : String) (text : Option String) : List Block :=
  text.toList.map fun s => { head := before ++ s }

def sectionBlocks (d : Document) : Section → List Block
  | .version => optionalBlock "ninja_required_version = " d.version
  | .buildDir => optionalBlock "builddir=" d.buildDir
  | .rules => d.rules.map Rule.block
  | .edges => d.edges.map Edge.block
  | .bindings => d.bindings.map Binding.block
  | .defaultTarget => optionalBlock "default " d.defaultTarget

def blocks (d : Document) : List Block :=
  Section.all.flatMap d.sectionBlocks

/-- Every binding of a document, inside an edge or not, can be written. -/
structure Written (d : Document) : Prop where
  edges : ∀ e ∈ d.edges, e.Written
  bindings : ∀ b ∈ d.bindings, b.Written

theorem written_of_pieces {d : Document} (h : ∀ p ∈ d.pieces, ∃ s, p = .ok s) : d.Written := by
  constructor
  · intro e he
    apply Edge.written_of_pieces
    intro p hp
    apply h
    simp only [pieces, List.mem_append]
    exact Or.inl (Or.inl (Or.inr (List.mem_flatMap.2 ⟨e, he, hp⟩)))
  · intro b hb
    obtain ⟨s, hs⟩ := h b.piece (by
      simp only [pieces, List.mem_append]
      exact Or.inl (Or.inr (List.mem_map_of_mem hb)))
    exact Binding.written_of_piece hs

theorem chars_optionalPiece (before : String) (text : Option String) :
    (optionalPiece before "\n" text).flatMap Piece.chars =
      Block.texts (optionalBlock before text) := by
  cases text with
  | none => rfl
  | some s => simp [optionalPiece, optionalBlock, Piece.chars, Block.texts, Block.lines]

theorem texts_append (a b : List Block) :
    Block.texts (a ++ b) = Block.texts a ++ Block.texts b := by
  rw [Block.texts, List.flatMap_append, unlines_append]
  rfl

theorem texts_map {α : Type} (f : α → Block) (xs : List α) :
    Block.texts (xs.map f) = xs.flatMap fun x => unlines (f x).lines := by
  induction xs with
  | nil => rfl
  | cons x xs ih =>
      rw [List.map_cons, ← List.singleton_append, texts_append, ih, List.flatMap_cons]
      simp [Block.texts]

theorem toList_of_render {d : Document} {text : String} (h : d.render = .ok text) :
    d.Written ∧ text.toList =
      (optionalPiece "" "\n\n" d.header).flatMap Piece.chars ++ Block.texts d.blocks := by
  obtain ⟨hText, hOk⟩ := Piece.toList_of_join (Fault.ofOverlong_eq_ok.1 h)
  have hWritten := written_of_pieces hOk
  refine ⟨hWritten, ?_⟩
  have hRules : (d.rules.map fun r => (.ok r.text : Piece)).flatMap Piece.chars =
      Block.texts (d.rules.map Rule.block) := by
    rw [texts_map, List.flatMap_map]
    exact List.flatMap_congr fun r _ => Rule.toList_text r
  have hEdges : (d.edges.flatMap Edge.pieces).flatMap Piece.chars =
      Block.texts (d.edges.map Edge.block) := by
    rw [texts_map, List.flatMap_assoc]
    exact List.flatMap_congr fun e he => Edge.chars_pieces (hWritten.edges e he)
  have hBindings : (d.bindings.map Binding.piece).flatMap Piece.chars =
      Block.texts (d.bindings.map Binding.block) := by
    rw [texts_map, List.flatMap_map]
    exact List.flatMap_congr fun b hb => Binding.chars_piece (hWritten.bindings b hb)
  rw [hText]
  simp only [pieces, List.flatMap_append, chars_optionalPiece, hRules, hEdges, hBindings, blocks,
    Section.all, List.flatMap_cons, List.flatMap_nil, sectionBlocks, texts_append,
    List.append_assoc]
  simp [Block.texts]

/-! ## Legible documents -/

/-- Every text of a document stays in its place. -/
structure Legible (d : Document) : Prop where
  version : ∀ s ∈ d.version, IsLine s
  buildDir : ∀ s ∈ d.buildDir, IsLine s
  defaultTarget : ∀ s ∈ d.defaultTarget, IsLine s
  rules : ∀ r ∈ d.rules, r.Legible
  edges : ∀ e ∈ d.edges, e.Legible
  bindings : ∀ b ∈ d.bindings, b.Legible

structure Alike (d d' : Document) : Prop where
  version : d.version = d'.version
  buildDir : d.buildDir = d'.buildDir
  defaultTarget : d.defaultTarget = d'.defaultTarget
  rules : List.Forall₂ Rule.Alike d.rules d'.rules
  edges : List.Forall₂ Edge.Alike d.edges d'.edges
  bindings : List.Forall₂ Binding.Alike d.bindings d'.bindings

theorem clean_optionalBlock (before : String) {text : Option String} (hLine : IsLine before)
    (hColumn : ∀ cs, (before.toList ++ cs).head? ≠ some ' ') (hText : ∀ s ∈ text, IsLine s) :
    ∀ b ∈ optionalBlock before text, b.Clean := by
  intro b hb
  obtain ⟨s, hs, rfl⟩ := List.mem_map.1 hb
  have hLines := hText s (Option.mem_toList.1 hs)
  refine ⟨?_, ?_, by simp⟩
  · rw [String.toList_append, List.mem_append, not_or]
    exact ⟨hLine, hLines⟩
  · rw [String.toList_append]
    exact hColumn _

theorem optionalBlock_injective {before : String} {s t : Option String}
    (h : optionalBlock before s = optionalBlock before t) : s = t := by
  cases s <;> cases t <;> simp_all [optionalBlock]

theorem Legible.clean {d : Document} (h : d.Legible) (hWritten : d.Written)
    (hSound : ∀ e ∈ d.edges, e.Sound) : ∀ s, ∀ b ∈ d.sectionBlocks s, b.Clean := by
  intro s b hb
  cases s with
  | version =>
      exact clean_optionalBlock "ninja_required_version = " (by decide) (by simp) h.version b hb
  | buildDir =>
      exact clean_optionalBlock "builddir=" (by decide) (by simp) h.buildDir b hb
  | rules =>
      obtain ⟨r, hr, rfl⟩ := List.mem_map.1 hb
      exact Rule.clean_block (h.rules r hr)
  | edges =>
      obtain ⟨e, he, rfl⟩ := List.mem_map.1 hb
      exact Edge.clean_block (h.edges e he) (hSound e he) (hWritten.edges e he)
  | bindings =>
      obtain ⟨c, hc, rfl⟩ := List.mem_map.1 hb
      exact Binding.clean_block (h.bindings c hc) (hWritten.bindings c hc)
  | defaultTarget =>
      exact clean_optionalBlock "default " (by decide) (by simp) h.defaultTarget b hb

/-- Every block says by its head which section it belongs to. -/
theorem Legible.ofHead {d : Document} (h : d.Legible) (hWritten : d.Written)
    (hSound : ∀ e ∈ d.edges, e.Sound) :
    ∀ s, ∀ b ∈ d.sectionBlocks s, Section.ofHead b.head = s := by
  intro s b hb
  cases s with
  | version =>
      obtain ⟨text, -, rfl⟩ := List.mem_map.1 hb
      have hHead : ("ninja_required_version = " ++ text).toList =
          "ninja_required_version".toList ++ ' ' :: ('=' :: ' ' :: text.toList) := by simp
      rw [Section.ofHead_eq hHead (by decide)]
      rfl
  | buildDir =>
      -- no blank stands in front of the equals sign here
      obtain ⟨text, -, rfl⟩ := List.mem_map.1 hb
      have hEquals : '=' ∈ ("builddir=" ++ text).toList.takeWhile (· ≠ ' ') := by simp
      rw [Section.ofHead, Section.ofWord, if_pos hEquals]
  | rules =>
      obtain ⟨r, -, rfl⟩ := List.mem_map.1 hb
      have hHead : r.block.head.toList = "rule".toList ++ ' ' :: r.name.toList := by
        simp [Rule.block]
      rw [Section.ofHead_eq hHead (by decide)]
      rfl
  | edges =>
      obtain ⟨e, he, rfl⟩ := List.mem_map.1 hb
      have hTarget := (hSound e he).target
      obtain ⟨target, targets, hCons⟩ := List.exists_cons_of_ne_nil hTarget
      have hHead := Edge.toList_headline hTarget
      rw [hCons, List.map_cons, List.flatMap_cons] at hHead
      exact Section.ofHead_eq hHead (by decide)
  | bindings =>
      obtain ⟨c, hc, rfl⟩ := List.mem_map.1 hb
      obtain ⟨hName, hFree⟩ := (h.bindings c hc).name _ (hWritten.bindings c hc).name
      rw [Section.ofHead_eq (Binding.toList_head c) (hName.not_mem (by decide)),
        Section.ofWord_binding hName hFree]
  | defaultTarget =>
      obtain ⟨text, -, rfl⟩ := List.mem_map.1 hb
      have hHead : ("default " ++ text).toList = "default".toList ++ ' ' :: text.toList := by simp
      rw [Section.ofHead_eq hHead (by decide)]
      rfl

theorem filter_blocks {d : Document}
    (h : ∀ s, ∀ b ∈ d.sectionBlocks s, Section.ofHead b.head = s) (s : Section) :
    d.blocks.filter (fun b => Section.ofHead b.head = s) = d.sectionBlocks s := by
  have hFilter (t : Section) : (d.sectionBlocks t).filter (fun b => Section.ofHead b.head = s) =
      if t = s then d.sectionBlocks t else [] := by
    split
    · rename_i hEq
      exact List.filter_eq_self.2 fun b hb => decide_eq_true (hEq ▸ h t b hb)
    · rename_i hNe
      apply List.filter_eq_nil_iff.2
      intro b hb
      rw [h t b hb]
      simpa using hNe
  simp only [blocks, List.filter_flatMap, hFilter]
  cases s <;> simp [Section.all]

/-- **The text of a document determines its declarations.** Two reachable documents with the same
header whose texts stay in their places declare the same if they have the same text. -/
theorem alike_of_render {d d' : Document} (hd : d.Reachable) (hd' : d'.Reachable)
    (hLegible : d.Legible) (hLegible' : d'.Legible) (hHeader : d.header = d'.header)
    {text : String} (h : d.render = .ok text) (h' : d'.render = .ok text) : d.Alike d' := by
  obtain ⟨hWritten, hText⟩ := toList_of_render h
  obtain ⟨hWritten', hText'⟩ := toList_of_render h'
  rw [hText, hHeader, List.append_cancel_left_eq] at hText'
  have clean {d : Document} (hd : d.Reachable) (hLegible : d.Legible) (hWritten : d.Written) :
      ∀ b ∈ d.blocks, b.Clean := by
    intro b hb
    obtain ⟨s, -, hb⟩ := List.mem_flatMap.1 hb
    exact hLegible.clean hWritten hd.sound s b hb
  have hBlocks := Block.texts_injective (clean hd hLegible hWritten) (clean hd' hLegible' hWritten')
    hText'
  -- the documents have the same blocks, and a block says which section it is in
  have hSections (s : Section) : d.sectionBlocks s = d'.sectionBlocks s := by
    rw [← filter_blocks (hLegible.ofHead hWritten hd.sound) s, hBlocks,
      filter_blocks (hLegible'.ofHead hWritten' hd'.sound) s]
  refine ⟨optionalBlock_injective (hSections .version), optionalBlock_injective
    (hSections .buildDir), optionalBlock_injective (hSections .defaultTarget), ?_, ?_, ?_⟩
  · exact forall₂_of_map_eq (hSections .rules) fun _ _ _ _ => Rule.alike_of_block
  · exact forall₂_of_map_eq (hSections .edges) fun e he f hf =>
      Edge.alike_of_block (hLegible.edges e he) (hLegible'.edges f hf) (hd.sound e he)
        (hd'.sound f hf) (hWritten.edges e he) (hWritten'.edges f hf)
  · exact forall₂_of_map_eq (hSections .bindings) fun b hb c hc =>
      Binding.alike_of_block (hLegible.bindings b hb) (hLegible'.bindings c hc)
        (hWritten.bindings b hb) (hWritten'.bindings c hc)

/-- A small document that leaves open how a flag, an empty list and a number are given. -/
def small (flag : Flag) (dependencies : Option (List String)) (level : Scalar) : Document where
  version := some "1.10"
  rules := [{ name := "cc", command := "gcc -c $in", restat := some flag }]
  edges := [{ targets := [escape "my file.o"], rule := "cc", dependencies,
              orderOnly := some [escape "a:b"], bindings := [("opt", .text "-O2")] }]
  bindings := [⟨.text "level", level⟩]

theorem reachable_small (flag : Flag) (dependencies : List String) (level : Scalar) :
    (small flag (some dependencies) level).Reachable :=
  Reachable.start.edits [.version (some "1.10"), .rule "cc", .editRule 0 (.command "gcc -c $in"),
    .editRule 0 (.restat (some flag)), .edge (.one (escape "my file.o")), .editEdge 0 (.rule "cc"),
    .editEdge 0 (.dependencies (.many dependencies)),
    .editEdge 0 (.orderOnly (.one (escape "a:b"))),
    .editEdge 0 (.bind (.text "opt") (.text "-O2")), .bind (.text "level") level] rfl

theorem legible_small {flag : Flag} {dependencies : Option (List String)} {level : Scalar}
    (hDependencies : Edge.listed dependencies = []) (hLevel : level.text? = .ok "1") :
    (small flag dependencies level).Legible where
  version := by
    intro s hs
    cases hs
    decide
  buildDir := by simp [small]
  defaultTarget := by simp [small]
  rules := by
    intro r hr
    cases List.mem_singleton.1 hr
    have hName : IsWord "cc" := by decide
    have hCommand : IsLine "gcc -c $in" := by decide
    exact ⟨hName, hCommand, by simp, by simp, by simp⟩
  edges := by
    intro e he
    cases List.mem_singleton.1 he
    have hRule : IsWord "cc" := by decide
    refine ⟨?_, hRule, by simp [Edge.listed], by simp [hDependencies], ?_, ?_, ?_, by simp⟩
    · intro s hs
      cases List.mem_singleton.1 hs
      exact ⟨"my file.o", by decide, by decide, by decide, rfl⟩
    · intro s hs
      cases List.mem_singleton.1 hs
      exact ⟨"a:b", by decide, by decide, by decide, rfl⟩
    · intro b hb
      cases List.mem_singleton.1 hb
      decide
    · intro b hb s hs
      cases List.mem_singleton.1 hb
      cases hs
      decide
  bindings := by
    intro b hb
    cases List.mem_singleton.1 hb
    refine ⟨?_, ?_⟩
    · intro s hs
      cases hs
      decide
    · intro s hs
      cases hLevel.symm.trans hs
      decide

/-- The same text from two documents that differ in what no text tells. -/
theorem alike_of_render_small :
    small (.int 7) (some []) (.int 1) ≠ small (.bool true) none (.text "1") ∧
      (small (.int 7) (some []) (.int 1)).Alike (small (.bool true) none (.text "1")) := by
  have hFirst := reachable_small (.int 7) [] (.int 1)
  have hSecond : (small (.bool true) none (.text "1")).Reachable :=
    Reachable.start.edits [.edge (.one (escape "my file.o")), .editEdge 0 (.rule "cc"),
      .editEdge 0 (.orderOnly (.one (escape "a:b"))),
      .editEdge 0 (.bind (.text "opt") (.text "-O2")), .bind (.text "level") (.text "1"),
      .rule "cc", .editRule 0 (.restat (some (.bool true))), .editRule 0 (.command "gcc -c $in"),
      .version (some "1.10")] rfl
  obtain ⟨text, hText⟩ : ∃ text, (small (.int 7) (some []) (.int 1)).render = .ok text := ⟨_, rfl⟩
  have hSame : (small (.bool true) none (.text "1")).render =
      (small (.int 7) (some []) (.int 1)).render := rfl
  refine ⟨fun h => ?_, alike_of_render hFirst hSecond (legible_small rfl rfl)
    (legible_small rfl rfl) rfl hText (hSame.trans hText)⟩
  cases congrArg bindings h

end Document

end NinjaFile
