import NinjaFile.Edge
import NinjaFile.Proofs.Layout.Rules
import NinjaFile.Proofs.Reachable

/-!
# Edges and bindings as blocks

The text of an edge is one block whose head names the targets, the rule and three
kinds of inputs. The block determines what the edge declares
(`Edge.alike_of_block`), where a list of names that is set but empty counts as
unset and a scalar by its text.

The head is read by `Mark.scan`. Its first colon ends the targets, and behind it
blanks separate words: the rule, the sources, and the other inputs behind a word
of one bar or of two. No name has a bar in it, so the words with bars are the
places where the lists end. The settings are the bindings and at last the pool;
a binding may have any word for a name but `pool`.

A binding of the file is a block of one line.
-/

namespace NinjaFile

/-! ## Scalars -/

def Scalar.shown (s : Scalar) : String :=
  match s.text? with
  | .ok written => written
  | .error _ => ""

theorem Scalar.shown_eq {s : Scalar} {written : String} (h : s.text? = .ok written) :
    s.shown = written := by
  rw [shown, h]

/-! ## Three lists in one -/

/-- A mark in front of a list that is not empty. -/
def barred {α : Type} (mark : α) : List α → List α
  | [] => []
  | x :: xs => mark :: x :: xs

theorem map_barred {α β : Type} (f : α → β) (mark : α) (xs : List α) :
    (barred mark xs).map f = barred (f mark) (xs.map f) := by
  cases xs <;> rfl

theorem mem_barred {α : Type} {mark x : α} {xs : List α} (h : x ∈ barred mark xs) :
    x = mark ∨ x ∈ xs := by
  cases xs with
  | nil => cases h
  | cons y ys => exact List.mem_cons.1 h

theorem barred_injective {α : Type} (mark : α) : Function.Injective (barred mark) := by
  intro xs ys h
  cases xs with
  | nil =>
      cases ys with
      | nil => rfl
      | cons y ys => cases h
  | cons x xs =>
      cases ys with
      | nil => cases h
      | cons y ys => exact (List.cons.inj h).2

theorem eq_of_head_barred {α : Type} {mark x : α} {xs : List α}
    (h : (barred mark xs).head? = some x) : x = mark := by
  cases xs with
  | nil => cases h
  | cons y ys => exact (Option.some.inj h).symm

/-- A list whose items pass a test is cut off at a mark that fails it. -/
theorem append_barred_inj {α : Type} (p : α → Prop) {m n : α} (hm : ¬ p m) (hn : ¬ p n)
    (hmn : m ≠ n) {xs xs' ys ys' zs zs' : List α} (hx : ∀ x ∈ xs, p x) (hx' : ∀ x ∈ xs', p x)
    (hy : ∀ y ∈ ys, p y) (hy' : ∀ y ∈ ys', p y)
    (h : xs ++ (barred m ys ++ barred n zs) = xs' ++ (barred m ys' ++ barred n zs')) :
    xs = xs' ∧ ys = ys' ∧ zs = zs' := by
  -- what stands behind the items begins with a mark, if anything stands there
  have headBars (k l : List α) : ∀ x, (barred m k ++ barred n l).head? = some x → ¬ p x := by
    intro x hHead
    cases k with
    | nil => exact eq_of_head_barred hHead ▸ hn
    | cons y ys => exact (Option.some.inj hHead).symm ▸ hm
  obtain ⟨rfl, hBars⟩ := append_inj_of_test p hx hx' (headBars ys zs) (headBars ys' zs') h
  refine ⟨rfl, ?_⟩
  cases ys with
  | nil =>
      cases ys' with
      | nil => exact ⟨rfl, barred_injective n hBars⟩
      | cons y' ys' =>
          have hHead : (barred n zs).head? = some m := congrArg List.head? hBars
          exact absurd (eq_of_head_barred hHead) hmn
  | cons y ys =>
      cases ys' with
      | nil =>
          have hHead : (barred n zs').head? = some m := (congrArg List.head? hBars).symm
          exact absurd (eq_of_head_barred hHead) hmn
      | cons y' ys' =>
          obtain ⟨-, hRest⟩ := List.cons.inj hBars
          obtain ⟨hItems, hBar⟩ := append_inj_of_test p hy hy'
            (fun x hHead => eq_of_head_barred hHead ▸ hn)
            (fun x hHead => eq_of_head_barred hHead ▸ hn) hRest
          exact ⟨hItems, barred_injective n hBar⟩

/-! ## The head of an edge -/

theorem cons_intercalate {α : Type} (a : α) (x : List α) (xs : List (List α)) :
    a :: [a].intercalate (x :: xs) = (x :: xs).flatMap (a :: ·) := by
  induction xs generalizing x with
  | nil => simp
  | cons y ys ih =>
      rw [List.intercalate_cons_cons, List.flatMap_cons, ← ih y]
      simp

namespace Edge

def listed (names : Option (List String)) : List String :=
  names.getD []

/-- The words behind the colon: the rule and the inputs, with the words of bars among them. -/
def words (e : Edge) : List String :=
  e.rule :: (listed e.sources ++
    (barred "|" (listed e.dependencies) ++ barred "||" (listed e.orderOnly)))

theorem toList_join (names : List String) :
    (" ".intercalate names).toList = [' '].intercalate (names.map String.toList) := by
  rw [String.toList_intercalate]
  rfl

theorem toList_inputs (mark : String) (names : Option (List String)) :
    (inputs (" " ++ mark ++ " ") names).toList =
      ((barred mark (listed names)).map String.toList).flatMap (' ' :: ·) := by
  cases names with
  | none => rfl
  | some names =>
      cases names with
      | nil => rfl
      | cons name names =>
          simp only [inputs, String.toList_append, toList_join, listed, Option.getD_some, barred,
            List.map_cons]
          rw [List.flatMap_cons, ← cons_intercalate]
          simp

theorem toList_sources (names : Option (List String)) :
    (inputs " " names).toList = ((listed names).map String.toList).flatMap (' ' :: ·) := by
  cases names with
  | none => rfl
  | some names =>
      cases names with
      | nil => rfl
      | cons name names =>
          simp only [inputs, String.toList_append, toList_join, listed, Option.getD_some,
            List.map_cons]
          rw [← cons_intercalate]
          rfl

theorem toList_headline {e : Edge} (h : e.targets ≠ []) :
    e.headline.toList = "build".toList ++ ((e.targets.map String.toList).flatMap (' ' :: ·) ++
      ':' :: (e.words.map String.toList).flatMap (' ' :: ·)) := by
  have hTargets : (e.targets.map String.toList).flatMap (' ' :: ·) =
      ' ' :: [' '].intercalate (e.targets.map String.toList) := by
    obtain ⟨target, targets, hCons⟩ := List.exists_cons_of_ne_nil h
    rw [hCons]
    exact (cons_intercalate ' ' target.toList _).symm
  have hWords : (e.words.map String.toList).flatMap (' ' :: ·) =
      ' ' :: e.rule.toList ++ ((inputs " " e.sources).toList ++
        ((inputs " | " e.dependencies).toList ++ (inputs " || " e.orderOnly).toList)) := by
    have hDependencies := toList_inputs "|" e.dependencies
    have hOrderOnly := toList_inputs "||" e.orderOnly
    simp only [words, List.map_cons, List.map_append, List.flatMap_cons, List.flatMap_append,
      toList_sources]
    rw [← hDependencies, ← hOrderOnly]
    rfl
  rw [hTargets, hWords]
  delta headline
  simp

/-! ## What an edge declares -/

/-- The names and texts of an edge stay in their places. -/
structure Legible (e : Edge) : Prop where
  targets : ∀ s ∈ e.targets, IsName s
  rule : IsWord e.rule
  sources : ∀ s ∈ listed e.sources, IsName s
  dependencies : ∀ s ∈ listed e.dependencies, IsName s
  orderOnly : ∀ s ∈ listed e.orderOnly, IsName s
  names : ∀ b ∈ e.bindings, IsWord b.1 ∧ b.1 ≠ "pool"
  values : ∀ b ∈ e.bindings, ∀ s, b.2.text? = .ok s → IsLine s
  pool : ∀ s ∈ e.pool, IsLine s

structure Alike (e f : Edge) : Prop where
  targets : e.targets = f.targets
  rule : e.rule = f.rule
  sources : listed e.sources = listed f.sources
  dependencies : listed e.dependencies = listed f.dependencies
  orderOnly : listed e.orderOnly = listed f.orderOnly
  bindings : e.bindings.map (fun b => (b.1, b.2.text?)) = f.bindings.map fun b => (b.1, b.2.text?)
  pool : e.pool = f.pool

def Written (e : Edge) : Prop :=
  ∀ b ∈ e.bindings, b.2.text? = .ok b.2.shown

def setting (b : String × Scalar) : String × String :=
  (b.1, b.2.shown)

def block (e : Edge) : Block where
  head := e.headline
  settings := e.bindings.map setting ++ Block.optional "pool" e.pool

/-! ## Reading the head -/

theorem Legible.readable_words {e : Edge} (h : e.Legible) : ∀ w ∈ e.words, IsReadable w := by
  have named {names : List String} (hNames : ∀ s ∈ names, IsName s) :
      ∀ s ∈ names, IsReadable s :=
    fun s hs => (hNames s hs).isToken.toIsReadable
  have behind {bar : String} {names : List String} (hBar : IsReadable bar)
      (hNames : ∀ s ∈ names, IsName s) : ∀ w ∈ barred bar names, IsReadable w := by
    intro w hw
    rcases mem_barred hw with rfl | hw
    · exact hBar
    · exact named hNames w hw
  intro w hw
  rcases List.mem_cons.1 hw with rfl | hw
  · exact h.rule.isToken.toIsReadable
  rcases List.mem_append.1 hw with hw | hw
  · exact named h.sources w hw
  rcases List.mem_append.1 hw with hw | hw
  · exact behind (isReadable_plain (by decide) (by decide)) h.dependencies w hw
  · exact behind (isReadable_plain (by decide) (by decide)) h.orderOnly w hw

theorem Legible.readable_targets {e : Edge} (h : e.Legible) : ∀ s ∈ e.targets, IsReadable s :=
  fun s hs => (h.targets s hs).isToken.toIsReadable

def marks (words : List String) : List (List Mark) :=
  words.map fun w => Mark.scan w.toList

theorem reads_words_row {words : List String} (h : ∀ w ∈ words, IsReadable w) :
    Mark.Reads ((words.map String.toList).flatMap (' ' :: ·))
      ((marks words).flatMap (Mark.blank :: ·)) := by
  have hTexts : ∀ t ∈ words.map String.toList, Mark.Reads t (Mark.scan t) := by
    intro t ht
    obtain ⟨w, hw, rfl⟩ := List.mem_map.1 ht
    exact (h w hw).reads
  have hRow := Mark.reads_row hTexts
  rwa [List.map_map] at hRow

theorem not_mem_marks (sep : Mark) {words : List String} (hSep : ∀ c, sep ≠ Mark.char c)
    (h : ∀ w ∈ words, IsReadable w) : ∀ ms ∈ marks words, sep ∉ ms := by
  intro ms hms hMem
  obtain ⟨w, hw, rfl⟩ := List.mem_map.1 hms
  obtain ⟨c, hc⟩ := (h w hw).marks sep hMem
  exact hSep c hc

/-- The head of an edge determines the marks of its targets and of its words: they are read off at
the first colon and at the blanks. -/
theorem marks_of_headline {e f : Edge} (he : e.Legible) (hf : f.Legible) (heTarget : e.targets ≠ [])
    (hfTarget : f.targets ≠ []) (h : e.headline = f.headline) :
    marks e.targets = marks f.targets ∧ marks e.words = marks f.words := by
  have hText := congrArg String.toList h
  rw [toList_headline heTarget, toList_headline hfTarget, List.append_cancel_left_eq] at hText
  have read {g : Edge} (hg : g.Legible) :
      Mark.scan ((g.targets.map String.toList).flatMap (' ' :: ·) ++
        ':' :: (g.words.map String.toList).flatMap (' ' :: ·)) =
      (marks g.targets).flatMap (Mark.blank :: ·) ++
        Mark.colon :: (marks g.words).flatMap (Mark.blank :: ·) :=
    ((reads_words_row hg.readable_targets).append
      ((Mark.reads_ofChar (by decide : ':' ≠ '$')).append
        (reads_words_row hg.readable_words))).scan_eq
  have hScan := congrArg Mark.scan hText
  rw [read he, read hf] at hScan
  -- the targets end at the first colon, and each word at the next blank
  have noColon {g : Edge} (hg : g.Legible) :
      Mark.colon ∉ (marks g.targets).flatMap (Mark.blank :: ·) := by
    intro hMem
    obtain ⟨ms, hms, hMem⟩ := List.mem_flatMap.1 hMem
    rcases List.mem_cons.1 hMem with hBlank | hMem
    · cases hBlank
    · exact not_mem_marks _ (fun c hc => by cases hc) hg.readable_targets ms hms hMem
  obtain ⟨hTargets, hWords⟩ := append_cons_inj (noColon he) (noColon hf) hScan
  have noBlank {words : List String} (hWords : ∀ w ∈ words, IsReadable w) :=
    not_mem_marks Mark.blank (fun c hc => by cases hc) hWords
  exact ⟨row_injective (noBlank he.readable_targets) (noBlank hf.readable_targets) hTargets,
    row_injective (noBlank he.readable_words) (noBlank hf.readable_words) hWords⟩

theorem eq_of_marks {ss ts : List String} (hs : ∀ s ∈ ss, IsName s) (ht : ∀ t ∈ ts, IsName t)
    (h : marks ss = marks ts) : ss = ts :=
  List.forall₂_eq_eq_eq ▸ forall₂_of_map_eq h fun s hMem t hMem' =>
    (hs s hMem).eq_of_scan (ht t hMem')

theorem marks_words (e : Edge) : marks e.words = Mark.scan e.rule.toList ::
    (marks (listed e.sources) ++ (barred [Mark.char '|'] (marks (listed e.dependencies)) ++
      barred [Mark.char '|', Mark.char '|'] (marks (listed e.orderOnly)))) := by
  simp only [marks, words, List.map_cons, List.map_append, map_barred]
  rfl

/-! ## The block of an edge -/

/-- The block of an edge determines what it declares. -/
theorem alike_of_block {e f : Edge} (he : e.Legible) (hf : f.Legible) (heSound : e.Sound)
    (hfSound : f.Sound) (heWritten : e.Written) (hfWritten : f.Written) (h : e.block = f.block) :
    e.Alike f := by
  obtain ⟨hTargets, hWords⟩ :=
    marks_of_headline he hf heSound.target hfSound.target (congrArg Block.head h)
  rw [marks_words, marks_words, List.cons.injEq] at hWords
  obtain ⟨hRule, hInputs⟩ := hWords
  have hRule : e.rule = f.rule := by
    rw [he.rule.reads.scan_eq, hf.rule.reads.scan_eq] at hRule
    exact String.toList_injective (List.map_injective_iff.2 Mark.char_injective hRule)
  -- no name has a bar, so the lists of inputs end where words of bars begin
  have free {names : List String} (hNames : ∀ s ∈ names, IsName s) :
      ∀ ms ∈ marks names, Mark.char '|' ∉ ms := by
    intro ms hms hMem
    obtain ⟨s, hs, rfl⟩ := List.mem_map.1 hms
    exact (hNames s hs).isToken.noBar hMem
  obtain ⟨hSources, hDependencies, hOrderOnly⟩ := append_barred_inj (Mark.char '|' ∉ ·)
    (by simp) (by simp) (by simp) (free he.sources) (free hf.sources) (free he.dependencies)
    (free hf.dependencies) hInputs
  -- no binding is named like the pool
  have bound {g : Edge} (hg : g.Legible) : ∀ s ∈ g.bindings.map setting, s.1 ≠ "pool" := by
    intro s hs
    obtain ⟨b, hb, rfl⟩ := List.mem_map.1 hs
    exact (hg.names b hb).2
  have stop (pool : Option String) :
      ∀ s, (Block.optional "pool" pool).head? = some s → ¬ s.1 ≠ "pool" := by
    intro s hs
    cases pool with
    | none => cases hs
    | some p => cases hs; simp
  obtain ⟨hSettings, hPool⟩ := append_inj_of_test (·.1 ≠ "pool") (bound he) (bound hf)
    (stop e.pool) (stop f.pool) (congrArg Block.settings h)
  refine ⟨eq_of_marks he.targets hf.targets hTargets, hRule, eq_of_marks he.sources hf.sources
    hSources, eq_of_marks he.dependencies hf.dependencies hDependencies, eq_of_marks he.orderOnly
    hf.orderOnly hOrderOnly, ?_, ?_⟩
  · rw [← List.forall₂_eq_eq_eq, List.forall₂_map_left_iff, List.forall₂_map_right_iff]
    apply forall₂_of_map_eq hSettings
    intro b hb c hc hEq
    obtain ⟨hName, hValue⟩ := Prod.mk.inj hEq
    rw [heWritten b hb, hfWritten c hc, hName, hValue]
  · have hLook := congrArg (List.lookup "pool") hPool
    rwa [Block.lookup_optional, Block.lookup_optional, if_pos rfl, if_pos rfl] at hLook

theorem not_mem_row {c : Char} {words : List String} (hBlank : c ≠ ' ')
    (h : ∀ w ∈ words, c ∉ w.toList) : c ∉ (words.map String.toList).flatMap (' ' :: ·) := by
  intro hMem
  obtain ⟨cs, hcs, hMem⟩ := List.mem_flatMap.1 hMem
  obtain ⟨w, hw, rfl⟩ := List.mem_map.1 hcs
  rcases List.mem_cons.1 hMem with hc | hMem
  · exact hBlank hc
  · exact h w hw hMem

theorem Legible.isLine_headline {e : Edge} (h : e.Legible) (hTarget : e.targets ≠ []) :
    IsLine e.headline := by
  have hTargets := not_mem_row (by decide : '\n' ≠ ' ') fun s hs => (h.targets s hs).isLine
  have hWords := not_mem_row (by decide : '\n' ≠ ' ') fun w hw => (h.readable_words w hw).line
  rw [IsLine, toList_headline hTarget]
  simp only [List.mem_append, List.mem_cons, not_or]
  exact ⟨by decide, hTargets, by decide, hWords⟩

theorem clean_block {e : Edge} (h : e.Legible) (hSound : e.Sound) (hWritten : e.Written) :
    e.block.Clean := by
  refine ⟨h.isLine_headline hSound.target, ?_, ?_⟩
  · show e.headline.toList.head? ≠ some ' '
    rw [toList_headline hSound.target]
    simp
  · intro s hs
    rcases List.mem_append.1 hs with hs | hs
    · obtain ⟨b, hb, rfl⟩ := List.mem_map.1 hs
      have hName := (h.names b hb).1
      exact ⟨hName.not_mem (by decide), hName.isLine, h.values b hb _ (hWritten b hb)⟩
    · exact Block.clean_optional (by decide) h.pool s hs

end Edge

/-! ## Pieces -/

def Piece.chars : Piece → List Char
  | .ok text => text.toList
  | .error _ => []

theorem Piece.toList_of_join {pieces : List Piece} {text : String} (h : join pieces = .ok text) :
    text.toList = pieces.flatMap chars ∧ ∀ p ∈ pieces, ∃ s, p = .ok s := by
  obtain ⟨texts, hAll, rfl⟩ := Outcome.map_eq_ok.1 h
  clear h
  induction pieces generalizing texts with
  | nil =>
      cases hAll
      exact ⟨rfl, by simp⟩
  | cons piece pieces ih =>
      cases piece with
      | error refusal => cases hAll
      | ok s =>
          obtain ⟨others, hRest, rfl⟩ := Outcome.map_eq_ok.1 hAll
          obtain ⟨hText, hOk⟩ := ih others hRest
          refine ⟨?_, ?_⟩
          · rw [String.join_cons, String.toList_append, hText]
            rfl
          · intro p hp
            rcases List.mem_cons.1 hp with rfl | hp
            · exact ⟨s, rfl⟩
            · exact hOk p hp

namespace Edge

theorem written_of_pieces {e : Edge} (h : ∀ p ∈ e.pieces, ∃ s, p = .ok s) : e.Written := by
  intro b hb
  have hMem : bindingPiece b ∈ e.pieces :=
    List.mem_append_left _ (List.mem_cons_of_mem _ (List.mem_map_of_mem hb))
  obtain ⟨s, hs⟩ := h _ hMem
  obtain ⟨value, hValue, -⟩ := Outcome.bind_eq_ok.1 hs
  rw [Scalar.shown_eq hValue, hValue]

theorem chars_bindingPiece {b : String × Scalar} (h : b.2.text? = .ok b.2.shown) :
    (bindingPiece b).chars = '\n' :: Block.line (setting b) := by
  rw [bindingPiece, h]
  show ("\n  " ++ b.1 ++ " = " ++ b.2.shown).toList = _
  simp [Block.line, setting]

theorem append_unlines (first : List Char) (lines : List (List Char)) :
    first ++ lines.flatMap ('\n' :: ·) ++ ['\n'] = unlines (first :: lines) := by
  induction lines generalizing first with
  | nil => simp
  | cons line lines ih =>
      rw [unlines_cons, ← ih line]
      simp

theorem chars_pieces {e : Edge} (h : e.Written) :
    e.pieces.flatMap Piece.chars = unlines e.block.lines := by
  have hBindings : (e.bindings.map bindingPiece).flatMap Piece.chars =
      ((e.bindings.map setting).map Block.line).flatMap ('\n' :: ·) := by
    rw [List.flatMap_map, List.map_map, List.flatMap_map]
    exact List.flatMap_congr fun b hb => chars_bindingPiece (h b hb)
  have hPool : (poolLine e.pool).toList =
      unlines ((Block.optional "pool" e.pool).map Block.line) := by
    cases e.pool with
    | none => rfl
    | some pool => simp [poolLine, Block.optional, Block.line]
  rw [pieces, List.cons_append, List.flatMap_cons, List.flatMap_append, hBindings]
  simp only [Block.lines, block, List.map_append]
  rw [← List.cons_append, unlines_append, ← append_unlines]
  simp [Piece.chars, hPool]

end Edge

end NinjaFile
