import NinjaFile.Proofs.Layout.Edges
import NinjaFile.Proofs.Unescaping

/-!
# Joined names

The targets of an edge stand in one row, escaped and with a blank between each two. A
name may end in dollars, in front of the blank that follows it, and whether this blank is
escaped depends on how many dollars there are, and therefore on where the reader stands.
But an escaped name reads as its raw characters whatever follows it (`reads_escape`), and
this leaves the reader in front of the blank. So a row reads as the names with a blank
between each two (`Mark.reads_escaped`), whatever the names are.

It follows that a row is cut at its blanks into the names again, and that the first colon
on the line of an edge ends the targets (`targetsIn_row`).
-/

namespace NinjaFile

/-! ## Rows -/

/-- Escaped names with a blank between each two, as targets are written. -/
def row (names : List String) : String :=
  " ".intercalate (names.map escape)

theorem blank_row {names : List String} (h : names ≠ []) :
    ' ' :: (row names).toList = (names.map fun name => (escape name).toList).flatMap (' ' :: ·) := by
  obtain ⟨name, names, rfl⟩ := List.exists_cons_of_ne_nil h
  rw [row, Edge.toList_join, List.map_map, List.map_cons, cons_intercalate, ← List.map_cons]
  rfl

namespace Mark

def ofName (name : String) : List Mark :=
  name.toList.map char

theorem blank_not_mem_ofName (name : String) : blank ∉ ofName name := by
  simp [ofName]

theorem colon_not_mem_ofName (name : String) : colon ∉ ofName name := by
  simp [ofName]

theorem scan_escape (name : String) : scan (escape name).toList = ofName name :=
  (reads_escape name).scan_eq

def ofNames (names : List String) : List Mark :=
  [blank].intercalate (names.map ofName)

theorem blank_ofNames {names : List String} (h : names ≠ []) :
    blank :: ofNames names = (names.map ofName).flatMap (blank :: ·) := by
  obtain ⟨name, names, rfl⟩ := List.exists_cons_of_ne_nil h
  exact cons_intercalate blank (ofName name) _

theorem Reads.of_blank {text : List Char} {marks : List Mark}
    (h : Reads (' ' :: text) (blank :: marks)) : Reads text marks := by
  intro rest
  have hBoth := h rest
  rw [List.cons_append, scan_cons (by decide)] at hBoth
  exact (List.cons.inj hBoth).2

/-- **A row reads as its names** with a blank between each two, whatever follows it. -/
theorem reads_escaped {names : List String} (h : names ≠ []) :
    Reads (row names).toList (ofNames names) := by
  have hTexts : ∀ t ∈ names.map fun name => (escape name).toList, Reads t (scan t) := by
    intro t ht
    obtain ⟨name, -, rfl⟩ := List.mem_map.1 ht
    rw [scan_escape]
    exact reads_escape name
  have hRow := reads_row hTexts
  simp only [List.map_map, Function.comp_def, scan_escape] at hRow
  rw [← blank_row h, ← blank_ofNames h] at hRow
  exact hRow.of_blank

/-! ## Separators -/

theorem colon_not_mem_ofNames {names : List String} (h : names ≠ []) : colon ∉ ofNames names := by
  intro hMem
  have hColon : colon ∈ (names.map ofName).flatMap (blank :: ·) :=
    blank_ofNames h ▸ List.mem_cons_of_mem _ hMem
  obtain ⟨ms, hms, hColon⟩ := List.mem_flatMap.1 hColon
  obtain ⟨name, -, rfl⟩ := List.mem_map.1 hms
  rcases List.mem_cons.1 hColon with hBlank | hColon
  · cases hBlank
  · exact colon_not_mem_ofName name hColon

theorem count_blank_flatMap (names : List String) :
    ((names.map ofName).flatMap (blank :: ·)).count blank = names.length := by
  induction names with
  | nil => rfl
  | cons name names ih =>
      have hName : (ofName name).count blank = 0 :=
        List.count_eq_zero.2 (blank_not_mem_ofName name)
      rw [List.map_cons, List.flatMap_cons, List.count_append, ih, List.count_cons_self, hName,
        List.length_cons, Nat.add_comm]

/-- A row has as many blanks that separate as it has borders between names. -/
theorem count_blank_ofNames {names : List String} (h : names ≠ []) :
    (ofNames names).count blank = names.length - 1 := by
  have hCount := congrArg (List.count blank) (blank_ofNames h)
  rw [count_blank_flatMap, List.count_cons_self] at hCount
  exact Nat.eq_sub_of_add_eq hCount

/-! ## The names in a row -/

def raw : Mark → Char
  | char c => c
  | blank => ' '
  | colon => ':'

theorem raw_ofChar (c : Char) : (ofChar c).raw = c := by
  unfold ofChar
  split
  · rename_i hBlank
    exact hBlank.symm
  · split
    · rename_i hColon
      exact hColon.symm
    · rfl

/-- Reading drops the dollars that escape, and nothing else. -/
theorem map_raw_scan (text : List Char) : (scan text).map raw = unescapeChars text := by
  fun_induction scan text with
  | case1 c rest ih => rw [List.map_cons, ih, unescapeChars_dollar]; rfl
  | case2 c rest hDollar ih =>
      rw [List.map_cons, ih, raw_ofChar, unescapeChars]
      exact hDollar
  | case3 => rfl

/-- The names in a row of marks: it is cut at its blanks. -/
def namesIn (marks : List Mark) : List String :=
  (marks.splitOn blank).map fun part => String.ofList (part.map raw)

theorem map_raw_ofName (name : String) : (ofName name).map raw = name.toList := by
  rw [← scan_escape, map_raw_scan, toList_escape, unescapeChars_escapeChars]

/-- **The names of a row** are what it was joined from. -/
theorem namesIn_ofNames {names : List String} (h : names ≠ []) : namesIn (ofNames names) = names := by
  have hNames : ∀ ms ∈ names.map ofName, blank ∉ ms := by
    intro ms hms
    obtain ⟨name, -, rfl⟩ := List.mem_map.1 hms
    exact blank_not_mem_ofName name
  rw [namesIn, ofNames, List.splitOn_intercalate blank hNames (by simpa using h), List.map_map]
  refine List.map_id'' ?_ names
  intro name
  show String.ofList ((ofName name).map raw) = name
  rw [map_raw_ofName, String.ofList_toList]

end Mark

/-! ## Edges -/

/-- The marks that a line has behind its first word, up to the first colon that separates. -/
def targetMarks (line : String) : List Mark :=
  (Mark.scan (line.toList.drop "build ".length)).takeWhile (· != Mark.colon)

def targetsIn (line : String) : List String :=
  Mark.namesIn (targetMarks line)

theorem Edge.exists_rest_of_join {e : Edge} {text : String} (h : Piece.join e.pieces = .ok text) :
    ∃ rest, text.toList = "build ".toList ++ ((" ".intercalate e.targets).toList ++ ':' :: rest) := by
  obtain ⟨texts, hAll, rfl⟩ := Outcome.map_eq_ok.1 h
  obtain ⟨others, -, rfl⟩ := Outcome.map_eq_ok.1 hAll
  rw [String.join_cons, Edge.headline]
  simp only [String.toList_append, List.append_assoc]
  exact ⟨_, rfl⟩

/-- The targets end at the colon behind them, whatever the names are. -/
theorem targetMarks_of_row {names : List String} (h : names ≠ []) {text : String} {rest : List Char}
    (hText : text.toList = "build ".toList ++ ((row names).toList ++ ':' :: rest)) :
    targetMarks text = Mark.ofNames names := by
  have hBehind : text.toList.drop "build ".length = (row names).toList ++ ':' :: rest := by
    rw [hText]
    exact List.drop_left' String.length_toList
  have hRow : ∀ m ∈ Mark.ofNames names, (m != Mark.colon) = true := by
    intro m hm
    rw [bne_iff_ne]
    rintro rfl
    exact Mark.colon_not_mem_ofNames h hm
  rw [targetMarks, hBehind, Mark.reads_escaped h, Mark.scan_cons (by decide),
    List.takeWhile_append_of_pos hRow]
  exact List.append_nil _

/-- **Joining escaped names can be undone.** -/
theorem targetsIn_row {names : List String} (h : names ≠ []) :
    Mark.colon ∉ Mark.scan (row names).toList ∧
      (Mark.scan (row names).toList).count Mark.blank = names.length - 1 ∧
      Mark.namesIn (Mark.scan (row names).toList) = names ∧
      ∀ (e : Edge) (text : String), e.targets = names.map escape →
        Piece.join e.pieces = .ok text →
          targetMarks text = Mark.scan (row names).toList ∧ targetsIn text = names := by
  rw [(Mark.reads_escaped h).scan_eq]
  refine ⟨Mark.colon_not_mem_ofNames h, Mark.count_blank_ofNames h, Mark.namesIn_ofNames h, ?_⟩
  intro e text hTargets hText
  obtain ⟨rest, hRest⟩ := Edge.exists_rest_of_join hText
  rw [hTargets] at hRest
  have hMarks := targetMarks_of_row h hRest
  refine ⟨hMarks, ?_⟩
  rw [targetsIn, hMarks, Mark.namesIn_ofNames h]

/-- Names that end in dollars, an empty one, and one of a blank and a colon. -/
def awkwardNames : List String := ["a$", "", " :", "$$"]

/-- An edge with these targets, whose sources and bindings have colons of their own. -/
def awkwardEdge : Edge where
  targets := awkwardNames.map escape
  sources := some ["b:c"]
  bindings := [("path", .text "x:y")]

/-- The blanks behind dollars still separate. -/
theorem targetsIn_row_small :
    awkwardNames ≠ [] ∧ row awkwardNames = "a$$  $ $: $$$$" ∧
      Mark.namesIn (Mark.scan (row awkwardNames).toList) = awkwardNames ∧
      ∃ text, awkwardEdge.targets = awkwardNames.map escape ∧
        Piece.join awkwardEdge.pieces = .ok text ∧
          targetMarks text = Mark.scan (row awkwardNames).toList ∧
            targetsIn text = awkwardNames := by
  have hSome : awkwardNames ≠ [] := by decide
  have hText : Piece.join awkwardEdge.pieces =
      .ok "build a$$  $ $: $$$$: phony b:c\n  path = x:y\n" := by decide
  obtain ⟨-, -, hNames, hEdge⟩ := targetsIn_row hSome
  exact ⟨hSome, by decide, hNames, _, rfl, hText, hEdge _ _ rfl hText⟩

end NinjaFile
