import NinjaFile.Storage.Path

/-!
# Paths from texts

A path that is read from a text is shown in a normal form (`Path.toString_ofString`):
its names between single slashes, without those that are empty or a dot, and a dot if no
name is left. What it is shown as names the same path again (`Path.ofString_toString`).

All this is about relative paths. The slash in front of an absolute one would be left out.
-/

namespace NinjaFile.Path

theorem segments_eq_splitOn (text : List Char) : segments text = text.splitOn '/' := by
  rw [List.splitOn_eq_splitOnP]
  induction text with
  | nil => rfl
  | cons c text ih =>
      rw [segments, List.splitOnP_cons_eq_if_modifyHead, ih]
      by_cases hSlash : c = '/'
      · rw [if_pos hSlash, if_pos (beq_iff_eq.2 hSlash)]
      · rw [if_neg hSlash, if_neg fun h => hSlash (beq_iff_eq.1 h)]
        cases hParts : text.splitOnP (· == '/') with
        | nil => exact absurd hParts (List.splitOnP_ne_nil _ _)
        | cons part parts => rfl

theorem slash_not_mem_segments {text : List Char} : ∀ part ∈ segments text, '/' ∉ part := by
  fun_induction segments text with
  | case1 => simp
  | case2 rest ih => simpa using ih
  | case3 c rest hSlash hNil ih =>
      simpa using Ne.symm hSlash
  | case4 c rest hSlash first more hCons ih =>
      rw [hCons, List.forall_mem_cons] at ih
      rw [List.forall_mem_cons]
      refine ⟨?_, ih.2⟩
      intro hMem
      rcases List.mem_cons.1 hMem with h | h
      · exact hSlash h.symm
      · exact ih.1 h

/-- The names in a text: what is between slashes, but for what is empty or a dot. -/
def names (text : String) : List (List Char) :=
  (text.toList.splitOn '/').filter fun name => name != [] && name != ['.']

/-- Every part of the path can be a name. -/
def Normal (p : Path) : Prop :=
  ∀ part ∈ p.parts, part ≠ "" ∧ part ≠ "." ∧ '/' ∉ part.toList

theorem ofString_eq (text : String) : ofString text = ⟨(names text).map String.ofList⟩ := by
  rw [ofString, segments_eq_splitOn, names]

theorem normal_ofString (text : String) : (ofString text).Normal := by
  intro part hPart
  obtain ⟨name, hName, rfl⟩ := List.mem_map.1 hPart
  obtain ⟨hMem, hCounts⟩ := List.mem_filter.1 hName
  obtain ⟨hSome, hDot⟩ := Bool.and_eq_true_iff.1 hCounts
  have hText : (String.ofList name).toList = name := String.toList_ofList
  refine ⟨?_, ?_, hText.symm ▸ slash_not_mem_segments name hMem⟩
  · intro hEmpty
    rw [hEmpty] at hText
    exact bne_iff_ne.1 hSome hText.symm
  · intro hEqDot
    rw [hEqDot] at hText
    exact bne_iff_ne.1 hDot hText.symm

theorem toList_toString {p : Path} (h : p.parts ≠ []) :
    p.toString.toList = ['/'].intercalate (p.parts.map String.toList) := by
  rw [toString, if_neg (by simpa using h), String.toList_intercalate]
  rfl

/-- **A path is shown in normal form.** -/
theorem toString_ofString (text : String) :
    (ofString text).toString =
      if names text = [] then "." else String.ofList (['/'].intercalate (names text)) := by
  rw [ofString_eq]
  by_cases hNone : names text = []
  · rw [if_pos hNone, hNone]
    rfl
  · have hSame : ((names text).map String.ofList).map String.toList = names text := by
      rw [List.map_map]
      exact List.map_id'' (fun _ => String.toList_ofList) _
    rw [if_neg hNone, ← String.toList_inj, toList_toString (by simpa using hNone), hSame,
      String.toList_ofList]

example : (ofString "./a//b/../c.d/").toString = "a/b/../c.d" := by decide

/-- A path whose parts can be names is read from what it is shown as. -/
theorem ofString_toString {p : Path} (h : p.Normal) : ofString p.toString = p := by
  obtain ⟨parts⟩ := p
  by_cases hNone : parts = []
  · subst hNone
    rfl
  · have hSlash : ∀ name ∈ parts.map String.toList, '/' ∉ name := by
      intro name hName
      obtain ⟨part, hPart, rfl⟩ := List.mem_map.1 hName
      exact (h part hPart).2.2
    have hCounts : ∀ name ∈ parts.map String.toList, (name != [] && name != ['.']) = true := by
      intro name hName
      obtain ⟨part, hPart, rfl⟩ := List.mem_map.1 hName
      obtain ⟨hSome, hDot, -⟩ := h part hPart
      rw [Bool.and_eq_true_iff, bne_iff_ne, bne_iff_ne]
      exact ⟨fun hEq => hSome (String.toList_inj.1 hEq), fun hEq => hDot (String.toList_inj.1 hEq)⟩
    have hSame : (parts.map String.toList).map String.ofList = parts := by
      rw [List.map_map]
      exact List.map_id'' (fun _ => String.ofList_toList) _
    rw [ofString_eq, names, toList_toString hNone,
      List.splitOn_intercalate '/' hSlash (by simpa using hNone), List.filter_eq_self.2 hCounts,
      hSame]

theorem ofString_toString_ofString (text : String) :
    ofString (ofString text).toString = ofString text :=
  ofString_toString (normal_ofString text)

end NinjaFile.Path
