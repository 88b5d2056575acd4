import NinjaFile.Escape
import NinjaFile.Proofs.Layout.Blocks

/-!
# Reading escaped names

A line of names is read from the left: a dollar takes the character behind it as
it is, and only a blank or a colon that is met otherwise is a separator. So the
reader has a state, and what it makes of a text depends on where it starts.

The notion that makes reading compositional is `Reads`: a text reads as some
marks whatever follows it. Escaped names read as their raw characters, and so a
row of them can be taken apart at its separators.
-/

namespace NinjaFile

/-- What the reader of a line meets: a character that stands for itself, or a separator. -/
inductive Mark where
  | char (c : Char)
  | blank
  | colon
  deriving DecidableEq, Repr

namespace Mark

def ofChar (c : Char) : Mark :=
  if c = ' ' then blank else if c = ':' then colon else char c

/-- The marks of a text. A dollar takes the next character as it is. -/
def scan : List Char → List Mark
  | '$' :: c :: rest => char c :: scan rest
  | c :: rest => ofChar c :: scan rest
  | [] => []

theorem scan_dollar (c : Char) (rest : List Char) :
    scan ('$' :: c :: rest) = char c :: scan rest := by
  rw [scan]

theorem scan_cons {c : Char} (h : c ≠ '$') (rest : List Char) :
    scan (c :: rest) = ofChar c :: scan rest := by
  rw [scan]
  intro d tail hDollar
  exact absurd hDollar h

theorem ofChar_of_not_special {c : Char} (h : isSpecial c = false) : ofChar c = char c := by
  simp only [isSpecial, Bool.or_eq_false_iff, beq_eq_false_iff_ne] at h
  rw [ofChar, if_neg h.1.1, if_neg h.1.2]

/-! ## Texts that read alike in front of any text -/

/-- A text reads as some marks, whatever follows it. -/
def Reads (text : List Char) (marks : List Mark) : Prop :=
  ∀ rest, scan (text ++ rest) = marks ++ scan rest

theorem Reads.scan_eq {text : List Char} {marks : List Mark} (h : Reads text marks) :
    scan text = marks := by
  have hNil := h []
  simpa [scan] using hNil

theorem reads_nil : Reads [] [] :=
  fun _ => rfl

theorem Reads.append {a b : List Char} {as bs : List Mark} (ha : Reads a as) (hb : Reads b bs) :
    Reads (a ++ b) (as ++ bs) := by
  intro rest
  rw [List.append_assoc, ha, hb, List.append_assoc]

theorem reads_ofChar {c : Char} (h : c ≠ '$') : Reads [c] [ofChar c] :=
  fun rest => scan_cons h rest

theorem reads_escapeChar (c : Char) : Reads (escapeChar c) [char c] := by
  unfold escapeChar
  split
  · exact fun rest => scan_dollar c rest
  · rename_i hPlain
    have hDollar : c ≠ '$' := by
      rintro rfl
      exact hPlain rfl
    rw [← ofChar_of_not_special (by simpa using hPlain)]
    exact reads_ofChar hDollar

theorem reads_escapeChars (raw : List Char) : Reads (escapeChars raw) (raw.map char) := by
  induction raw with
  | nil => exact reads_nil
  | cons c raw ih => exact (reads_escapeChar c).append ih

theorem reads_plain {text : List Char} (h : ∀ c ∈ text, isSpecial c = false) :
    Reads text (text.map char) := by
  have hSame : escapeChars text = text := by
    induction text with
    | nil => rfl
    | cons c text ih =>
        rw [escapeChars_cons, ih fun d hd => h d (List.mem_cons_of_mem _ hd),
          escapeChar_plain (h c List.mem_cons_self)]
        rfl
  have hReads := reads_escapeChars text
  rwa [hSame] at hReads

theorem reads_row {texts : List (List Char)} (h : ∀ t ∈ texts, Reads t (scan t)) :
    Reads (texts.flatMap (' ' :: ·)) ((texts.map scan).flatMap (blank :: ·)) := by
  induction texts with
  | nil => exact reads_nil
  | cons t texts ih =>
      have hBlank : Reads [' '] [blank] := reads_ofChar (by decide)
      have hText := h t List.mem_cons_self
      have hRest := ih fun u hu => h u (List.mem_cons_of_mem _ hu)
      exact (hBlank.append hText).append hRest

theorem char_injective : Function.Injective char :=
  fun _ _ h => Mark.char.inj h

end Mark

/-- A row is cut at its separators in one way only. -/
theorem row_injective {α : Type} {a : α} :
    ∀ {xs ys : List (List α)}, (∀ x ∈ xs, a ∉ x) → (∀ y ∈ ys, a ∉ y) →
      xs.flatMap (a :: ·) = ys.flatMap (a :: ·) → xs = ys
  | [], [], _, _, _ => rfl
  | [], y :: ys, _, _, h => by simp at h
  | x :: xs, [], _, _, h => by simp at h
  | x :: xs, y :: ys, hx, hy, h => by
      simp only [List.flatMap_cons, List.cons_append, List.cons.injEq, true_and] at h
      have stop (zs : List (List α)) :
          ∀ z, (zs.flatMap (a :: ·)).head? = some z → ¬ z ≠ a := by
        intro z hz
        cases zs with
        | nil => cases hz
        | cons w zs => cases hz; simp
      have free {w : List α} (hw : a ∉ w) : ∀ b ∈ w, b ≠ a := fun b hb he => hw (he ▸ hb)
      -- the first part ends where the next separator stands
      obtain ⟨rfl, hRest⟩ := append_inj_of_test (· ≠ a) (free (hx x List.mem_cons_self))
        (free (hy y List.mem_cons_self)) (stop xs) (stop ys) h
      rw [row_injective (fun z hz => hx z (List.mem_cons_of_mem _ hz))
        (fun z hz => hy z (List.mem_cons_of_mem _ hz)) hRest]

/-! ## Words and names -/

def IsLine (s : String) : Prop :=
  '\n' ∉ s.toList

instance (s : String) : Decidable (IsLine s) :=
  inferInstanceAs (Decidable (¬ _))

/-- The characters of words: neither blanks nor line breaks nor the signs that mean something in a
build file. -/
def isWordChar (c : Char) : Bool :=
  !([' ', '\n', ':', '$', '|', '='].contains c)

/-- A word, of word characters and not empty. Any text over letters, digits, underscores, hyphens
and points is one. -/
def IsWord (s : String) : Prop :=
  s ≠ "" ∧ s.toList.all isWordChar = true

instance (s : String) : Decidable (IsWord s) :=
  inferInstanceAs (Decidable (_ ∧ _))

/-- The written form of a raw name that is not empty and has no line break and no bar. -/
def IsName (s : String) : Prop :=
  ∃ raw : String, raw ≠ "" ∧ '\n' ∉ raw.toList ∧ '|' ∉ raw.toList ∧ s = escape raw

/-- Letters, digits, underscores, dashes and dots make words. -/
theorem isWord_of_alphanum {s : String} (hs : s ≠ "")
    (h : ∀ c ∈ s.toList, c.isAlphanum ∨ c = '_' ∨ c = '-' ∨ c = '.') : IsWord s := by
  refine ⟨hs, List.all_eq_true.2 fun c hc => ?_⟩
  have hNot : ¬ c ∈ [' ', '\n', ':', '$', '|', '='] := by
    intro hMem
    have hc := h c hc
    simp only [List.mem_cons, List.not_mem_nil, or_false] at hMem
    rcases hMem with rfl | rfl | rfl | rfl | rfl | rfl <;> revert hc <;> decide
  rw [isWordChar, List.contains_eq_mem, decide_eq_false hNot]
  rfl

theorem IsWord.not_mem {s : String} (h : IsWord s) {c : Char} (hc : isWordChar c = false) :
    c ∉ s.toList := by
  intro hMem
  rw [List.all_eq_true.1 h.2 c hMem] at hc
  cases hc

theorem IsWord.isLine {s : String} (h : IsWord s) : IsLine s :=
  h.not_mem (by decide)

theorem IsWord.head_ne_blank {s : String} (h : IsWord s) : s.toList.head? ≠ some ' ' := by
  intro hHead
  exact h.not_mem (by decide) (List.mem_of_head? hHead)

/-- A text on one line that reads by itself, as characters. -/
structure IsReadable (s : String) : Prop where
  line : IsLine s
  reads : Mark.Reads s.toList (Mark.scan s.toList)
  marks : ∀ m ∈ Mark.scan s.toList, ∃ c, m = Mark.char c

/-- A readable text that no bar is read from. -/
structure IsToken (s : String) : Prop extends IsReadable s where
  noBar : Mark.char '|' ∉ Mark.scan s.toList

theorem isReadable_of_reads {s : String} {cs : List Char} (hLine : IsLine s)
    (h : Mark.Reads s.toList (cs.map Mark.char)) : IsReadable s := by
  have hScan := h.scan_eq
  refine ⟨hLine, hScan ▸ h, ?_⟩
  intro m hm
  rw [hScan] at hm
  obtain ⟨c, -, rfl⟩ := List.mem_map.1 hm
  exact ⟨c, rfl⟩

theorem isToken_of_reads {s : String} {cs : List Char} (hLine : IsLine s) (hBar : '|' ∉ cs)
    (h : Mark.Reads s.toList (cs.map Mark.char)) : IsToken s := by
  refine ⟨isReadable_of_reads hLine h, ?_⟩
  rw [h.scan_eq]
  intro hMem
  obtain ⟨c, hc, hEq⟩ := List.mem_map.1 hMem
  exact hBar (Mark.char.inj hEq ▸ hc)

theorem isReadable_plain {s : String} (hLine : IsLine s)
    (h : s.toList.all (fun c => !isSpecial c) = true) : IsReadable s := by
  refine isReadable_of_reads hLine (Mark.reads_plain fun c hc => ?_)
  simpa using List.all_eq_true.1 h c hc

theorem IsWord.reads {s : String} (h : IsWord s) :
    Mark.Reads s.toList (s.toList.map Mark.char) := by
  apply Mark.reads_plain
  intro c hc
  have hNe {d : Char} (hd : isWordChar d = false) : c ≠ d := fun he => h.not_mem hd (he ▸ hc)
  simp [isSpecial, hNe (by decide : isWordChar ' ' = false),
    hNe (by decide : isWordChar ':' = false), hNe (by decide : isWordChar '$' = false)]

theorem IsWord.isToken {s : String} (h : IsWord s) : IsToken s :=
  isToken_of_reads h.isLine (h.not_mem (by decide)) h.reads

theorem reads_escape (raw : String) :
    Mark.Reads (escape raw).toList (raw.toList.map Mark.char) := by
  rw [toList_escape]
  exact Mark.reads_escapeChars _

theorem mem_escapeChars {c : Char} {raw : List Char} (h : c ∈ escapeChars raw) :
    c = '$' ∨ c ∈ raw := by
  obtain ⟨d, hd, hc⟩ := List.mem_flatMap.1 h
  unfold escapeChar at hc
  split at hc
  · rcases List.mem_cons.1 hc with rfl | hc
    · exact Or.inl rfl
    · exact Or.inr (List.mem_singleton.1 hc ▸ hd)
  · exact Or.inr (List.mem_singleton.1 hc ▸ hd)

theorem IsName.isLine {s : String} (h : IsName s) : IsLine s := by
  obtain ⟨raw, -, hLine, -, rfl⟩ := h
  intro hMem
  rw [toList_escape] at hMem
  rcases mem_escapeChars hMem with h | h
  · cases h
  · exact hLine h

theorem IsName.isToken {s : String} (h : IsName s) : IsToken s := by
  have hLine := h.isLine
  obtain ⟨raw, -, -, hBar, rfl⟩ := h
  exact isToken_of_reads hLine hBar (reads_escape raw)

theorem IsName.eq_of_scan {s t : String} (hs : IsName s) (ht : IsName t)
    (h : Mark.scan s.toList = Mark.scan t.toList) : s = t := by
  obtain ⟨raw, -, -, -, rfl⟩ := hs
  obtain ⟨raw', -, -, -, rfl⟩ := ht
  rw [(reads_escape raw).scan_eq, (reads_escape raw').scan_eq] at h
  rw [String.toList_injective (List.map_injective_iff.2 Mark.char_injective h)]

end NinjaFile
