import NinjaFile.Proofs.Json.Printing
import NinjaFile.Proofs.Json.Tokens

/-!
# Texts of the grammar are read

The reader takes exactly the texts of the grammar: a text is read as a value if it is a
document of the value, and else it is malformed (`read_eq_ok_iff`, `ends_read`). The one
other way to refuse a text is a numeral with too many digits, which a text without so long
a run of digits does not have.

In one direction the induction is on the length of the text, as the reader goes; in the
other it is on how the text was written, with whatever may stand behind a phrase.
-/

namespace NinjaFile.Json

open Outcome (Ends)

/-- The text has no run of more decimal digits than so many. -/
def ShortRuns (limit : Nat) (s : List Char) : Prop :=
  ∀ run, run <:+: s → (∀ c ∈ run, isDigit c = true) → run.length ≤ limit

variable {limit : Nat}

theorem ShortRuns.mono {s t : List Char} (h : ShortRuns limit s) (hSub : t <:+: s) :
    ShortRuns limit t :=
  fun run hRun => h run (hRun.trans hSub)

theorem shortRuns_of_length {s : List Char} (h : s.length ≤ limit) : ShortRuns limit s :=
  fun _ hRun _ => Nat.le_trans hRun.length_le h

/-! ## What is read was written -/

theorem exists_blanks (s : List Char) : ∃ lead, Blanks lead ∧ s = lead ++ skipBlanks s := by
  induction s with
  | nil => exact ⟨[], by simp [Blanks], rfl⟩
  | cons c s ih =>
      obtain ⟨lead, hLead, hText⟩ := ih
      rw [skipBlanks]
      split
      · rename_i hBlank
        exact ⟨c :: lead, List.forall_mem_cons.2 ⟨hBlank, hLead⟩, congrArg (c :: ·) hText⟩
      · exact ⟨[], by simp [Blanks], rfl⟩

theorem skipBlanks_suffix (s : List Char) : skipBlanks s <:+ s := by
  obtain ⟨lead, -, hText⟩ := exists_blanks s
  exact ⟨lead, hText.symm⟩

theorem suffix_behind {rest tail : List Char} {c : Char} (h : skipBlanks rest = c :: tail)
    (front : List Char) : skipBlanks tail <:+ front ++ rest ∧
      (skipBlanks tail).length < (front ++ rest).length := by
  have hTail : c :: tail <:+ rest := h ▸ skipBlanks_suffix rest
  have hBehind : skipBlanks tail <:+ tail := skipBlanks_suffix tail
  constructor
  · exact (hBehind.trans (List.suffix_cons c tail)).trans (hTail.trans (List.suffix_append _ _))
  · have hLength := hTail.length_le
    have hLength' := hBehind.length_le
    rw [List.length_cons] at hLength
    rw [List.length_append]
    omega

theorem length_whole_le {s : List Char} {n : Number} (hShort : ShortRuns limit s)
    (h : n.Written s) : n.whole.length ≤ limit := by
  obtain ⟨exponent, -, hParts⟩ := h.text
  refine hShort n.whole ⟨signText n.negative, fractionText n.fraction ++ exponent, ?_⟩ h.isDigits.2
  rw [hParts, List.append_assoc]

/-- A number has a value under every limit that its digits keep, and always the same one. -/
theorem exists_value {n : Number} (h : n.whole.length ≤ limit) :
    ∃ j, n.value limit = .ok j ∧ ∀ other k, n.value other = .ok k → k = j := by
  unfold Number.value
  split
  · rw [if_pos h]
    refine ⟨_, rfl, ?_⟩
    intro other k hOther
    split at hOther
    · exact (Except.ok.inj hOther).symm
    · cases hOther
  · exact ⟨_, rfl, fun other k hOther => (Except.ok.inj hOther).symm⟩

/-- A list of parts that are read as they were written is read as it was written. -/
theorem ends_list {α : Type} {one : List Char → Except Refusal (α × List Char)}
    {list : List Char → Except Refusal (List α × List Char)} {close : Char}
    (hList : ∀ s, list s = one s >>= fun r => behind close list r.1 r.2)
    {part : α → Phrase} {parts : List α → Phrase}
    (hLast : ∀ a t gap, TextOf (part a) t → Blanks gap → TextOf (parts [a]) (t ++ gap))
    (hNext : ∀ a t gap lead as u, TextOf (part a) t → Blanks gap → Blanks lead →
      TextOf (parts as) u → TextOf (parts (a :: as)) (t ++ (gap ++ ',' :: (lead ++ u))))
    {s : List Char} (hShort : ShortRuns limit s)
    (hOne : ∀ t, t <:+ s → ShortRuns limit t →
      Ends IsMalformed (fun r => ∃ u, t = u ++ r.2 ∧ TextOf (part r.1) u) (one t)) :
    Ends IsMalformed (fun r => ∃ t, s = t ++ close :: r.2 ∧ TextOf (parts r.1) t) (list s) := by
  induction hLength : s.length using Nat.strongRecOn generalizing s with
  | ind n ih =>
      rw [hList]
      refine (hOne s List.suffix_rfl hShort).bind ?_
      rintro ⟨a, rest⟩ ⟨t, hs, hPart⟩
      obtain rfl : s = t ++ rest := hs
      obtain ⟨gap, hGap, hRest⟩ := exists_blanks rest
      dsimp only [behind]
      cases hSkip : skipBlanks rest with
      | nil => exact ⟨_, _, rfl⟩
      | cons c tail =>
          rw [hSkip] at hRest
          dsimp only
          split
          · rename_i hClose
            refine ⟨t ++ gap, ?_, hLast a t gap hPart hGap⟩
            rw [hRest, hClose, List.append_assoc]
          split
          · rename_i hComma
            obtain ⟨lead, hLead, hTail⟩ := exists_blanks tail
            obtain ⟨hSub, hShorter⟩ := suffix_behind hSkip t
            refine (ih _ (by omega) (hShort.mono hSub.isInfix)
              (fun u hu => hOne u (hu.trans hSub)) rfl).map ?_
            rintro ⟨others, after⟩ ⟨u, hOthers, hText⟩
            refine ⟨t ++ (gap ++ ',' :: (lead ++ u)), ?_,
              hNext a t gap lead others u hPart hGap hLead hText⟩
            rw [hRest, hComma, hTail, hOthers]
            simp
          · exact ⟨_, _, rfl⟩

theorem ends_readMember {s : List Char} (hShort : ShortRuns limit s)
    (hValues : ∀ t, t <:+ s → ShortRuns limit t →
      Ends IsMalformed (fun r => ∃ u, t = u ++ r.2 ∧ TextOf (.value r.1) u) (readValue limit t)) :
    Ends IsMalformed (fun r => ∃ t, s = t ++ r.2 ∧ TextOf (.member r.1) t)
      (readMember limit s) := by
  rcases s with - | ⟨q, opened⟩
  · exact ⟨_, _, rfl⟩
  rw [readMember]
  split
  case isFalse => exact ⟨_, _, rfl⟩
  rename_i hQuote
  refine (ends_string (q :: opened) opened).bind ?_
  rintro ⟨name, rest⟩ ⟨ps, cs, hs, hName, rfl⟩
  obtain rfl : opened = cs ++ '"' :: rest := hs
  obtain ⟨gap, hGap, hRest⟩ := exists_blanks rest
  dsimp only [valueBehind]
  cases hSkip : skipBlanks rest with
  | nil => exact ⟨_, _, rfl⟩
  | cons c tail =>
      rw [hSkip] at hRest
      dsimp only
      split
      case isFalse => exact ⟨_, _, rfl⟩
      rename_i hColon
      obtain ⟨lead, hLead, hTail⟩ := exists_blanks tail
      have hSub := (suffix_behind hSkip (q :: (cs ++ ['"']))).1
      have hText : q :: (cs ++ ['"']) ++ rest = q :: (cs ++ '"' :: rest) := by simp
      rw [hText] at hSub
      refine (hValues _ hSub (hShort.mono hSub.isInfix)).map ?_
      rintro ⟨j, after⟩ ⟨u, hValue, hPhrase⟩
      refine ⟨'"' :: (cs ++ '"' :: (gap ++ ':' :: (lead ++ u))), ?_,
        .member hName hGap hLead hPhrase⟩
      rw [hQuote, hRest, hColon, hTail, hValue]
      simp

/-- What is read behind an opening bracket was written, if what is read as a list was. -/
theorem ends_container {α : Type} {list : List Char → Except Refusal (List α × List Char)}
    {bracket close : Char} {missing : Defect} {whole : List α → Json} {parts : List α → Phrase}
    (hNone : ∀ lead, Blanks lead → TextOf (.value (whole [])) (bracket :: (lead ++ [close])))
    (hSome : ∀ lead t as, Blanks lead → TextOf (parts as) t →
      TextOf (.value (whole as)) (bracket :: (lead ++ (t ++ [close]))))
    {s : List Char}
    (hList : Ends IsMalformed (fun r => ∃ t, skipBlanks s = t ++ close :: r.2 ∧
      TextOf (parts r.1) t) (list (skipBlanks s))) :
    Ends IsMalformed (fun r => ∃ t, bracket :: s = t ++ r.2 ∧ TextOf (.value r.1) t)
      (container close missing list whole s) := by
  obtain ⟨lead, hLead, hText⟩ := exists_blanks s
  unfold container
  split
  · exact ⟨_, _, rfl⟩
  rename_i c tail hSkip
  split
  · rename_i hClose
    refine ⟨_, ?_, hNone lead hLead⟩
    rw [hText, hSkip, hClose]
    simp
  · rw [← hSkip]
    refine hList.map ?_
    rintro ⟨as, rest⟩ ⟨t, hRest, hParts⟩
    refine ⟨_, ?_, hSome lead t as hLead hParts⟩
    rw [hText, hRest]
    simp

/-- **What is read was written**: a value at the front of a text is read from one of its texts, and
else the text is malformed. -/
theorem ends_readValue {s : List Char} (hShort : ShortRuns limit s) :
    Ends IsMalformed (fun r => ∃ t, s = t ++ r.2 ∧ TextOf (.value r.1) t) (readValue limit s) := by
  induction hLength : s.length using Nat.strongRecOn generalizing s with
  | ind n ih =>
      rcases s with - | ⟨c, tail⟩
      · rw [readValue_nil]
        exact ⟨_, _, rfl⟩
      rw [List.length_cons] at hLength
      have hSub : skipBlanks tail <:+ tail := skipBlanks_suffix tail
      have hInside : ShortRuns limit (skipBlanks tail) :=
        hShort.mono (hSub.trans (List.suffix_cons c tail)).isInfix
      have hValues : ∀ t, t <:+ skipBlanks tail → ShortRuns limit t →
          Ends IsMalformed (fun r => ∃ u, t = u ++ r.2 ∧ TextOf (.value r.1) u)
            (readValue limit t) := by
        intro t hPart hRuns
        have hBound := (hPart.trans hSub).length_le
        exact ih t.length (by omega) hRuns rfl
      by_cases hBracket : c = '['
      · rw [hBracket, readValue_bracket]
        refine ends_container (fun _ => .noItems) (fun _ _ _ => .array) ?_
        exact ends_list (readItems_bind limit) (fun _ _ _ => .lastItem)
          (fun _ _ _ _ _ _ => .nextItem) hInside hValues
      by_cases hBrace : c = '\x7b'
      · rw [hBrace, readValue_brace]
        have hMembers := ends_list (readMembers_bind limit) (fun _ _ _ => .lastMember)
          (fun _ _ _ _ _ _ => .nextMember) hInside fun t hPart hRuns =>
            ends_readMember hRuns fun u hu => hValues u (hu.trans hPart)
        apply ends_container _ (fun _ _ _ => .object) hMembers
        exact fun _ => .noMembers
      rw [readValue_cons, if_neg hBracket, if_neg hBrace]
      -- a string, a constant, or else a number
      split
      · rename_i hQuote
        refine (ends_string (c :: tail) tail).map ?_
        rintro ⟨text, rest⟩ ⟨ps, t, hText, hPieces, rfl⟩
        refine ⟨'"' :: (t ++ ['"']), ?_, .string hPieces⟩
        rw [hQuote, hText]
        simp
      split
      · rename_i r hConstant
        obtain ⟨word, hMem, hText⟩ := mem_of_constantIn? hConstant
        exact ⟨word, hText, .word hMem⟩
      split
      · exact ⟨_, _, rfl⟩
      · rename_i number rest hNumber
        obtain ⟨t, hText, hWritten⟩ := written_of_number? hNumber
        have hRuns : ShortRuns limit t := hShort.mono (hText ▸ (List.prefix_append t rest).isInfix)
        obtain ⟨j, hValue, -⟩ := exists_value (length_whole_le hRuns hWritten)
        rw [hValue]
        exact ⟨t, hText, .number hWritten hValue⟩

/-! ## What is written is read -/

/-- A phrase is read in front of what may stand behind it. -/
def Phrase.Reads (limit : Nat) (s : List Char) : Phrase → Prop
  | .value j => ∀ rest, Stops rest → readValue limit (s ++ rest) = .ok (j, rest)
  | .items js => ∀ rest, readItems limit (s ++ ']' :: rest) = .ok (js, rest)
  | .member m => ∀ rest, Stops rest → readMember limit (s ++ rest) = .ok (m, rest)
  | .members ms => ∀ rest, readMembers limit (s ++ '\x7d' :: rest) = .ok (ms, rest)

theorem skipBlanks_phrase {p : Phrase} {s : List Char} (h : TextOf p s) {lead : List Char}
    (hLead : Blanks lead) (rest : List Char) :
    skipBlanks (lead ++ (s ++ rest)) = s ++ rest := by
  obtain ⟨c, cs, rfl, hOpens⟩ := h.exists_head
  rw [skipBlanks_append hLead, List.cons_append, skipBlanks_cons hOpens.1]

/-! ### Words and numbers -/

theorem readValue_of_mem {word : List Char} {j : Json} (h : (word, j) ∈ constants)
    (rest : List Char) : readValue limit (word ++ rest) = .ok (j, rest) := by
  simp only [constants, List.mem_cons, Prod.mk.injEq, List.not_mem_nil, or_false] at h
  rcases h with ⟨rfl, rfl⟩ | ⟨rfl, rfl⟩ | ⟨rfl, rfl⟩ | ⟨rfl, rfl⟩ | ⟨rfl, rfl⟩ | ⟨rfl, rfl⟩
  all_goals exact readValue_word rfl (by decide) (by decide) (by decide)

theorem readValue_of_written {n : Number} {s rest : List Char} {j : Json} {other : Nat}
    (h : n.Written s) (hShort : ShortRuns limit s) (hOther : n.value other = .ok j)
    (hRest : Stops rest) : readValue limit (s ++ rest) = .ok (j, rest) := by
  obtain ⟨k, hValue, hSame⟩ := exists_value (length_whole_le hShort h)
  rw [← hSame other j hOther] at hValue
  obtain ⟨d, t, hDigit, hHead⟩ := h.exists_head
  have hNumber := number?_of_written h hRest
  have hBegins : ∃ c cs, s ++ rest = c :: cs ∧ (c = '-' ∨ isDigit c = true) ∧
      constant? (c :: cs) = none := by
    rw [hHead]
    unfold signText
    split
    · exact ⟨'-', _, rfl, Or.inl rfl, constant?_minus hDigit _⟩
    · exact ⟨d, _, rfl, Or.inr hDigit, constant?_digit hDigit _⟩
  obtain ⟨c, cs, hText, hFirst, hConstant⟩ := hBegins
  rw [hText] at hNumber ⊢
  exact readValue_number hFirst hConstant hNumber hValue

/-! ### Phrases -/

/-- **Every text of a phrase is read**, in front of what may stand behind it. -/
theorem TextOf.reads {p : Phrase} {s : List Char} (h : TextOf p s) (hShort : ShortRuns limit s) :
    p.Reads limit s := by
  induction h with
  | word mem => exact fun rest _ => readValue_of_mem mem rest
  | number written value =>
      exact fun rest hRest => readValue_of_written written hShort value hRest
  | @string ps t pieces =>
      intro rest _
      have hText : '"' :: (t ++ ['"']) ++ rest = '"' :: (t ++ '"' :: rest) := by simp
      rw [hText, readValue_cons, if_pos rfl, string_of_text pieces]
      rfl
  | @noItems lead blanks =>
      intro rest _
      have hText : '[' :: (lead ++ [']']) ++ rest = '[' :: (lead ++ ']' :: rest) := by simp
      rw [hText, readValue_bracket, container_close blanks (by decide)]
  | @array lead t js blanks items ih =>
      intro rest _
      have hItems := ih (hShort.mono ⟨'[' :: lead, [']'], by simp⟩) rest
      have hText : '[' :: (lead ++ (t ++ [']'])) ++ rest = '[' :: (lead ++ (t ++ ']' :: rest)) := by
        simp
      obtain ⟨c, cs, rfl, hBlank, hClose, -⟩ := items.exists_head
      rw [hText, readValue_bracket]
      exact container_list blanks hBlank hClose hItems
  | @noMembers lead blanks =>
      intro rest _
      have hText : '\x7b' :: (lead ++ ['\x7d']) ++ rest = '\x7b' :: (lead ++ '\x7d' :: rest) := by
        simp
      rw [hText, readValue_brace, container_close blanks (by decide)]
      rfl
  | @object lead t ms blanks members ih =>
      intro rest _
      have hMembers := ih (hShort.mono ⟨'\x7b' :: lead, ['\x7d'], by simp⟩) rest
      have hText : '\x7b' :: (lead ++ (t ++ ['\x7d'])) ++ rest =
          '\x7b' :: (lead ++ (t ++ '\x7d' :: rest)) := by
        simp
      obtain ⟨c, cs, rfl, hBlank, -, hClose, -⟩ := members.exists_head
      rw [hText, readValue_brace]
      exact container_list blanks hBlank hClose hMembers
  | @lastItem t gap j item blanks ih =>
      intro rest
      have hItem := ih (hShort.mono (List.prefix_append t gap).isInfix) (gap ++ ']' :: rest)
        (stops_append blanks (stops_cons rfl rest))
      rw [List.append_assoc, readItems_of_readValue hItem]
      exact behind_close blanks (by decide) j
  | @nextItem t gap lead u j js item blanks blanks' items ih ihItems =>
      intro rest
      have hItem := ih (hShort.mono (List.prefix_append t _).isInfix)
        (gap ++ ',' :: (lead ++ (u ++ ']' :: rest))) (stops_append blanks (stops_cons rfl _))
      have hItems := ihItems (hShort.mono ⟨t ++ (gap ++ ',' :: lead), [], by simp⟩) rest
      have hText : t ++ (gap ++ ',' :: (lead ++ u)) ++ ']' :: rest =
          t ++ (gap ++ ',' :: (lead ++ (u ++ ']' :: rest))) := by
        simp
      rw [hText, readItems_of_readValue hItem]
      apply behind_comma blanks (by decide)
      rw [skipBlanks_phrase items blanks', hItems]
  | @member ps t gap lead u j name blanks blanks' value ih =>
      intro rest hRest
      have hValue := ih (hShort.mono ⟨'"' :: (t ++ '"' :: (gap ++ ':' :: lead)), [], by simp⟩) rest
        hRest
      have hText : '"' :: (t ++ '"' :: (gap ++ ':' :: (lead ++ u))) ++ rest =
          '"' :: (t ++ '"' :: (gap ++ ':' :: (lead ++ (u ++ rest)))) := by
        simp
      rw [hText, readMember, if_pos rfl, string_of_text name]
      apply valueBehind_colon blanks
      rw [skipBlanks_phrase value blanks', hValue]
  | @lastMember t gap m first blanks ih =>
      intro rest
      have hFirst := ih (hShort.mono (List.prefix_append t gap).isInfix) (gap ++ '\x7d' :: rest)
        (stops_append blanks (stops_cons rfl rest))
      rw [List.append_assoc, readMembers_of_readMember hFirst]
      exact behind_close blanks (by decide) m
  | @nextMember t gap lead u m ms first blanks blanks' members ih ihMembers =>
      intro rest
      have hFirst := ih (hShort.mono (List.prefix_append t _).isInfix)
        (gap ++ ',' :: (lead ++ (u ++ '\x7d' :: rest))) (stops_append blanks (stops_cons rfl _))
      have hMembers := ihMembers (hShort.mono ⟨t ++ (gap ++ ',' :: lead), [], by simp⟩) rest
      have hText : t ++ (gap ++ ',' :: (lead ++ u)) ++ '\x7d' :: rest =
          t ++ (gap ++ ',' :: (lead ++ (u ++ '\x7d' :: rest))) := by
        simp
      rw [hText, readMembers_of_readMember hFirst]
      apply behind_comma blanks (by decide)
      rw [skipBlanks_phrase members blanks', hMembers]

/-! ## Whole texts -/

/-- **A whole text is read exactly if it is a document**, and else it is malformed. -/
theorem ends_read {s : List Char} (hShort : ShortRuns limit s) :
    Ends IsMalformed (Document s) (read limit s) := by
  unfold read
  split
  · exact ⟨_, _, rfl⟩
  obtain ⟨lead, hLead, hText⟩ := exists_blanks s
  have hEnds := ends_readValue (hShort.mono (skipBlanks_suffix s).isInfix)
  generalize readValue limit (skipBlanks s) = result at hEnds ⊢
  rcases result with refusal | ⟨j, rest⟩
  · exact hEnds
  obtain ⟨t, hFront, hValue⟩ := hEnds
  obtain ⟨gap, hGap, hRest⟩ := exists_blanks rest
  dsimp only at hFront ⊢
  split
  · rename_i hNothing
    rw [hNothing, List.append_nil] at hRest
    refine ⟨lead, t, gap, hLead, hValue, hGap, ?_⟩
    rw [hText, hFront, hRest]
  · exact ⟨_, _, rfl⟩

theorem read_of_document {s : List Char} {j : Json} (hShort : ShortRuns limit s)
    (h : Document s j) : read limit s = .ok j := by
  obtain ⟨lead, t, gap, hLead, hValue, hGap, rfl⟩ := h
  have hMark : (lead ++ (t ++ gap)).head? ≠ some '\uFEFF' := by
    obtain ⟨c, cs, rfl, -, -, -, hOpens⟩ := hValue.exists_head
    rcases lead with - | ⟨b, lead⟩
    · exact fun hEq => hOpens (Option.some.inj hEq)
    · intro hEq
      have hBlank := hLead b List.mem_cons_self
      rw [Option.some.inj hEq] at hBlank
      exact absurd hBlank (by decide)
  have hRead := hValue.reads (hShort.mono ⟨lead, gap, by simp⟩) gap (stops_blanks hGap)
  rw [read, if_neg hMark, skipBlanks_phrase hValue hLead, hRead]
  simp only [skipBlanks_eq_nil hGap]

theorem read_eq_ok_iff {s : List Char} {j : Json} (hShort : ShortRuns limit s) :
    read limit s = .ok j ↔ Document s j := by
  refine ⟨fun hRead => ?_, read_of_document hShort⟩
  have hEnds := ends_read hShort
  rwa [hRead] at hEnds

theorem document_unique {s : List Char} {j k : Json} (h : Document s j) (hOther : Document s k) :
    j = k := by
  have hShort : ShortRuns s.length s := shortRuns_of_length (Nat.le_refl _)
  have hRead := read_of_document hShort h
  rw [read_of_document hShort hOther] at hRead
  exact (Except.ok.inj hRead).symm

end NinjaFile.Json
