import NinjaFile.Proofs.Endings
import NinjaFile.Proofs.Json.Grammar
import NinjaFile.Proofs.Json.Strings

/-!
# Tokens of the grammar are read

A number or a string at the front of a text is read exactly if the text begins with one of
its texts, as far as the reader goes: what is read was written (`written_of_number?`,
`ends_string`), and what is written is read in front of anything that does not go on
with it (`number?_of_written`, `string_of_text`).

A number ends where no more of it can follow, which each of its parts has to see for the
next: digits end in front of anything but a digit, and so on.
-/

namespace NinjaFile.Json

open Outcome (Ends)

/-! ## What is read was written -/

theorem digitsOf_append_afterDigits (s : List Char) : digitsOf s ++ afterDigits s = s := by
  induction s with
  | nil => rfl
  | cons c s ih =>
      rw [digitsOf, afterDigits]
      split
      · rw [List.cons_append, ih]
      · rfl

theorem signText_numberSign (s : List Char) :
    s = signText (numberSign s).1 ++ (numberSign s).2 := by
  cases s with
  | nil => rfl
  | cons c s =>
      rw [numberSign]
      split
      · rename_i hMinus
        rw [hMinus]
        rfl
      · rfl

theorem whole_of_wholePart? {s ds rest : List Char} (h : wholePart? s = some (ds, rest)) :
    s = ds ++ rest ∧ (ds = ['0'] ∨ IsDigits ds ∧ ds.head? ≠ some '0') := by
  cases s with
  | nil => cases h
  | cons c s =>
      rw [wholePart?] at h
      split at h
      · rename_i hZero
        cases h
        rw [hZero]
        exact ⟨rfl, Or.inl rfl⟩
      · rename_i hZero
        split at h
        · rename_i hDigit
          cases h
          refine ⟨by rw [List.cons_append, digitsOf_append_afterDigits], Or.inr ⟨⟨by simp, ?_⟩, ?_⟩⟩
          · exact List.forall_mem_cons.2 ⟨hDigit, fun d hd => isDigit_of_mem_digitsOf hd⟩
          · exact fun hHead => hZero (Option.some.inj hHead)
        · cases h

theorem fraction_of_fractionPart (s : List Char) :
    s = fractionText (fractionPart s).1 ++ (fractionPart s).2 ∧
      ∀ d ∈ (fractionPart s).1, isDigit d = true := by
  cases s with
  | nil => exact ⟨rfl, by simp [fractionPart]⟩
  | cons c s =>
      rw [fractionPart]
      split
      · rename_i hPoint
        rw [fractionText, if_neg hPoint.2, hPoint.1, List.cons_append, digitsOf_append_afterDigits]
        exact ⟨rfl, fun d hd => isDigit_of_mem_digitsOf hd⟩
      · exact ⟨rfl, by simp⟩

theorem exponentPart_cons (c : Char) (s : List Char) :
    exponentPart (c :: s) =
      if c = 'e' ∨ c = 'E' then
        if digitsOf (exponentSign s).2 = [] then (none, c :: s)
        else (some ((exponentSign s).1, digitsOf (exponentSign s).2),
          afterDigits (exponentSign s).2)
      else (none, c :: s) :=
  rfl

theorem mark_of_exponentSign {c : Char} (h : c = 'e' ∨ c = 'E') (s : List Char) :
    ∃ mark ∈ exponentMarks (exponentSign s).1, c :: s = mark ++ (exponentSign s).2 := by
  rcases s with - | ⟨d, s⟩
  · refine ⟨[c], ?_, rfl⟩
    rcases h with rfl | rfl <;> decide
  · rw [exponentSign]
    split
    · rename_i hMinus
      refine ⟨[c, '-'], ?_, by rw [hMinus]; rfl⟩
      rcases h with rfl | rfl <;> simp [exponentMarks]
    · split
      · rename_i hPlus
        refine ⟨[c, '+'], ?_, by rw [hPlus]; rfl⟩
        rcases h with rfl | rfl <;> simp [exponentMarks]
      · refine ⟨[c], ?_, rfl⟩
        rcases h with rfl | rfl <;> simp [exponentMarks]

theorem exponent_of_exponentPart (s : List Char) :
    ∃ text, ExponentText (exponentPart s).1 text ∧ s = text ++ (exponentPart s).2 := by
  rcases s with - | ⟨c, s⟩
  · exact ⟨[], .none, rfl⟩
  · rw [exponentPart_cons]
    split
    · rename_i hLetter
      split
      · exact ⟨[], .none, rfl⟩
      · rename_i hDigits
        obtain ⟨mark, hMark, hText⟩ := mark_of_exponentSign hLetter s
        refine ⟨_, .some hMark ⟨hDigits, fun d hd => isDigit_of_mem_digitsOf hd⟩, ?_⟩
        rw [hText, List.append_assoc, digitsOf_append_afterDigits]
    · exact ⟨[], .none, rfl⟩

/-- **A number that is read was written.** -/
theorem written_of_number? {s rest : List Char} {n : Number} (h : number? s = some (n, rest)) :
    ∃ t, s = t ++ rest ∧ n.Written t := by
  unfold number? at h
  dsimp only at h
  split at h
  · cases h
  · rename_i whole tail hWhole
    obtain ⟨hTail, hDigits⟩ := whole_of_wholePart? hWhole
    obtain ⟨hFraction, hFractionDigits⟩ := fraction_of_fractionPart tail
    obtain ⟨exponent, hExponent, hRest⟩ := exponent_of_exponentPart (fractionPart tail).2
    cases h
    refine ⟨_, ?_, hDigits, hFractionDigits, exponent, hExponent, rfl⟩
    rw [List.append_assoc, List.append_assoc, List.append_assoc, ← hRest, ← hFraction, ← hTail]
    exact signText_numberSign s

def IsMalformed (refusal : Refusal) : Prop :=
  ∃ defect rest, refusal = .malformed defect rest

/-- What stands between the place of a reader and the closing quote, by the pieces that it comes
to. -/
def Place.Takes (ps : List Piece) (t : List Char) : Place → Prop
  | .plain => StringText ps t
  | .escape _ => StringText ps ('\\' :: t)
  | .digits _ left value => ∃ cs vs qs u, cs.length = left + 1 ∧
      List.Forall₂ (fun c v => Hex.value? c = some v) cs vs ∧ StringText qs u ∧
      ps = .unit (vs.foldl (fun n v => 16 * n + v) value) :: qs ∧ t = cs ++ u

theorem ends_pieces (opening : List Char) (place : Place) (s : List Char) :
    Ends IsMalformed (fun r => ∃ t, s = t ++ '"' :: r.2 ∧ place.Takes r.1 t)
      (pieces opening place s) := by
  induction s generalizing place with
  | nil =>
      rcases place with - | start | ⟨start, left, value⟩ <;> exact ⟨_, _, rfl⟩
  | cons c s ih =>
      rcases place with - | start | ⟨start, left, value⟩
      · rw [pieces]
        split
        · rename_i hQuote
          exact ⟨[], by rw [hQuote]; rfl, .nil⟩
        split
        · rename_i hBackslash
          refine (ih (.escape (c :: s))).imp ?_
          rintro r ⟨t, rfl, hTakes⟩
          exact ⟨c :: t, rfl, by rw [hBackslash]; exact hTakes⟩
        split
        · exact ⟨_, _, rfl⟩
        rename_i hQuote hBackslash hControl
        refine (ih .plain).bind ?_
        rintro ⟨ps, rest⟩ ⟨t, rfl, hTakes⟩
        exact ⟨c :: t, rfl, .cons (.char hQuote hBackslash hControl) hTakes⟩
      · rw [pieces]
        split
        · rename_i hUnit
          refine (ih (.digits (c :: s) 3 0)).imp ?_
          rintro r ⟨t, rfl, cs, vs, qs, u, hLength, hDigits, hRest, hPieces, rfl⟩
          refine ⟨c :: (cs ++ u), rfl, ?_⟩
          rw [hPieces, hUnit]
          exact .cons (.unit hLength hDigits) hRest
        split
        · exact ⟨_, _, rfl⟩
        rename_i d hEscape
        refine (ih .plain).bind ?_
        rintro ⟨ps, rest⟩ ⟨t, rfl, hTakes⟩
        exact ⟨c :: t, rfl, .cons (.letter hEscape) hTakes⟩
      · rw [pieces]
        split
        · exact ⟨_, _, rfl⟩
        rename_i v hValue
        rcases left with - | left
        · dsimp only
          split
          · exact ⟨_, _, rfl⟩
          refine (ih .plain).bind ?_
          rintro ⟨ps, rest⟩ ⟨t, rfl, hTakes⟩
          exact ⟨c :: t, rfl, [c], [v], ps, t, rfl, .cons hValue .nil, hTakes, rfl, rfl⟩
        · refine (ih (.digits start left (16 * value + v))).imp ?_
          rintro r ⟨t, rfl, cs, vs, qs, u, hLength, hDigits, hRest, hPieces, rfl⟩
          exact ⟨c :: (cs ++ u), rfl, c :: cs, v :: vs, qs, u, by simp [hLength],
            .cons hValue hDigits, hRest, hPieces, rfl⟩

/-- **A string that is read was written**, and one that is not read is malformed. -/
theorem ends_string (opening s : List Char) :
    Ends IsMalformed (fun r => ∃ ps t, s = t ++ '"' :: r.2 ∧ StringText ps t ∧
      r.1 = String.ofList (join ps)) (string opening s) := by
  refine (ends_pieces opening .plain s).bind ?_
  rintro ⟨ps, rest⟩ ⟨t, hText, hTakes⟩
  exact ⟨ps, t, hText, hTakes, rfl⟩

/-! ## What is written is read -/

/-! ### Numbers -/

theorem numberSign_signText (negative : Bool) {d : Char} (h : isDigit d = true) (s : List Char) :
    numberSign (signText negative ++ d :: s) = (negative, d :: s) := by
  have hMinus : d ≠ '-' := by
    rintro rfl
    cases h
  cases negative with
  | true => rfl
  | false => exact if_neg hMinus

theorem wholePart?_of_whole {ds rest : List Char}
    (h : ds = ['0'] ∨ IsDigits ds ∧ ds.head? ≠ some '0') (hRest : NoDigit rest) :
    wholePart? (ds ++ rest) = some (ds, rest) := by
  rcases h with rfl | ⟨⟨hNil, hDigits⟩, hHead⟩
  · rfl
  · obtain ⟨d, ds, rfl⟩ := List.exists_cons_of_ne_nil hNil
    obtain ⟨hFirst, hOthers⟩ := List.forall_mem_cons.1 hDigits
    obtain ⟨hOf, hAfter⟩ := digitsOf_of_noDigit hOthers hRest
    have hZero : d ≠ '0' := fun hEq => hHead (congrArg some hEq)
    rw [List.cons_append, wholePart?, if_neg hZero, if_pos hFirst, hOf, hAfter]

theorem fractionPart_fractionText {ds rest : List Char} (h : ∀ d ∈ ds, isDigit d = true)
    (hRest : NoDigit rest) (hPoint : rest.head? ≠ some '.') :
    fractionPart (fractionText ds ++ rest) = (ds, rest) := by
  by_cases hNone : ds = []
  · rw [fractionText, if_pos hNone, hNone, List.nil_append]
    rcases rest with - | ⟨c, rest⟩
    · rfl
    · rw [fractionPart, if_neg]
      exact fun hStart => hPoint (congrArg some hStart.1)
  · obtain ⟨hOf, hAfter⟩ := digitsOf_of_noDigit h hRest
    rw [fractionText, if_neg hNone, List.cons_append, fractionPart, hOf, hAfter,
      if_pos ⟨rfl, hNone⟩]

theorem exponentSign_of_mark {negative : Bool} {mark : List Char}
    (h : mark ∈ exponentMarks negative) {d : Char} (hd : isDigit d = true) (s : List Char) :
    ∃ c t, mark ++ d :: s = c :: t ∧ (c = 'e' ∨ c = 'E') ∧
      exponentSign t = (negative, d :: s) := by
  have hMinus : d ≠ '-' := by
    rintro rfl
    cases hd
  have hPlus : d ≠ '+' := by
    rintro rfl
    cases hd
  have hNone : exponentSign (d :: s) = (false, d :: s) := by
    rw [exponentSign, if_neg hMinus, if_neg hPlus]
  unfold exponentMarks at h
  split at h
  · rename_i hNegative
    rw [hNegative]
    simp only [List.mem_cons, List.not_mem_nil, or_false] at h
    rcases h with rfl | rfl
    · exact ⟨'e', _, rfl, Or.inl rfl, rfl⟩
    · exact ⟨'E', _, rfl, Or.inr rfl, rfl⟩
  · rename_i hPositive
    rw [Bool.not_eq_true] at hPositive
    rw [hPositive]
    simp only [List.mem_cons, List.not_mem_nil, or_false] at h
    rcases h with rfl | rfl | rfl | rfl
    · exact ⟨'e', _, rfl, Or.inl rfl, hNone⟩
    · exact ⟨'E', _, rfl, Or.inr rfl, hNone⟩
    · exact ⟨'e', _, rfl, Or.inl rfl, rfl⟩
    · exact ⟨'E', _, rfl, Or.inr rfl, rfl⟩

theorem exponentPart_of_text {exponent : Option (Bool × List Char)} {text rest : List Char}
    (h : ExponentText exponent text) (hRest : Stops rest) :
    exponentPart (text ++ rest) = (exponent, rest) := by
  rcases h with - | ⟨hMark, hNil, hDigits⟩
  · exact exponentPart_of_stops hRest
  · rename_i negative mark ds
    obtain ⟨hOf, hAfter⟩ := digitsOf_of_noDigit hDigits (noDigit_of_stops hRest)
    obtain ⟨d, ds, rfl⟩ := List.exists_cons_of_ne_nil hNil
    obtain ⟨c, t, hText, hLetter, hSign⟩ :=
      exponentSign_of_mark hMark (hDigits d List.mem_cons_self) (ds ++ rest)
    rw [List.append_assoc, List.cons_append, hText, exponentPart_cons, if_pos hLetter, hSign]
    rw [List.cons_append] at hOf hAfter
    rw [hOf, hAfter, if_neg hNil]

theorem head_exponentText {exponent : Option (Bool × List Char)} {text rest : List Char}
    (h : ExponentText exponent text) (hRest : Stops rest) :
    NoDigit (text ++ rest) ∧ (text ++ rest).head? ≠ some '.' := by
  rcases h with - | ⟨hMark, hNil, hDigits⟩
  · refine ⟨noDigit_of_stops hRest, ?_⟩
    intro hPoint
    cases hRest _ hPoint
  · rename_i negative mark ds
    obtain ⟨d, ds, rfl⟩ := List.exists_cons_of_ne_nil hNil
    obtain ⟨c, t, hText, hLetter, -⟩ :=
      exponentSign_of_mark hMark (hDigits d List.mem_cons_self) (ds ++ rest)
    rw [List.append_assoc, List.cons_append, hText]
    rcases hLetter with rfl | rfl
    · exact ⟨fun c hc => by rw [← Option.some.inj hc]; rfl, by simp⟩
    · exact ⟨fun c hc => by rw [← Option.some.inj hc]; rfl, by simp⟩

theorem noDigit_fractionText (ds : List Char) {rest : List Char} (h : NoDigit rest) :
    NoDigit (fractionText ds ++ rest) := by
  unfold fractionText
  split
  · exact h
  · intro c hc
    rw [← Option.some.inj hc]
    rfl

/-- **A number that is written is read**, in front of what does not go on with it. -/
theorem number?_of_written {n : Number} {s rest : List Char} (h : n.Written s)
    (hRest : Stops rest) : number? (s ++ rest) = some (n, rest) := by
  obtain ⟨exponent, hExponent, hText⟩ := h.text
  obtain ⟨d, t, hDigit, hHead⟩ := h.exists_head
  obtain ⟨hNoDigit, hNoPoint⟩ := head_exponentText hExponent hRest
  have hUnsigned : d :: t = n.whole ++ (fractionText n.fraction ++ exponent) :=
    List.append_cancel_left (hHead.symm.trans hText)
  have hSign : numberSign (s ++ rest) =
      (n.negative, n.whole ++ (fractionText n.fraction ++ (exponent ++ rest))) := by
    rw [hHead, List.append_assoc, List.cons_append, numberSign_signText _ hDigit,
      ← List.cons_append, hUnsigned, List.append_assoc, List.append_assoc]
  have hWhole := wholePart?_of_whole h.whole (noDigit_fractionText n.fraction hNoDigit)
  have hFraction := fractionPart_fractionText h.fraction hNoDigit hNoPoint
  have hEnd := exponentPart_of_text hExponent hRest
  simp only [number?, hSign, hWhole, hFraction, hEnd]

/-! ### Strings -/

theorem pieces_of_digits {opening start rest tail : List Char} {left value : Nat} {cs : List Char}
    {vs : List Nat} {ps : List Piece} (hLength : cs.length = left + 1)
    (hDigits : List.Forall₂ (fun c v => Hex.value? c = some v) cs vs) (hRest : rest ≠ [])
    (h : pieces opening .plain rest = .ok (ps, tail)) :
    pieces opening (.digits start left value) (cs ++ rest) =
      .ok (.unit (vs.foldl (fun n v => 16 * n + v) value) :: ps, tail) := by
  induction hDigits generalizing left value with
  | nil => cases hLength
  | @cons c v cs vs hValue hDigits ih =>
      rw [List.cons_append, pieces, hValue]
      rcases left with - | left
      · cases hDigits with
        | nil =>
            have hMore : rest.isEmpty = false := by simpa using hRest
            simp only [List.nil_append, hMore, h]
            rfl
        | cons => cases hLength
      · exact ih (Nat.succ.inj hLength)

/-- **The characters of a string are read** up to its closing quote. -/
theorem pieces_of_text {ps : List Piece} {s : List Char} (h : StringText ps s)
    (opening rest : List Char) :
    pieces opening .plain (s ++ '"' :: rest) = .ok (ps, rest) := by
  induction h with
  | nil => rw [List.nil_append, pieces, if_pos rfl]
  | @cons p ps s t first _ ih =>
      rw [List.append_assoc]
      rcases first with ⟨hQuote, hBackslash, hControl⟩ | hEscape | ⟨hLength, hDigits⟩
      · exact pieces_char hQuote hBackslash hControl ih
      · rename_i letter c
        have hUnit : letter ≠ 'u' := by
          rintro rfl
          cases hEscape
        exact pieces_letter hEscape hUnit ih
      · rw [List.cons_append, List.cons_append, pieces, if_neg (by decide), if_pos rfl, pieces,
          if_pos rfl]
        exact pieces_of_digits hLength hDigits (by simp) ih

theorem string_of_text {ps : List Piece} {s : List Char} (h : StringText ps s)
    (opening rest : List Char) :
    string opening (s ++ '"' :: rest) = .ok (String.ofList (join ps), rest) := by
  rw [string, pieces_of_text h]
  rfl

end NinjaFile.Json
