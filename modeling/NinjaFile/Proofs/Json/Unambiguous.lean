import NinjaFile.Proofs.Decimal.Style
import NinjaFile.Proofs.Json.Printing
import NinjaFile.Proofs.Layout.Blocks

/-!
# Texts of values are unambiguous

Values with equal texts are built alike, up to their words (`spelled_of_print`). A
word is what is written without quotes or brackets: a name or a numeral. It is told by
its characters alone, so nothing has to be known of numerals but which characters they
are made of; two values of different kinds may have one word.

The values are compared along their common text. The first character tells a word from
a string, an array and an object. A word ends at the first character that cannot stand
in one, a string where it is read to its end, and behind an item blanks are skipped to
a comma or the closing bracket.
-/

namespace NinjaFile.Json

/-! ## Words -/

/-- Can the character stand in a word? It can if it is neither a blank nor a bound of strings and
containers. -/
def isBare (c : Char) : Bool :=
  !(isBlank c || c == '"' || c == '[' || c == ']' || c == '\x7b' || c == '\x7d' || c == ',')

/-- The word that a value is written as, if it is neither a string nor a container. -/
def word? : Json → Option (List Char)
  | .null => some "null".toList
  | .bool b => some (if b then "true".toList else "false".toList)
  | .int n => some (Numeral.ofInt n)
  | .float x => some (style.text x)
  | .text _ | .array _ | .object _ => none

theorem isBare_of_isNumeric {c : Char} (h : Decimal.isNumeric c = true) : isBare c = true := by
  cases hBare : isBare c with
  | true => rfl
  | false =>
      simp only [isBare, isBlank, Bool.not_eq_false', Bool.or_eq_true, beq_iff_eq] at hBare
      rcases hBare with (((((((((rfl | rfl) | rfl) | rfl) | rfl) | rfl) | rfl) | rfl) | rfl) | rfl)
      all_goals cases h

theorem isBare_of_mem_ofInt {n : Int} : ∀ c ∈ Numeral.ofInt n, isBare c = true := by
  have digits : ∀ c ∈ Numeral.digits n.natAbs, isBare c = true := fun c hc =>
    isBare_of_isNumeric (Decimal.isNumeric_of_isDigit (Numeral.isDigit_of_mem_digits hc))
  unfold Numeral.ofInt
  split
  · exact List.forall_mem_cons.2 ⟨rfl, digits⟩
  · exact digits

theorem isBare_of_mem_text {x : Binary64} : ∀ c ∈ style.text x, isBare c = true := by
  intro c hc
  rcases style.mem_text x c hc with hNan | hInfinity | hNumeric
  · exact List.all_eq_true.1 (by decide : style.nan.toList.all isBare = true) c hNan
  · exact List.all_eq_true.1 (by decide : style.infinity.toList.all isBare = true) c hInfinity
  · exact isBare_of_isNumeric hNumeric

theorem text_ne_nil (x : Binary64) : style.text x ≠ [] := by
  unfold Decimal.Style.text
  dsimp only
  split
  · decide
  · split <;> decide
  · split
    · exact List.cons_ne_nil _ _
    · exact Decimal.magnitudeText_ne_nil _ _

theorem bare_word {j : Json} {w : List Char} (h : j.word? = some w) :
    w ≠ [] ∧ ∀ c ∈ w, isBare c = true := by
  cases j with
  | null =>
      cases h
      exact ⟨List.cons_ne_nil _ _, List.all_eq_true.1 (by decide)⟩
  | bool b =>
      cases h
      cases b <;> exact ⟨List.cons_ne_nil _ _, List.all_eq_true.1 (by decide)⟩
  | int n =>
      cases h
      obtain ⟨c, cs, hText, -⟩ := head_ofInt n
      exact ⟨by rw [hText]; exact List.cons_ne_nil c cs, isBare_of_mem_ofInt⟩
  | float x =>
      cases h
      exact ⟨text_ne_nil x, isBare_of_mem_text⟩
  | _ => cases h

theorem print_word {j : Json} {w : List Char} (h : j.word? = some w) (layout : Layout)
    (depth : Nat) : print layout depth j = w := by
  cases j <;> cases h <;> rfl

/-- The bound that a value without a word begins with. -/
def opening : Json → Char
  | .text _ => '"'
  | .array _ => '['
  | _ => '\x7b'

theorem print_opening {j : Json} (h : j.word? = none) (layout : Layout) (depth : Nat) :
    ∃ cs, print layout depth j = j.opening :: cs := by
  cases j with
  | text s => exact ⟨_, rfl⟩
  | array items => cases items <;> exact ⟨_, rfl⟩
  | object members =>
      cases members with
      | nil => exact ⟨_, rfl⟩
      | cons m members => exact ⟨_, rfl⟩
  | _ => cases h

theorem isBare_opening (j : Json) : isBare j.opening = false := by
  cases j <;> rfl

/-- The first character of a text tells whether it is a word, and else how the value is built. -/
theorem openings_of_print {layout : Layout} {depth : Nat} {j k : Json} {r r' : List Char}
    (h : print layout depth j ++ r = print layout depth k ++ r') :
    (∃ w w', j.word? = some w ∧ k.word? = some w') ∨
      j.word? = none ∧ k.word? = none ∧ j.opening = k.opening := by
  have differ {j k : Json} {w r r' : List Char} (hj : j.word? = some w) (hk : k.word? = none)
      (h : print layout depth j ++ r = print layout depth k ++ r') : False := by
    obtain ⟨hNil, hBare⟩ := bare_word hj
    obtain ⟨c, cs, rfl⟩ := List.exists_cons_of_ne_nil hNil
    obtain ⟨ds, hText⟩ := print_opening hk layout depth
    rw [print_word hj, hText] at h
    have hBound := isBare_opening k
    rw [← (List.cons.inj h).1, hBare c List.mem_cons_self] at hBound
    cases hBound
  cases hj : j.word? with
  | some w =>
      cases hk : k.word? with
      | some w' => exact Or.inl ⟨w, w', rfl, rfl⟩
      | none => exact (differ hj hk h).elim
  | none =>
      cases hk : k.word? with
      | some w' => exact (differ hk hj h.symm).elim
      | none =>
          obtain ⟨cs, hText⟩ := print_opening hj layout depth
          obtain ⟨ds, hText'⟩ := print_opening hk layout depth
          rw [hText, hText'] at h
          exact Or.inr ⟨rfl, rfl, (List.cons.inj h).1⟩

theorem print_ne_end (layout : Layout) (depth : Nat) (j : Json) (r r' : List Char) :
    skipBlanks (print layout depth j ++ r) ≠ ']' :: r' := by
  have hHead : ∃ c cs, print layout depth j = c :: cs ∧ isBlank c = false ∧ c ≠ ']' := by
    cases hj : j.word? with
    | some w =>
        obtain ⟨hNil, hBare⟩ := bare_word hj
        obtain ⟨c, cs, rfl⟩ := List.exists_cons_of_ne_nil hNil
        have hFirst := hBare c List.mem_cons_self
        simp only [isBare, Bool.not_eq_true', Bool.or_eq_false_iff, beq_eq_false_iff_ne] at hFirst
        obtain ⟨⟨⟨⟨⟨⟨hBlank, -⟩, -⟩, hEnd⟩, -⟩, -⟩, -⟩ := hFirst
        exact ⟨c, cs, print_word hj layout depth, hBlank, hEnd⟩
    | none =>
        obtain ⟨cs, hText⟩ := print_opening hj layout depth
        exact ⟨_, cs, hText, by cases j <;> rfl, by cases j <;> simp [opening]⟩
  obtain ⟨c, cs, hText, hBlank, hEnd⟩ := hHead
  intro h
  rw [hText, List.cons_append, skipBlanks_cons hBlank] at h
  exact hEnd (List.cons.inj h).1

/-! ## Values that are built alike -/

/-- Two values that are written alike: they have one word, or are built alike of such values. -/
inductive Spelled : Json → Json → Prop where
  | word {j k : Json} {w : List Char} (left : j.word? = some w) (right : k.word? = some w) :
      Spelled j k
  | text (s : String) : Spelled (.text s) (.text s)
  | array {js ks : List Json} (items : List.Forall₂ Spelled js ks) : Spelled (.array js) (.array ks)
  | object {ms ns : List (String × Json)} (names : ms.map Prod.fst = ns.map Prod.fst)
      (values : List.Forall₂ Spelled (ms.map Prod.snd) (ns.map Prod.snd)) :
      Spelled (.object ms) (.object ns)

def Ends (rest : List Char) : Prop :=
  ∀ c, rest.head? = some c → ¬isBare c = true

theorem ends_cons {c : Char} (h : isBare c = false) (rest : List Char) : Ends (c :: rest) := by
  intro d hd
  cases hd
  rw [h]
  exact Bool.false_ne_true

theorem ends_append {blanks : List Char} (h : ∀ c ∈ blanks, isBlank c = true) {rest : List Char}
    (hRest : Ends rest) : Ends (blanks ++ rest) := by
  cases blanks with
  | nil => exact hRest
  | cons c blanks =>
      apply ends_cons
      simp [isBare, h c List.mem_cons_self]

theorem quote_append_inj {s t : String} {r r' : List Char}
    (h : quote s.toList ++ r = quote t.toList ++ r') : s = t ∧ r = r' := by
  have hText (s : String) (r : List Char) :
      quote s.toList ++ r = '"' :: (s.toList.flatMap quoteChar ++ '"' :: r) := by
    simp [quote]
  rw [hText, hText] at h
  have hRead := congrArg (string []) (List.cons.inj h).2
  rw [string_quote, string_quote] at hRead
  exact Prod.mk.inj (Except.ok.inj hRead)

/-! ## Containers -/

section

variable (layout : Layout) (depth : Nat)

theorem print_array_cons (j : Json) (js : List Json) (r : List Char) :
    print layout depth (.array (j :: js)) ++ r =
      '[' :: (layout.lead (depth + 1) ++ (print layout (depth + 1) j ++
        (printItems layout (depth + 1) js ++ (layout.lead depth ++ ']' :: r)))) := by
  simp [print]

theorem print_object_cons (name : String) (value : Json) (ms : List (String × Json))
    (r : List Char) : print layout depth (.object ((name, value) :: ms)) ++ r =
      '\x7b' :: (layout.lead (depth + 1) ++ (quote name.toList ++ (':' :: ' ' ::
        (print layout (depth + 1) value ++
          (printMembers layout (depth + 1) ms ++ (layout.lead depth ++ '\x7d' :: r)))))) := by
  simp [print]

theorem printItems_cons (j : Json) (js : List Json) (r : List Char) :
    printItems layout depth (j :: js) ++ r =
      ',' :: (layout.gap depth ++ (print layout depth j ++ (printItems layout depth js ++ r))) := by
  simp [printItems]

theorem printMembers_cons (name : String) (value : Json) (ms : List (String × Json))
    (r : List Char) : printMembers layout depth ((name, value) :: ms) ++ r =
      ',' :: (layout.gap depth ++ (quote name.toList ++ (':' :: ' ' ::
        (print layout depth value ++ (printMembers layout depth ms ++ r))))) := by
  simp [printMembers]

end

section

variable {layout : Layout} (hLayout : layout.Blank)

include hLayout

/-- The end of a container is not taken for a comma, or for the beginning of a string. -/
theorem skipBlanks_lead {depth : Nat} {close : Char} (hClose : isBlank close = false)
    (r : List Char) : skipBlanks (layout.lead depth ++ close :: r) = close :: r := by
  rw [skipBlanks_append (hLayout.lead depth), skipBlanks_cons hClose]

theorem lead_ne_comma {depth : Nat} {close : Char} (hClose : isBlank close = false)
    (hComma : close ≠ ',') (r r' : List Char) : layout.lead depth ++ close :: r ≠ ',' :: r' := by
  intro h
  have hSkip := congrArg skipBlanks h
  rw [skipBlanks_lead hLayout hClose, skipBlanks_cons (by decide)] at hSkip
  exact hComma (List.cons.inj hSkip).1

theorem ends_items (depth : Nat) (js : List Json) (r : List Char) :
    Ends (printItems layout (depth + 1) js ++ (layout.lead depth ++ ']' :: r)) := by
  cases js with
  | nil => exact ends_append (hLayout.lead depth) (ends_cons rfl r)
  | cons j js => exact ends_cons rfl _

theorem ends_members (depth : Nat) (ms : List (String × Json)) (r : List Char) :
    Ends (printMembers layout (depth + 1) ms ++ (layout.lead depth ++ '\x7d' :: r)) := by
  cases ms with
  | nil => exact ends_append (hLayout.lead depth) (ends_cons rfl r)
  | cons m ms => exact ends_cons rfl _

theorem array_nil_ne (depth : Nat) (j : Json) (js : List Json) (r r' : List Char) :
    print layout depth (.array []) ++ r ≠ print layout depth (.array (j :: js)) ++ r' := by
  intro h
  rw [print_array_cons] at h
  have hSkip := congrArg skipBlanks (List.cons.inj h).2
  rw [skipBlanks_append (hLayout.lead _)] at hSkip
  exact print_ne_end layout _ j _ _ (hSkip.symm.trans (skipBlanks_cons (by decide) _))

theorem object_nil_ne (depth : Nat) (m : String × Json) (ms : List (String × Json))
    (r r' : List Char) :
    print layout depth (.object []) ++ r ≠ print layout depth (.object (m :: ms)) ++ r' := by
  intro h
  obtain ⟨name, value⟩ := m
  rw [print_object_cons] at h
  have hSkip := congrArg skipBlanks (List.cons.inj h).2
  rw [skipBlanks_append (hLayout.lead _)] at hSkip
  have hQuote := (skipBlanks_cons (by decide) _).symm.trans
    (hSkip.trans (skipBlanks_cons (by decide) _))
  exact absurd (List.cons.inj hQuote).1 (by decide)

end

/-! ## Values -/

mutual

/-- **Texts of values are unambiguous.** In a layout of blanks the text of a value determines the
value up to its words, and what follows it. -/
theorem spelled_of_print {layout : Layout} (hLayout : layout.Blank) (j k : Json) {depth : Nat}
    {r r' : List Char} (hr : Ends r) (hr' : Ends r')
    (h : print layout depth j ++ r = print layout depth k ++ r') : Spelled j k ∧ r = r' := by
  rcases openings_of_print h with ⟨w, w', hj, hk⟩ | ⟨hj, hk, hOpening⟩
  · rw [print_word hj, print_word hk] at h
    obtain ⟨rfl, hRest⟩ := append_inj_of_test _ (bare_word hj).2 (bare_word hk).2 hr hr' h
    exact ⟨.word hj hk, hRest⟩
  · match j, k with
    | .text s, .text t =>
        obtain ⟨rfl, hRest⟩ := quote_append_inj h
        exact ⟨.text s, hRest⟩
    | .array [], .array [] =>
        exact ⟨.array .nil, (List.cons.inj (List.cons.inj h).2).2⟩
    | .array [], .array (k :: ks) => exact absurd h (array_nil_ne hLayout depth k ks r r')
    | .array (j :: js), .array [] => exact absurd h.symm (array_nil_ne hLayout depth j js r' r)
    | .array (j :: js), .array (k :: ks) =>
        rw [print_array_cons, print_array_cons] at h
        obtain ⟨hFirst, hBehind⟩ := spelled_of_print hLayout j k (ends_items hLayout depth js r)
          (ends_items hLayout depth ks r') (List.append_cancel_left (List.cons.inj h).2)
        obtain ⟨hOthers, hRest⟩ := spelled_of_printItems hLayout js ks hBehind
        exact ⟨.array (.cons hFirst hOthers), hRest⟩
    | .object [], .object [] =>
        exact ⟨.object rfl .nil, (List.cons.inj (List.cons.inj h).2).2⟩
    | .object [], .object (n :: ns) => exact absurd h (object_nil_ne hLayout depth n ns r r')
    | .object (m :: ms), .object [] => exact absurd h.symm (object_nil_ne hLayout depth m ms r' r)
    | .object ((s, j) :: ms), .object ((t, k) :: ns) =>
        rw [print_object_cons, print_object_cons] at h
        obtain ⟨rfl, hValue⟩ := quote_append_inj (List.append_cancel_left (List.cons.inj h).2)
        obtain ⟨hFirst, hBehind⟩ := spelled_of_print hLayout j k (ends_members hLayout depth ms r)
          (ends_members hLayout depth ns r') (List.cons.inj (List.cons.inj hValue).2).2
        obtain ⟨hNames, hOthers, hRest⟩ := spelled_of_printMembers hLayout ms ns hBehind
        exact ⟨.object (by rw [List.map_cons, List.map_cons, hNames]) (.cons hFirst hOthers), hRest⟩

theorem spelled_of_printItems {layout : Layout} (hLayout : layout.Blank) (js ks : List Json)
    {depth : Nat} {r r' : List Char}
    (h : printItems layout (depth + 1) js ++ (layout.lead depth ++ ']' :: r) =
      printItems layout (depth + 1) ks ++ (layout.lead depth ++ ']' :: r')) :
    List.Forall₂ Spelled js ks ∧ r = r' := by
  match js, ks with
  | [], [] =>
      have hEnd : ']' :: r = ']' :: r' := List.append_cancel_left h
      exact ⟨.nil, (List.cons.inj hEnd).2⟩
  | [], k :: ks =>
      rw [printItems_cons] at h
      exact absurd h (lead_ne_comma hLayout (by decide) (by decide) _ _)
  | j :: js, [] =>
      rw [printItems_cons] at h
      exact absurd h.symm (lead_ne_comma hLayout (by decide) (by decide) _ _)
  | j :: js, k :: ks =>
      rw [printItems_cons, printItems_cons] at h
      obtain ⟨hFirst, hBehind⟩ := spelled_of_print hLayout j k (ends_items hLayout depth js r)
        (ends_items hLayout depth ks r') (List.append_cancel_left (List.cons.inj h).2)
      obtain ⟨hOthers, hRest⟩ := spelled_of_printItems hLayout js ks hBehind
      exact ⟨.cons hFirst hOthers, hRest⟩

theorem spelled_of_printMembers {layout : Layout} (hLayout : layout.Blank)
    (ms ns : List (String × Json)) {depth : Nat} {r r' : List Char}
    (h : printMembers layout (depth + 1) ms ++ (layout.lead depth ++ '\x7d' :: r) =
      printMembers layout (depth + 1) ns ++ (layout.lead depth ++ '\x7d' :: r')) :
    ms.map Prod.fst = ns.map Prod.fst ∧
      List.Forall₂ Spelled (ms.map Prod.snd) (ns.map Prod.snd) ∧ r = r' := by
  match ms, ns with
  | [], [] =>
      have hEnd : '\x7d' :: r = '\x7d' :: r' := List.append_cancel_left h
      exact ⟨rfl, .nil, (List.cons.inj hEnd).2⟩
  | [], (t, k) :: ns =>
      rw [printMembers_cons] at h
      exact absurd h (lead_ne_comma hLayout (by decide) (by decide) _ _)
  | (s, j) :: ms, [] =>
      rw [printMembers_cons] at h
      exact absurd h.symm (lead_ne_comma hLayout (by decide) (by decide) _ _)
  | (s, j) :: ms, (t, k) :: ns =>
      rw [printMembers_cons, printMembers_cons] at h
      obtain ⟨rfl, hValue⟩ := quote_append_inj (List.append_cancel_left (List.cons.inj h).2)
      obtain ⟨hFirst, hBehind⟩ := spelled_of_print hLayout j k (ends_members hLayout depth ms r)
        (ends_members hLayout depth ns r') (List.cons.inj (List.cons.inj hValue).2).2
      obtain ⟨hNames, hOthers, hRest⟩ := spelled_of_printMembers hLayout ms ns hBehind
      exact ⟨by rw [List.map_cons, List.map_cons, hNames], .cons hFirst hOthers, hRest⟩

end

theorem spelled_of_toText {layout : Layout} (hLayout : layout.Blank) {j k : Json}
    (h : j.toText layout = k.toText layout) : Spelled j k := by
  have hText := String.ofList_injective h
  have hNil : Ends [] := by
    intro c hc
    cases hc
  have hWhole : print layout 0 j ++ [] = print layout 0 k ++ [] := by rw [hText]
  exact (spelled_of_print hLayout j k hNil hNil hWhole).1

end NinjaFile.Json
