import NinjaFile.Json.Reader

/-!
# The reader, one step after the other

The readers of items and of members do the same behind each part of a list (`behind`), and
the reader of values the same behind both kinds of opening brackets (`container`). A member
is a name and the value behind it (`readMember`). What such a step makes of a text in
which blanks stand between the tokens is said here once, for every way of writing blanks.
-/

namespace NinjaFile.Json

/-! ## Blanks -/

def Blanks (s : List Char) : Prop :=
  ∀ c ∈ s, isBlank c = true

theorem skipBlanks_append {blanks : List Char} (h : Blanks blanks) (s : List Char) :
    skipBlanks (blanks ++ s) = skipBlanks s := by
  induction blanks with
  | nil => rfl
  | cons c blanks ih =>
      rw [List.cons_append, skipBlanks, if_pos (h c List.mem_cons_self)]
      exact ih fun d hd => h d (List.mem_cons_of_mem _ hd)

theorem skipBlanks_cons {c : Char} (h : isBlank c = false) (s : List Char) :
    skipBlanks (c :: s) = c :: s := by
  rw [skipBlanks, if_neg (by simp [h])]

theorem skipBlanks_eq_nil {blanks : List Char} (h : Blanks blanks) : skipBlanks blanks = [] := by
  have hSkip := skipBlanks_append h []
  rwa [List.append_nil] at hSkip

theorem skipBlanks_blanks {lead : List Char} (hLead : Blanks lead) {c : Char}
    (h : isBlank c = false) (rest : List Char) : skipBlanks (lead ++ c :: rest) = c :: rest := by
  rw [skipBlanks_append hLead, skipBlanks_cons h]

/-! ## Lists and members -/

/-- What a reader of a list goes on with behind one of its parts: the end of the list, or a comma and
the other parts. -/
def behind {α : Type} (close : Char) (more : List Char → Except Refusal (List α × List Char))
    (a : α) (s : List Char) : Except Refusal (List α × List Char) :=
  match skipBlanks s with
  | [] => .error (.malformed .expectingComma [])
  | c :: tail =>
    if c = close then .ok ([a], tail)
    else if c = ',' then (more (skipBlanks tail)).map fun r => (a :: r.1, r.2)
    else .error (.malformed .expectingComma (c :: tail))

theorem readItems_bind (limit : Nat) (s : List Char) :
    readItems limit s = readValue limit s >>= fun r => behind ']' (readItems limit) r.1 r.2 := by
  rw [readItems_eq]
  cases readValue limit s <;> rfl

theorem readItems_of_readValue {limit : Nat} {s rest : List Char} {j : Json}
    (h : readValue limit s = .ok (j, rest)) :
    readItems limit s = behind ']' (readItems limit) j rest := by
  rw [readItems_bind, h]
  rfl

/-- What the reader of values does behind an opening bracket: an empty list, or the parts of one. -/
def container {α : Type} (close : Char) (missing : Defect)
    (list : List Char → Except Refusal (List α × List Char)) (whole : List α → Json)
    (s : List Char) : Except Refusal (Json × List Char) :=
  match skipBlanks s with
  | [] => .error (.malformed missing [])
  | c :: tail =>
    if c = close then .ok (whole [], tail)
    else (list (c :: tail)).map fun r => (whole r.1, r.2)

theorem readValue_bracket (limit : Nat) (s : List Char) :
    readValue limit ('[' :: s) = container ']' .expectingValue (readItems limit) .array s := by
  rw [readValue_cons, if_neg (by decide), if_pos rfl]
  rfl

theorem readValue_brace (limit : Nat) (s : List Char) :
    readValue limit ('\x7b' :: s) =
      container '\x7d' .expectingName (readMembers limit)
        (fun ms => .object (Entries.ofWrites (· == ·) ms)) s := by
  rw [readValue_cons, if_neg (by decide), if_neg (by decide), if_pos rfl]
  rfl

def valueBehind (limit : Nat) (name : String) (s : List Char) :
    Except Refusal ((String × Json) × List Char) :=
  match skipBlanks s with
  | [] => .error (.malformed .expectingColon [])
  | c :: tail =>
    if c = ':' then (readValue limit (skipBlanks tail)).map fun r => ((name, r.1), r.2)
    else .error (.malformed .expectingColon (c :: tail))

def readMember (limit : Nat) : List Char → Except Refusal ((String × Json) × List Char)
  | [] => .error (.malformed .expectingName [])
  | q :: opened =>
    if q = '"' then string (q :: opened) opened >>= fun r => valueBehind limit r.1 r.2
    else .error (.malformed .expectingName (q :: opened))

theorem readMembers_bind (limit : Nat) (s : List Char) :
    readMembers limit s =
      readMember limit s >>= fun r => behind '\x7d' (readMembers limit) r.1 r.2 := by
  rcases s with - | ⟨q, opened⟩
  · rw [readMembers_nil]
    rfl
  · rw [readMembers_cons, readMember]
    split
    · rcases string (q :: opened) opened with e | ⟨name, rest⟩
      · rfl
      · dsimp only [bind, Except.bind, valueBehind]
        rcases skipBlanks rest with - | ⟨c, tail⟩
        · rfl
        · dsimp only
          split
          · cases readValue limit (skipBlanks tail) <;> rfl
          · rfl
    · rfl

theorem readMembers_of_readMember {limit : Nat} {s rest : List Char} {m : String × Json}
    (h : readMember limit s = .ok (m, rest)) :
    readMembers limit s = behind '\x7d' (readMembers limit) m rest := by
  rw [readMembers_bind, h]
  rfl

/-! ## Steps that go on -/

section

variable {α : Type} {list : List Char → Except Refusal (List α × List Char)} {close : Char}
  {gap : List Char} {rest : List Char}

theorem behind_close (hGap : Blanks gap) (hClose : isBlank close = false) (a : α) :
    behind close list a (gap ++ close :: rest) = .ok ([a], rest) := by
  rw [behind, skipBlanks_blanks hGap hClose]
  exact if_pos rfl

theorem behind_comma (hGap : Blanks gap) (hClose : ',' ≠ close) {a : α} {as : List α}
    {tail : List Char} (h : list (skipBlanks tail) = .ok (as, rest)) :
    behind close list a (gap ++ ',' :: tail) = .ok (a :: as, rest) := by
  rw [behind, skipBlanks_blanks hGap (by decide)]
  dsimp only
  rw [if_neg hClose, if_pos rfl, h]
  rfl

variable {missing : Defect} {whole : List α → Json}

theorem container_close (hGap : Blanks gap) (hClose : isBlank close = false) :
    container close missing list whole (gap ++ close :: rest) = .ok (whole [], rest) := by
  rw [container, skipBlanks_blanks hGap hClose]
  exact if_pos rfl

theorem container_list (hGap : Blanks gap) {c : Char} {cs : List Char} (hBlank : isBlank c = false)
    (hClose : c ≠ close) {as : List α} (h : list (c :: cs) = .ok (as, rest)) :
    container close missing list whole (gap ++ c :: cs) = .ok (whole as, rest) := by
  rw [container, skipBlanks_blanks hGap hBlank]
  dsimp only
  rw [if_neg hClose, h]
  rfl

end

theorem valueBehind_colon {limit : Nat} {gap : List Char} (hGap : Blanks gap) (name : String)
    {j : Json} {tail rest : List Char} (h : readValue limit (skipBlanks tail) = .ok (j, rest)) :
    valueBehind limit name (gap ++ ':' :: tail) = .ok ((name, j), rest) := by
  rw [valueBehind, skipBlanks_blanks hGap (by decide)]
  dsimp only
  rw [if_pos rfl, h]
  rfl

end NinjaFile.Json
