import NinjaFile.Entries
import NinjaFile.Json.Token

/-!
# Reading a JSON text

The reader takes one value from the front of a text and refuses a text at the
first character at which no value can continue. Each of the mutual functions
returns with its result that the rest is shorter, which is what the recursion
descends on. A name that comes again in an object keeps its place and takes the
later value.
-/

namespace NinjaFile.Json

/-- A result together with what follows it in a text, which is shorter than the text. -/
abbrev Taken (α : Type) (s : List Char) : Type :=
  { result : α × List Char // result.2.length < s.length }

mutual

def value (limit : Nat) (s : List Char) : Except Refusal (Taken Json s) :=
  match s with
  | [] => .error (.malformed .expectingValue [])
  | c :: rest =>
    if c = '"' then
      match h : string (c :: rest) rest with
      | .error refusal => .error refusal
      | .ok (content, tail) => .ok ⟨(.text content, tail), Nat.lt_succ_of_lt (length_of_string h)⟩
    else if c = '[' then
      match h : skipBlanks rest with
      | [] => .error (.malformed .expectingValue [])
      | d :: tail =>
        have : (d :: tail).length ≤ rest.length := h ▸ length_skipBlanks_le rest
        if d = ']' then
          .ok ⟨(.array [], tail), by simp only [List.length_cons] at this ⊢; omega⟩
        else
          match items limit (d :: tail) with
          | .error refusal => .error refusal
          | .ok ⟨(js, tail'), shorter⟩ =>
            .ok ⟨(.array js, tail'), by simp only [List.length_cons] at this shorter ⊢; omega⟩
    else if c = '\x7b' then
      match h : skipBlanks rest with
      | [] => .error (.malformed .expectingName [])
      | d :: tail =>
        have : (d :: tail).length ≤ rest.length := h ▸ length_skipBlanks_le rest
        if d = '\x7d' then
          .ok ⟨(.object [], tail), by simp only [List.length_cons] at this ⊢; omega⟩
        else
          match members limit (d :: tail) with
          | .error refusal => .error refusal
          | .ok ⟨(ms, tail'), shorter⟩ =>
            .ok ⟨(.object (Entries.ofWrites (· == ·) ms), tail'),
              by simp only [List.length_cons] at this shorter ⊢; omega⟩
    else
      match h : constant? (c :: rest) with
      | some (j, tail) => .ok ⟨(j, tail), length_of_constant? h⟩
      | none =>
        match h : number? (c :: rest) with
        | none => .error (.malformed .expectingValue (c :: rest))
        | some (n, tail) =>
          match n.value limit with
          | .error refusal => .error refusal
          | .ok j => .ok ⟨(j, tail), length_of_number? h⟩
termination_by (s.length, 0)
decreasing_by all_goals grind

/-- The items of an array up to its closing bracket, at least one. -/
def items (limit : Nat) (s : List Char) : Except Refusal (Taken (List Json) s) :=
  match value limit s with
  | .error refusal => .error refusal
  | .ok ⟨(j, rest), shorter⟩ =>
    match h : skipBlanks rest with
    | [] => .error (.malformed .expectingComma [])
    | c :: tail =>
      have : (c :: tail).length ≤ rest.length := h ▸ length_skipBlanks_le rest
      if c = ']' then
        .ok ⟨([j], tail), by simp only [List.length_cons] at this shorter ⊢; omega⟩
      else if c = ',' then
        have : (skipBlanks tail).length ≤ tail.length := length_skipBlanks_le tail
        match items limit (skipBlanks tail) with
        | .error refusal => .error refusal
        | .ok ⟨(js, tail'), shorter'⟩ =>
          .ok ⟨(j :: js, tail'), by simp only [List.length_cons] at *; omega⟩
      else .error (.malformed .expectingComma (c :: tail))
termination_by (s.length, 1)
decreasing_by all_goals grind

def members (limit : Nat) (s : List Char) : Except Refusal (Taken (List (String × Json)) s) :=
  match s with
  | [] => .error (.malformed .expectingName [])
  | q :: opened =>
    if q = '"' then
      match hName : string (q :: opened) opened with
      | .error refusal => .error refusal
      | .ok (name, rest) =>
        have : rest.length < opened.length := length_of_string hName
        match hColon : skipBlanks rest with
        | [] => .error (.malformed .expectingColon [])
        | c :: tail =>
          have : (c :: tail).length ≤ rest.length := hColon ▸ length_skipBlanks_le rest
          if c = ':' then
            have : (skipBlanks tail).length ≤ tail.length := length_skipBlanks_le tail
            match value limit (skipBlanks tail) with
            | .error refusal => .error refusal
            | .ok ⟨(j, rest'), shorter⟩ =>
              match hEnd : skipBlanks rest' with
              | [] => .error (.malformed .expectingComma [])
              | d :: tail' =>
                have : (d :: tail').length ≤ rest'.length := hEnd ▸ length_skipBlanks_le rest'
                if d = '\x7d' then
                  .ok ⟨([(name, j)], tail'), by simp only [List.length_cons] at *; omega⟩
                else if d = ',' then
                  have : (skipBlanks tail').length ≤ tail'.length := length_skipBlanks_le tail'
                  match members limit (skipBlanks tail') with
                  | .error refusal => .error refusal
                  | .ok ⟨(ms, tail''), shorter'⟩ =>
                    .ok ⟨((name, j) :: ms, tail''), by simp only [List.length_cons] at *; omega⟩
                else .error (.malformed .expectingComma (d :: tail'))
          else .error (.malformed .expectingColon (c :: tail))
    else .error (.malformed .expectingName (q :: opened))
termination_by (s.length, 1)
decreasing_by all_goals grind

end

/-! ## The readers by their results

Without the proofs that the rest is shorter the three readers satisfy the equations that one would
write down for them; nothing else needs to be known of the recursion. -/

def readValue (limit : Nat) (s : List Char) : Except Refusal (Json × List Char) :=
  (value limit s).map Subtype.val

def readItems (limit : Nat) (s : List Char) : Except Refusal (List Json × List Char) :=
  (items limit s).map Subtype.val

def readMembers (limit : Nat) (s : List Char) : Except Refusal (List (String × Json) × List Char) :=
  (members limit s).map Subtype.val

theorem map_taken {α : Type} {s : List Char} (result : Taken α s) :
    (Except.ok result : Except Refusal (Taken α s)).map Subtype.val = .ok result.val :=
  rfl

theorem readValue_nil (limit : Nat) :
    readValue limit [] = .error (.malformed .expectingValue []) := by
  rw [readValue, value]
  rfl

theorem readValue_cons (limit : Nat) (c : Char) (rest : List Char) :
    readValue limit (c :: rest) =
      if c = '"' then (string (c :: rest) rest).map fun r => (.text r.1, r.2)
      else if c = '[' then
        match skipBlanks rest with
        | [] => .error (.malformed .expectingValue [])
        | d :: tail =>
          if d = ']' then .ok (.array [], tail)
          else (readItems limit (d :: tail)).map fun r => (.array r.1, r.2)
      else if c = '\x7b' then
        match skipBlanks rest with
        | [] => .error (.malformed .expectingName [])
        | d :: tail =>
          if d = '\x7d' then .ok (.object [], tail)
          else (readMembers limit (d :: tail)).map fun r =>
            (.object (Entries.ofWrites (· == ·) r.1), r.2)
      else
        match constant? (c :: rest) with
        | some r => .ok r
        | none =>
          match number? (c :: rest) with
          | none => .error (.malformed .expectingValue (c :: rest))
          | some (n, tail) => (n.value limit).map fun j => (j, tail) := by
  rw [readValue, value]
  dsimp only
  split
  · split <;> rename_i h <;> simp only [h] <;> rfl
  · split
    · split <;> rename_i h <;> simp only [h]
      · rfl
      · split
        · rfl
        · rw [readItems]
          cases items limit _ <;> rfl
    · split
      · split <;> rename_i h <;> simp only [h]
        · rfl
        · split
          · rfl
          · rw [readMembers]
            cases members limit _ <;> rfl
      · split <;> rename_i h <;> simp only [h]
        · rfl
        · split <;> rename_i h <;> simp only [h]
          · rfl
          · cases Number.value limit _ <;> rfl

theorem readItems_eq (limit : Nat) (s : List Char) :
    readItems limit s =
      match readValue limit s with
      | .error refusal => .error refusal
      | .ok (j, rest) =>
        match skipBlanks rest with
        | [] => .error (.malformed .expectingComma [])
        | c :: tail =>
          if c = ']' then .ok ([j], tail)
          else if c = ',' then (readItems limit (skipBlanks tail)).map fun r => (j :: r.1, r.2)
          else .error (.malformed .expectingComma (c :: tail)) := by
  rw [readItems, items, readValue]
  cases value limit s with
  | error refusal => rfl
  | ok result =>
    obtain ⟨⟨j, rest⟩, shorter⟩ := result
    rw [map_taken]
    dsimp only
    split <;> rename_i h <;> simp only [h]
    · rfl
    · split
      · rfl
      · split
        · rw [readItems]
          cases items limit _ <;> rfl
        · rfl

theorem readMembers_nil (limit : Nat) :
    readMembers limit [] = .error (.malformed .expectingName []) := by
  rw [readMembers, members]
  rfl

theorem readMembers_cons (limit : Nat) (q : Char) (opened : List Char) :
    readMembers limit (q :: opened) =
      if q = '"' then
        match string (q :: opened) opened with
        | .error refusal => .error refusal
        | .ok (name, rest) =>
          match skipBlanks rest with
          | [] => .error (.malformed .expectingColon [])
          | c :: tail =>
            if c = ':' then
              match readValue limit (skipBlanks tail) with
              | .error refusal => .error refusal
              | .ok (j, rest) =>
                match skipBlanks rest with
                | [] => .error (.malformed .expectingComma [])
                | d :: tail =>
                  if d = '\x7d' then .ok ([(name, j)], tail)
                  else if d = ',' then
                    (readMembers limit (skipBlanks tail)).map fun r => ((name, j) :: r.1, r.2)
                  else .error (.malformed .expectingComma (d :: tail))
            else .error (.malformed .expectingColon (c :: tail))
      else .error (.malformed .expectingName (q :: opened)) := by
  rw [readMembers, members]
  dsimp only
  split
  · split <;> rename_i h <;> simp only [h]
    · rfl
    · split <;> rename_i h <;> simp only [h]
      · rfl
      · split
        · rw [readValue]
          cases value limit _ with
          | error refusal => rfl
          | ok result =>
            obtain ⟨⟨j, rest⟩, shorter⟩ := result
            rw [map_taken]
            dsimp only
            split <;> rename_i h <;> simp only [h]
            · rfl
            · split
              · rfl
              · split
                · rw [readMembers]
                  cases members limit _ <;> rfl
                · rfl
        · rfl
  · rfl

/-! ## Whole texts -/

/-- The value that a whole text stands for: one value between blanks. -/
def read (limit : Nat) (text : List Char) : Except Refusal Json :=
  if text.head? = some '\uFEFF' then .error (.malformed .byteOrderMark text)
  else
    match readValue limit (skipBlanks text) with
    | .error refusal => .error refusal
    | .ok (j, rest) =>
      match skipBlanks rest with
      | [] => .ok j
      | c :: tail => .error (.malformed .extraData (c :: tail))

/-! ## Where a text is refused -/

/-- A place in a text: lines and columns from one, characters from zero. -/
structure Position where
  line : Nat
  column : Nat
  offset : Nat
  deriving DecidableEq, Repr

/-- The place behind the characters read so far. Only a line feed begins a line. -/
def Position.behind (consumed : List Char) : Position where
  line := consumed.count '\n' + 1
  column := (consumed.reverse.takeWhile (· != '\n')).length + 1
  offset := consumed.length

/-- The message of a defect, with the place in the text at which so much of it remains. -/
def Defect.message (defect : Defect) (text rest : List Char) : String :=
  let p := Position.behind (text.take (text.length - rest.length))
  s!"{defect.wording}: line {p.line} column {p.column} (char {p.offset})"

end NinjaFile.Json
