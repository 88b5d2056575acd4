import NinjaFile.Binary.Binary64
import NinjaFile.Cbor.Head
import NinjaFile.Entries
import NinjaFile.Value.Agreement

/-!
# Reading CBOR

The reader takes one item from the front of some octets and gives back what
follows it. Arguments may stand in any width, and strings, arrays and maps may
be of indefinite length. A key that comes again in a map keeps its place and
takes the later value. Arrays, maps and tags are nested up to `depthLimit` deep,
where an array or map that announces no items counts for nothing.

The mutual functions return with each result that the rest is shorter, which is
what the recursion descends on.
-/

namespace NinjaFile.Cbor

def depthLimit : Nat := 400

def breakOctet : UInt8 := 0xff

/-! ## Strings -/

/-- The definite string of a major type at the front, with what follows it. -/
def chunk (major : Nat) (s : List UInt8) : Except Defect (List UInt8 × List UInt8) :=
  match readHead s with
  | .error defect => .error defect
  | .ok (hd, rest) =>
    match hd.argument with
    | .given _ n => if hd.major = major then splitOctets n rest else .error .badChunk
    | .indefinite => .error .badChunk

theorem length_of_chunk {major : Nat} {s octets rest : List UInt8}
    (h : chunk major s = .ok (octets, rest)) : rest.length < s.length := by
  unfold chunk at h
  split at h
  · cases h
  · rename_i hd tail hHead
    split at h
    · split at h
      · exact Nat.lt_of_le_of_lt (length_of_splitOctets h) (length_of_readHead hHead)
      · cases h
    · cases h

def chunks (major : Nat) (s : List UInt8) : Except Defect (List (List UInt8) × List UInt8) :=
  match s with
  | [] => .error .truncated
  | first :: rest =>
    if first = breakOctet then .ok ([], rest)
    else
      match h : chunk major (first :: rest) with
      | .error defect => .error defect
      | .ok (octets, tail) =>
        have : tail.length < (first :: rest).length := length_of_chunk h
        match chunks major tail with
        | .error defect => .error defect
        | .ok (more, tail') => .ok (octets :: more, tail')
termination_by s.length
decreasing_by assumption

theorem length_of_chunks {major : Nat} {s rest : List UInt8} {octets : List (List UInt8)}
    (h : chunks major s = .ok (octets, rest)) : rest.length < s.length := by
  fun_induction chunks major s generalizing octets with
  | case1 => cases h
  | case2 => cases h; exact Nat.lt_succ_self _
  | case3 => cases h
  | case4 => cases h
  | case5 first rest' _ more tail hChunk shorter more' tail' hChunks ih =>
    cases h
    exact Nat.lt_trans (ih hChunks) shorter

/-- The chunks of a string: one of the announced length, or all up to a break. -/
def stringChunks (major : Nat) (arg : Argument) (s : List UInt8) :
    Except Defect (List (List UInt8) × List UInt8) :=
  match arg with
  | .given _ n =>
    match splitOctets n s with
    | .error defect => .error defect
    | .ok (octets, rest) => .ok ([octets], rest)
  | .indefinite => chunks major s

theorem length_of_stringChunks {major : Nat} {arg : Argument} {s rest : List UInt8}
    {octets : List (List UInt8)} (h : stringChunks major arg s = .ok (octets, rest)) :
    rest.length ≤ s.length := by
  unfold stringChunks at h
  split at h
  · split at h
    · cases h
    · rename_i hSplit
      cases h
      exact length_of_splitOctets hSplit
  · exact Nat.le_of_lt (length_of_chunks h)

/-- The text of chunks, each of which is a text of its own. -/
def textOf : List (List UInt8) → Except Defect String
  | [] => .ok ""
  | octets :: more =>
    match Octets.toText? octets with
    | none => .error .notText
    | some first =>
      match textOf more with
      | .error defect => .error defect
      | .ok rest => .ok (first ++ rest)

/-! ## Numbers and simple values -/

/-- The value of the last major type: a simple value, or a fractional number by its width. -/
def plainValue : Argument → Except Defect Value
  | .given 0 20 => .ok (.bool false)
  | .given 0 21 => .ok (.bool true)
  | .given 0 22 => .ok .null
  | .given 0 23 => .ok .undefined
  | .given 0 code => .ok (.simple code)
  | .given 1 code => if code < 32 then .error .shortSimple else .ok (.simple code)
  | .given 2 word => .ok (.float (.ofDatum (Binary.Interchange.half.datum word)))
  | .given 4 word => .ok (.float (.ofDatum (Binary.Interchange.single.datum word)))
  | .given _ word => .ok (.float (.ofDatum (Binary.Interchange.double.datum word)))
  | .indefinite => .error .unexpectedBreak

/-- What a tag makes of its content: the two tags of big numbers need a byte string. Any other tag
stays around its content. That includes the tags which a decoder may take off or resolve: 55799 for
the encoding itself, 28 and 29 for shared values, 25 and 256 for repeated strings. -/
def tagged (tag : Nat) (content : Value) : Except Defect Value :=
  if tag = 2 ∨ tag = 3 then
    match content with
    | .bytes octets =>
      let n : Int := Octets.toNat octets
      .ok (.int (if tag = 2 then n else -1 - n))
    | _ => .error .notOctets
  else .ok (.tagged tag content)

/-! ## Items -/

/-- A result together with the octets that follow it, fewer than before. -/
abbrev Taken (α : Type) (s : List UInt8) : Type :=
  { result : α × List UInt8 // result.2.length < s.length }

abbrev Left (α : Type) (s : List UInt8) : Type :=
  { result : α × List UInt8 // result.2.length ≤ s.length }

/-- The count that an argument announces; none if the items go on to a break. -/
def Argument.count? : Argument → Option Nat
  | .given _ n => some n
  | .indefinite => none

/-- How many more containers may be opened inside one that announces so many items, where `depth`
may be opened here; none if it is too deep itself. -/
def depthInside (depth : Nat) (count? : Option Nat) : Option Nat :=
  if count? = some 0 then some depth
  else
    match depth with
    | 0 => none
    | inner + 1 => some inner

mutual

/-- The item at the front, where `depth` more containers may be opened. -/
def item (depth : Nat) (s : List UInt8) : Except Defect (Taken Value s) :=
  match hHead : readHead s with
  | .error defect => .error defect
  | .ok (hd, rest) =>
    have shorter : rest.length < s.length := length_of_readHead hHead
    match hd.major, hd.argument with
    | 0, .given _ n => .ok ⟨(.int n, rest), shorter⟩
    | 1, .given _ n => .ok ⟨(.int (-1 - n), rest), shorter⟩
    | 2, arg =>
      match h : stringChunks 2 arg rest with
      | .error defect => .error defect
      | .ok (octets, tail) =>
        .ok ⟨(.bytes octets.flatten, tail), Nat.lt_of_le_of_lt (length_of_stringChunks h) shorter⟩
    | 3, arg =>
      match h : stringChunks 3 arg rest with
      | .error defect => .error defect
      | .ok (octets, tail) =>
        match textOf octets with
        | .error defect => .error defect
        | .ok content =>
          .ok ⟨(.text content, tail), Nat.lt_of_le_of_lt (length_of_stringChunks h) shorter⟩
    | 4, arg =>
      match depthInside depth arg.count? with
      | none => .error .tooDeep
      | some inner =>
        match items inner arg.count? rest with
        | .error defect => .error defect
        | .ok ⟨(vs, tail), le⟩ => .ok ⟨(.array vs, tail), Nat.lt_of_le_of_lt le shorter⟩
    | 5, arg =>
      match depthInside depth arg.count? with
      | none => .error .tooDeep
      | some inner =>
        match entries inner arg.count? rest with
        | .error defect => .error defect
        | .ok ⟨(es, tail), le⟩ =>
          .ok ⟨(.map (Entries.ofWrites Value.agrees es), tail), Nat.lt_of_le_of_lt le shorter⟩
    | 6, .given _ tag =>
      match depthInside depth none with
      | none => .error .tooDeep
      | some inner =>
        match item inner rest with
        | .error defect => .error defect
        | .ok ⟨(content, tail), less⟩ =>
          match tagged tag content with
          | .error defect => .error defect
          | .ok v => .ok ⟨(v, tail), Nat.lt_trans less shorter⟩
    | 7, arg =>
      match plainValue arg with
      | .error defect => .error defect
      | .ok v => .ok ⟨(v, rest), shorter⟩
    | _, _ => .error .openNumber
termination_by (s.length, 0)
decreasing_by all_goals grind

def items (depth : Nat) (count? : Option Nat) (s : List UInt8) :
    Except Defect (Left (List Value) s) :=
  match count? with
  | some 0 => .ok ⟨([], s), Nat.le_refl _⟩
  | some (n + 1) =>
    match item depth s with
    | .error defect => .error defect
    | .ok ⟨(v, rest), less⟩ =>
      match items depth (some n) rest with
      | .error defect => .error defect
      | .ok ⟨(vs, tail), le⟩ => .ok ⟨(v :: vs, tail), Nat.le_trans le (Nat.le_of_lt less)⟩
  | none =>
    match s with
    | [] => .error .truncated
    | first :: rest =>
      if first = breakOctet then .ok ⟨([], rest), Nat.le_succ _⟩
      else
        match item depth (first :: rest) with
        | .error defect => .error defect
        | .ok ⟨(v, tail), less⟩ =>
          match items depth none tail with
          | .error defect => .error defect
          | .ok ⟨(vs, tail'), le⟩ => .ok ⟨(v :: vs, tail'), Nat.le_trans le (Nat.le_of_lt less)⟩
termination_by (s.length, 1)
decreasing_by all_goals grind

def entries (depth : Nat) (count? : Option Nat) (s : List UInt8) :
    Except Defect (Left (List (Value × Value)) s) :=
  match count? with
  | some 0 => .ok ⟨([], s), Nat.le_refl _⟩
  | some (n + 1) =>
    match item depth s with
    | .error defect => .error defect
    | .ok ⟨(k, rest), less⟩ =>
      match item depth rest with
      | .error defect => .error defect
      | .ok ⟨(v, rest'), less'⟩ =>
        match entries depth (some n) rest' with
        | .error defect => .error defect
        | .ok ⟨(es, tail), le⟩ => .ok ⟨((k, v) :: es, tail), by simp only at *; omega⟩
  | none =>
    match s with
    | [] => .error .truncated
    | first :: rest =>
      if first = breakOctet then .ok ⟨([], rest), Nat.le_succ _⟩
      else
        match item depth (first :: rest) with
        | .error defect => .error defect
        | .ok ⟨(k, tail), less⟩ =>
          match item depth tail with
          | .error defect => .error defect
          | .ok ⟨(v, tail'), less'⟩ =>
            match entries depth none tail' with
            | .error defect => .error defect
            | .ok ⟨(es, tail''), le⟩ => .ok ⟨((k, v) :: es, tail''), by simp only at *; omega⟩
termination_by (s.length, 1)
decreasing_by all_goals grind

end

/-! ## The readers by their results

Without the proofs about lengths the three readers satisfy the equations that one would write down
for them; nothing else needs to be known of the recursion. -/

def readItem (depth : Nat) (s : List UInt8) : Except Defect (Value × List UInt8) :=
  (item depth s).map Subtype.val

def readItems (depth : Nat) (count? : Option Nat) (s : List UInt8) :
    Except Defect (List Value × List UInt8) :=
  (items depth count? s).map Subtype.val

def readEntries (depth : Nat) (count? : Option Nat) (s : List UInt8) :
    Except Defect (List (Value × Value) × List UInt8) :=
  (entries depth count? s).map Subtype.val

/-- The next item, and then so many more or all up to a break. -/
def readNextItem (depth : Nat) (more? : Option Nat) (s : List UInt8) :
    Except Defect (List Value × List UInt8) :=
  match readItem depth s with
  | .error defect => .error defect
  | .ok (v, rest) => (readItems depth more? rest).map fun r => (v :: r.1, r.2)

def readNextEntry (depth : Nat) (more? : Option Nat) (s : List UInt8) :
    Except Defect (List (Value × Value) × List UInt8) :=
  match readItem depth s with
  | .error defect => .error defect
  | .ok (k, rest) =>
    match readItem depth rest with
    | .error defect => .error defect
    | .ok (v, rest) => (readEntries depth more? rest).map fun r => ((k, v) :: r.1, r.2)

theorem map_taken {α : Type} {s : List UInt8} (result : Taken α s) :
    (Except.ok result : Except Defect (Taken α s)).map Subtype.val = .ok result.val :=
  rfl

theorem readItem_eq (depth : Nat) (s : List UInt8) :
    readItem depth s =
      match readHead s with
      | .error defect => .error defect
      | .ok (hd, rest) =>
        match hd.major, hd.argument with
        | 0, .given _ n => .ok (.int n, rest)
        | 1, .given _ n => .ok (.int (-1 - n), rest)
        | 2, arg => (stringChunks 2 arg rest).map fun r => (.bytes r.1.flatten, r.2)
        | 3, arg =>
          match stringChunks 3 arg rest with
          | .error defect => .error defect
          | .ok (octets, tail) => (textOf octets).map fun content => (.text content, tail)
        | 4, arg =>
          match depthInside depth arg.count? with
          | none => .error .tooDeep
          | some inner => (readItems inner arg.count? rest).map fun r => (.array r.1, r.2)
        | 5, arg =>
          match depthInside depth arg.count? with
          | none => .error .tooDeep
          | some inner =>
            (readEntries inner arg.count? rest).map fun r =>
              (.map (Entries.ofWrites Value.agrees r.1), r.2)
        | 6, .given _ tag =>
          match depthInside depth none with
          | none => .error .tooDeep
          | some inner =>
            match readItem inner rest with
            | .error defect => .error defect
            | .ok (content, tail) => (tagged tag content).map fun v => (v, tail)
        | 7, arg => (plainValue arg).map fun v => (v, rest)
        | _, _ => .error .openNumber := by
  rw [readItem, item]
  split <;> rename_i hHead <;> simp only [hHead]
  · rfl
  · rename_i hd rest
    split
    · rfl
    · rfl
    · split <;> rename_i h <;> simp only [h] <;> rfl
    · split <;> rename_i h <;> simp only [h]
      · rfl
      · cases textOf _ <;> rfl
    · split
      · rfl
      · rw [readItems]
        cases items _ _ _ <;> rfl
    · split
      · rfl
      · rw [readEntries]
        cases entries _ _ _ <;> rfl
    · split
      · rfl
      · rename_i inner _
        rw [readItem]
        cases item inner rest with
        | error defect => rfl
        | ok result =>
          rw [map_taken]
          dsimp only
          cases tagged _ _ <;> rfl
    · cases plainValue _ <;> rfl
    · rfl

theorem readItems_zero (depth : Nat) (s : List UInt8) :
    readItems depth (some 0) s = .ok ([], s) := by
  rw [readItems, items]
  rfl

theorem readItems_succ (depth n : Nat) (s : List UInt8) :
    readItems depth (some (n + 1)) s = readNextItem depth (some n) s := by
  rw [readItems, items, readNextItem, readItem]
  cases item depth s with
  | error defect => rfl
  | ok result =>
    rw [map_taken]
    dsimp only
    rw [readItems]
    cases items depth (some n) _ <;> rfl

theorem readItems_open_nil (depth : Nat) : readItems depth none [] = .error .truncated := by
  rw [readItems, items]
  rfl

theorem readItems_open_cons (depth : Nat) (first : UInt8) (rest : List UInt8) :
    readItems depth none (first :: rest) =
      if first = breakOctet then .ok ([], rest) else readNextItem depth none (first :: rest) := by
  rw [readItems, items, readNextItem, readItem]
  dsimp only
  split
  · rfl
  · cases item depth (first :: rest) with
    | error defect => rfl
    | ok result =>
      rw [map_taken]
      dsimp only
      rw [readItems]
      cases items depth none _ <;> rfl

theorem readEntries_zero (depth : Nat) (s : List UInt8) :
    readEntries depth (some 0) s = .ok ([], s) := by
  rw [readEntries, entries]
  rfl

theorem readEntries_succ (depth n : Nat) (s : List UInt8) :
    readEntries depth (some (n + 1)) s = readNextEntry depth (some n) s := by
  rw [readEntries, entries, readNextEntry, readItem]
  cases item depth s with
  | error defect => rfl
  | ok key =>
    rw [map_taken]
    dsimp only
    rw [readItem]
    cases item depth key.val.2 with
    | error defect => rfl
    | ok value =>
      rw [map_taken]
      dsimp only
      rw [readEntries]
      cases entries depth (some n) _ <;> rfl

theorem readEntries_open_nil (depth : Nat) : readEntries depth none [] = .error .truncated := by
  rw [readEntries, entries]
  rfl

theorem readEntries_open_cons (depth : Nat) (first : UInt8) (rest : List UInt8) :
    readEntries depth none (first :: rest) =
      if first = breakOctet then .ok ([], rest) else readNextEntry depth none (first :: rest) := by
  rw [readEntries, entries, readNextEntry, readItem]
  dsimp only
  split
  · rfl
  · cases item depth (first :: rest) with
    | error defect => rfl
    | ok key =>
      rw [map_taken]
      dsimp only
      rw [readItem]
      cases item depth key.val.2 with
      | error defect => rfl
      | ok value =>
        rw [map_taken]
        dsimp only
        rw [readEntries]
        cases entries depth none _ <;> rfl

/-! ## Whole items -/

/-- The first item of some octets. What follows it does not matter. -/
def decode (s : List UInt8) : Except Defect Value :=
  (readItem depthLimit s).map (·.1)

end NinjaFile.Cbor
