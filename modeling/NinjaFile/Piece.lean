import NinjaFile.Numeral
import NinjaFile.Outcome

/-!
# Pieces of a text

A build file is written piece by piece. A piece with an integer beyond the limit
of numerals cannot be written, and writing stops in front of it: a sink then
holds the pieces before it.
-/

namespace NinjaFile

/-- One write, which may turn out to be impossible. -/
abbrev Piece := Except Numeral.Overlong String

namespace Piece

/-- The texts that are written: those in front of the first piece that cannot be. -/
def written : List Piece → List String
  | [] => []
  | .error _ :: _ => []
  | .ok text :: rest => text :: written rest

def all : List Piece → Except Numeral.Overlong (List String)
  | [] => .ok []
  | .error refusal :: _ => .error refusal
  | .ok text :: rest => (all rest).map (text :: ·)

theorem written_of_all {pieces : List Piece} {texts : List String} (h : all pieces = .ok texts) :
    written pieces = texts := by
  induction pieces generalizing texts with
  | nil =>
    cases h
    rfl
  | cons piece rest ih =>
    cases piece with
    | error refusal => cases h
    | ok text =>
      obtain ⟨others, hRest, rfl⟩ := Outcome.map_eq_ok.1 h
      rw [written, ih hRest]

def join (pieces : List Piece) : Except Numeral.Overlong String :=
  (all pieces).map String.join

theorem join_map_ok (texts : List String) : join (texts.map .ok) = .ok (String.join texts) := by
  have hAll : all (texts.map .ok) = .ok texts := by
    induction texts with
    | nil => rfl
    | cons text texts ih =>
      rw [List.map_cons, all, ih]
      rfl
  rw [join, hAll]
  rfl

/-- The text of pieces that can all be written is what reaches a sink. -/
theorem written_of_join {pieces : List Piece} {text : String} (h : join pieces = .ok text) :
    String.join (written pieces) = text := by
  obtain ⟨texts, hAll, rfl⟩ := Outcome.map_eq_ok.1 h
  rw [written_of_all hAll]

end Piece

structure Sink where
  chunks : List String := []
  deriving DecidableEq, Repr

namespace Sink

def write (sink : Sink) (text : String) : Sink :=
  ⟨sink.chunks ++ [text]⟩

/-- The number of characters that a write reports. -/
def reported (text : String) : Nat :=
  text.length

def writeAll (sink : Sink) (texts : List String) : Sink :=
  texts.foldl write sink

def text (sink : Sink) : String :=
  String.join sink.chunks

@[simp]
theorem text_write (sink : Sink) (text : String) : (sink.write text).text = sink.text ++ text := by
  simp [Sink.text, write, String.join_append]

@[simp]
theorem text_writeAll (sink : Sink) (texts : List String) :
    (sink.writeAll texts).text = sink.text ++ String.join texts := by
  induction texts generalizing sink with
  | nil => simp [writeAll]
  | cons text texts ih =>
    rw [writeAll, List.foldl_cons, ← writeAll, ih, text_write, String.join_cons,
      String.append_assoc]

end Sink

end NinjaFile
