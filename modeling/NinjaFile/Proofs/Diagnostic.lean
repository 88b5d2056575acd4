import Mathlib.Data.List.Basic
import NinjaFile.Diagnostic

/-!
# Records of diagnostics

The record of a diagnostic does not have its message by itself. It has the whole text,
which is the message with the lines of the hint and of the context behind it, and there a
message that looks like a hint cannot be told from a hint. But the record has the hint
and the context too, and they alone decide what stands behind the message
(`Diagnostic.text_eq`). So the message is what is left of the text without it, and
nothing is lost (`Diagnostic.eq_of_record`), even though the text has no line for what is
empty.
-/

namespace NinjaFile

def Value.get? (v : Value) (name : String) : Option Value :=
  match v with
  | .map entries => field? name entries
  | _ => none

theorem Code.word_injective : Function.Injective word := by
  intro a b h
  cases a <;> cases b <;> first | rfl | (revert h; decide)

namespace Diagnostic

/-! ## Text -/

/-- What the text of a diagnostic has behind the message. -/
def trailer (hint : Option String) (context : List (String × String)) : String :=
  String.join ((hintLines hint ++ contextLines context).map ("\n" ++ ·))

theorem intercalate_cons (line : String) (lines : List String) :
    "\n".intercalate (line :: lines) = line ++ String.join (lines.map ("\n" ++ ·)) := by
  induction lines generalizing line with
  | nil => simp
  | cons next lines ih =>
      rw [String.intercalate_cons_cons, ih, List.map_cons, String.join_cons]
      simp only [String.append_assoc]

/-- **The text of a diagnostic** begins with the message, and what stands behind it depends on the
hint and the context only. -/
theorem text_eq (d : Diagnostic) : d.text = d.message ++ trailer d.hint d.context := by
  rw [text, List.cons_append, intercalate_cons]
  rfl

/-! ## Record -/

def contextValue (context : List (String × String)) : Value :=
  .record (context.map fun entry => (entry.1, .text entry.2))

theorem contextValue_injective : Function.Injective contextValue := by
  intro a b h
  have hEntries := Value.map.inj h
  rw [Value.named, Value.named, List.map_map, List.map_map] at hEntries
  refine List.map_injective_iff.2 ?_ hEntries
  rintro ⟨k, v⟩ ⟨l, w⟩ hEntry
  cases hEntry
  rfl

structure Recorded (d : Diagnostic) (v : Value) : Prop where
  code : v.get? "code" = some (.text d.code.word)
  text : v.get? "message" = some (.text d.text)
  context : v.get? "context" = some (contextValue d.context)
  hint : v.get? "hint" = d.hint.map .text

theorem recorded_toValue (d : Diagnostic) : d.Recorded d.toValue := by
  obtain ⟨code, message, hint, context⟩ := d
  constructor
  case code => rfl
  case text => rfl
  case context => rfl
  case hint => cases hint <;> rfl

/-- **Nothing is lost.** Two diagnostics whose records have the same under every name have the same
code, message, hint and context. -/
theorem eq_of_record {d d' : Diagnostic}
    (h : ∀ name, d.toValue.get? name = d'.toValue.get? name) : d = d' := by
  have hFirst := d.recorded_toValue
  have hSecond := d'.recorded_toValue
  have hCode : d.code = d'.code := by
    have hWord := hFirst.code.symm.trans ((h "code").trans hSecond.code)
    exact Code.word_injective (Value.text.inj (Option.some.inj hWord))
  have hContext : d.context = d'.context := by
    have hValue := hFirst.context.symm.trans ((h "context").trans hSecond.context)
    exact contextValue_injective (Option.some.inj hValue)
  have hHint : d.hint = d'.hint := by
    have hValue := hFirst.hint.symm.trans ((h "hint").trans hSecond.hint)
    exact Option.map_injective (fun s t hst => Value.text.inj hst) hValue
  have hMessage : d.message = d'.message := by
    have hValue := hFirst.text.symm.trans ((h "message").trans hSecond.text)
    have hText : d.text = d'.text := Value.text.inj (Option.some.inj hValue)
    -- the same stands behind both messages
    rw [text_eq, text_eq, hHint, hContext] at hText
    exact (String.append_left_inj _).1 hText
  calc d
    _ = ⟨d.code, d.message, d.hint, d.context⟩ := rfl
    _ = ⟨d'.code, d'.message, d'.hint, d'.context⟩ := by rw [hCode, hMessage, hHint, hContext]
    _ = d' := rfl

/-- A message that goes on like a hint, an empty hint, and an entry without a text. -/
def misleading : Diagnostic where
  code := .config
  message := "Bad key.\nHint: Leave it out."
  hint := some ""
  context := [("key", "")]

def hinted : Diagnostic where
  code := .config
  message := "Bad key."
  hint := some "Leave it out."

def misleadingLines : Diagnostic :=
  { misleading with message := "\n".intercalate [hinted.message, "Hint: Leave it out."] }

/-- The text does not tell a hint from a message that looks like one, the record does. -/
theorem eq_of_record_small :
    (misleading.text = hinted.text ∧ misleading.toValue.get? "hint" ≠ hinted.toValue.get? "hint") ∧
      (∀ name, misleading.toValue.get? name = misleadingLines.toValue.get? name) ∧
      misleading = misleadingLines := by
  have hHint : misleading.toValue.get? "hint" ≠ hinted.toValue.get? "hint" := by
    intro hSame
    have hTexts := Value.text.inj (Option.some.inj hSame)
    revert hTexts
    decide
  have hRecord : misleading.toValue = misleadingLines.toValue := by rfl
  have hFields : ∀ name, misleading.toValue.get? name = misleadingLines.toValue.get? name := by
    intro name
    rw [hRecord]
  exact ⟨⟨by decide, hHint⟩, hFields, eq_of_record hFields⟩

end Diagnostic

end NinjaFile
