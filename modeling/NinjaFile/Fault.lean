import NinjaFile.Diagnostic
import NinjaFile.Storage.Tree
import NinjaFile.Value.Json

/-!
# Faults

Everything that can stop an operation: a diagnostic of the library, a path that
cannot be used, a value that cannot be written, or a callback that gives up.
-/

namespace NinjaFile

inductive Fault where
  /-- An error that the library reports with a code. -/
  | diagnostic (d : Diagnostic)
  /-- The storage refused a path. -/
  | storage (refusal : Storage.Refusal)
  /-- An integer has too many digits to be written. -/
  | overlong
  /-- A numeral has too many digits to be read. -/
  | overlongNumeral (digits : Nat)
  /-- Keys of a map have no order among them. -/
  | unordered (pair : Value.Unordered)
  /-- A key has no JSON form. -/
  | unwritableKey (kind : Value.Kind)
  /-- A value has no JSON form. -/
  | unwritable (kind : Value.Kind)
  /-- A word is not one of the codes. -/
  | unknownCode (word : String)
  /-- A file is not text: the octet at its front begins no character. -/
  | notText (first : UInt8)
  /-- There is no rule, edge or manifest of that number. -/
  | noSuchEntry
  /-- The callback of a save gave up. -/
  | callbackFailed
  deriving Repr

namespace Fault

def message : Fault → String
  | .diagnostic d => d.text
  | .storage (.obstacle o p) => o.message p
  | .storage .embeddedNul => "embedded null byte"
  | .overlong =>
    s!"Exceeds the limit ({Numeral.limit} digits) for integer string conversion; " ++
      "use sys.set_int_max_str_digits() to increase the limit"
  | .overlongNumeral digits =>
    s!"Exceeds the limit ({Numeral.limit} digits) for integer string conversion: " ++
      s!"value has {digits} digits; use sys.set_int_max_str_digits() to increase the limit"
  | .unordered pair =>
    s!"'<' not supported between instances of '{pair.left.name}' and '{pair.right.name}'"
  | .unwritableKey kind => s!"keys must be str, int, float, bool or None, not {kind.name}"
  | .unwritable kind => s!"Object of type {kind.name} is not JSON serializable"
  | .unknownCode word => String.ofList (Quoted.encode word.toList) ++ " is not a valid ErrorCode"
  | .notText first =>
    "'utf-8' codec can't decode byte 0x" ++ Hex.ofOctets [first] ++
      " in position 0: invalid start byte"
  | .noSuchEntry => "list index out of range"
  | .callbackFailed => "callback failed"

def ofOverlong {α : Type} (result : Except Numeral.Overlong α) : Except Fault α :=
  result.mapError fun _ => .overlong

theorem ofOverlong_eq_ok {α : Type} {result : Except Numeral.Overlong α} {a : α} :
    ofOverlong result = .ok a ↔ result = .ok a := by
  cases result <;> constructor <;> intro h <;> cases h <;> rfl

def ofUnwritable {α : Type} (result : Except Value.Unwritable α) : Except Fault α :=
  result.mapError fun
    | .overlong => .overlong
    | .unordered pair => .unordered pair
    | .key kind => .unwritableKey kind
    | .item kind => .unwritable kind

theorem ofUnwritable_eq_ok {α : Type} {result : Except Value.Unwritable α} {a : α} :
    ofUnwritable result = .ok a ↔ result = .ok a := by
  cases result <;> constructor <;> intro h <;> cases h <;> rfl

def ofStorage {α : Type} (result : Except Storage.Refusal α) : Except Fault α :=
  result.mapError .storage

end Fault

end NinjaFile
