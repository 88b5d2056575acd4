import NinjaFile.Decimal.Style
import NinjaFile.Numeral
import NinjaFile.Text.Quoted
import NinjaFile.Value.Basic

/-!
# Values in messages

A message shows a text bare when it is the whole value and in quotes when it is
a part of one; a simple value likewise, by its code and by its name. An array
that is fixed, as all of a key is and all that a tag holds, is shown in round
brackets, and a fixed map says that it is one. An integer beyond the limit of
numerals cannot be shown.
-/

namespace NinjaFile.Value

def displayStyle : Decimal.Style := ⟨"nan", "inf"⟩

/-- An array in its brackets; a lone item in round ones has a comma behind it. -/
def bracketed (fixed : Bool) (items : List (List Char)) : List Char :=
  let inner := [',', ' '].intercalate items
  if fixed then '(' :: inner ++ (if items.length = 1 then [',', ')'] else [')'])
  else '[' :: inner ++ [']']

def braced (fixed : Bool) (entries : List (List Char)) : List Char :=
  let inner := '\x7b' :: [',', ' '].intercalate entries ++ ['\x7d']
  if fixed then "frozendict(".toList ++ inner ++ [')'] else inner

mutual

/-- A value as a part of another. -/
def literal (fixed : Bool) : Value → Except Numeral.Overlong (List Char)
  | .null => .ok "None".toList
  | .bool b => .ok (if b then "True".toList else "False".toList)
  | .int n => Numeral.ofInt? n
  | .float x => .ok (displayStyle.text x)
  | .nan => .ok (displayStyle.text .nan)
  | .text s => .ok (Quoted.encode s.toList)
  | .bytes octets => .ok (Quoted.encodeOctets octets)
  | .undefined => .ok "undefined".toList
  | .simple code => .ok ("CBORSimpleValue(".toList ++ Numeral.digits code ++ [')'])
  | .tagged tag content => do
    let inner ← literal true content
    return "CBORTag(".toList ++ Numeral.digits tag ++ [',', ' '] ++ inner ++ [')']
  | .array items => do
    return bracketed fixed (← literals fixed items)
  | .map entries => do
    return braced fixed (← entryLiterals fixed entries)

def literals (fixed : Bool) : List Value → Except Numeral.Overlong (List (List Char))
  | [] => .ok []
  | item :: items => do
    let first ← literal fixed item
    return first :: (← literals fixed items)

def entryLiterals (fixed : Bool) :
    List (Value × Value) → Except Numeral.Overlong (List (List Char))
  | [] => .ok []
  | (key, value) :: entries => do
    let k ← literal true key
    let v ← literal fixed value
    return (k ++ ':' :: ' ' :: v) :: (← entryLiterals fixed entries)

end

def display (v : Value) : Except Numeral.Overlong String :=
  match v with
  | .text s => .ok s
  | .simple code => .ok (String.ofList (Numeral.digits code))
  | v => return String.ofList (← literal false v)

end NinjaFile.Value
