import NinjaFile.Text.Hex

/-!
# Strings in a JSON text

A string is written in ASCII: what is not visible ASCII goes behind a backslash,
by a letter where there is one and by its UTF-16 units otherwise. A string is
read back in two steps, first into characters and unit escapes, then with each
pair of a high and a low unit joined into the character that it stands for.
-/

namespace NinjaFile.Json

/-! ## Writing -/

def unitEscape (unit : Nat) : List Char :=
  '\\' :: 'u' :: Hex.fixed 4 unit

/-- The units of a code point: itself, or a high and a low one above the basic plane. -/
def units (code : Nat) : List Nat :=
  if code < 0x10000 then [code]
  else [0xD800 + (code - 0x10000) / 0x400, 0xDC00 + (code - 0x10000) % 0x400]

/-- One character of a string. The solidus needs no escape, and the last ASCII control is escaped
like the first thirty-two. -/
def quoteChar (c : Char) : List Char :=
  if c = '"' then ['\\', '"']
  else if c = '\\' then ['\\', '\\']
  else if c = '\n' then ['\\', 'n']
  else if c = '\r' then ['\\', 'r']
  else if c = '\t' then ['\\', 't']
  else if c = '\x08' then ['\\', 'b']
  else if c = '\x0c' then ['\\', 'f']
  else if ' ' ≤ c ∧ c ≤ '~' then [c]
  else (units c.toNat).flatMap unitEscape

def quote (cs : List Char) : List Char :=
  '"' :: cs.flatMap quoteChar ++ ['"']

/-! ## Reading -/

/-- A piece of a string as it is read: a character, or a UTF-16 unit given by its number. -/
inductive Piece where
  | char (c : Char)
  | unit (n : Nat)
  deriving DecidableEq, Repr

def isHigh (unit : Nat) : Bool := 0xD800 ≤ unit && unit < 0xDC00

def isLow (unit : Nat) : Bool := 0xDC00 ≤ unit && unit < 0xE000

/-- The character of a unit on its own. Half a pair is no character here and becomes the replacement
character, where a reader with wider texts keeps the half. Theorems about what is read do not leave
such texts out, so for them they speak of the replacement. -/
def loneUnit (unit : Nat) : Char :=
  if isHigh unit || isLow unit then '\uFFFD' else Char.ofNat unit

/-- The characters of a run of pieces. A high unit and a low one behind it are one character. -/
def join : List Piece → List Char
  | [] => []
  | .char c :: rest => c :: join rest
  | .unit high :: .unit low :: rest =>
    if isHigh high && isLow low then
      Char.ofNat (0x10000 + (high - 0xD800) * 0x400 + (low - 0xDC00)) :: join rest
    else loneUnit high :: join (.unit low :: rest)
  | .unit n :: rest => loneUnit n :: join rest

def escaped? (c : Char) : Option Char :=
  if c = '"' ∨ c = '\\' ∨ c = '/' then some c
  else if c = 'n' then some '\n'
  else if c = 'r' then some '\r'
  else if c = 't' then some '\t'
  else if c = 'b' then some '\x08'
  else if c = 'f' then some '\x0c'
  else none

end NinjaFile.Json
