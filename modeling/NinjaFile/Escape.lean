/-!
# Escaped names

In a build file a space separates names, a colon ends the target list and a
dollar starts a variable. A raw name that holds one of the three is written
with a dollar in front of it. Escaping is a choice of the caller: a name such
as `$in` is meant to be expanded and must reach the file as it is.
-/

namespace NinjaFile

/-- The characters that stand for themselves only behind a dollar. -/
def isSpecial (c : Char) : Bool :=
  c == ' ' || c == ':' || c == '$'

def escapeChar (c : Char) : List Char :=
  if isSpecial c then ['$', c] else [c]

theorem escapeChar_special {c : Char} (h : isSpecial c = true) : escapeChar c = ['$', c] :=
  if_pos h

theorem escapeChar_plain {c : Char} (h : isSpecial c = false) : escapeChar c = [c] :=
  if_neg (by simp [h])

/-- Every special character gets a dollar in front of it, and nothing else changes. -/
def escapeChars (name : List Char) : List Char :=
  name.flatMap escapeChar

@[simp]
theorem escapeChars_nil : escapeChars [] = [] :=
  rfl

@[simp]
theorem escapeChars_cons (c : Char) (name : List Char) :
    escapeChars (c :: name) = escapeChar c ++ escapeChars name :=
  rfl

@[simp]
theorem escapeChars_append (a b : List Char) :
    escapeChars (a ++ b) = escapeChars a ++ escapeChars b :=
  List.flatMap_append

def escape (name : String) : String :=
  String.ofList (escapeChars name.toList)

@[simp]
theorem toList_escape (name : String) : (escape name).toList = escapeChars name.toList :=
  String.toList_ofList

/-- The names that `count` rounds of escaping give, after each round. -/
def escapeRounds : Nat → String → List String
  | 0, _ => []
  | count + 1, name => escape name :: escapeRounds count (escape name)

end NinjaFile
