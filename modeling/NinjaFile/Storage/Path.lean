import NinjaFile.Text.Quoted

/-!
# Paths

A path is relative: the names between its slashes, without empty ones and
without those that stand for the directory itself. A name that stands for the
parent directory is kept, since it means what the file tree says it means.

Absolute paths are out: a text with a slash in front is read as if it had none.
-/

namespace NinjaFile

/-- A relative path; without parts it is the working directory. -/
structure Path where
  parts : List String
  deriving DecidableEq, Repr

namespace Path

def segments : List Char → List (List Char)
  | [] => [[]]
  | c :: rest =>
    if c = '/' then [] :: segments rest
    else
      match segments rest with
      | [] => [[c]]
      | first :: more => (c :: first) :: more

/-- The path that a text names. -/
def ofString (text : String) : Path :=
  ⟨((segments text.toList).filter fun part => part != [] && part != ['.']).map String.ofList⟩

def toString (p : Path) : String :=
  if p.parts.isEmpty then "." else "/".intercalate p.parts

def parent (p : Path) : Path :=
  ⟨p.parts.dropLast⟩

/-- Does the path hold the character that no file system takes? -/
def hasNul (p : Path) : Bool :=
  p.parts.any fun part => part.toList.contains '\x00'

end Path

inductive Obstacle where
  | missing
  | occupied
  | notDirectory
  | isDirectory
  | nameTooLong
  deriving DecidableEq, Repr

namespace Obstacle

def number : Obstacle → Nat
  | .missing => 2
  | .occupied => 17
  | .notDirectory => 20
  | .isDirectory => 21
  | .nameTooLong => 36

def wording : Obstacle → String
  | .missing => "No such file or directory"
  | .occupied => "File exists"
  | .notDirectory => "Not a directory"
  | .isDirectory => "Is a directory"
  | .nameTooLong => "File name too long"

def message (o : Obstacle) (p : Path) : String :=
  let shown := String.ofList (Quoted.encode p.toString.toList)
  s!"[Errno {o.number}] {o.wording}: {shown}"

end Obstacle

end NinjaFile
