import NinjaFile.Scalar

/-!
# Rules

A rule says how files of one kind are made from others. Its text and its record
leave out what was never given, and they differ in the flags: the text has a
line for a flag that holds, the record an entry for a flag that was given.
-/

namespace NinjaFile

structure Rule where
  name : String
  command : String := ""
  description : Option String := none
  depfile : Option String := none
  restat : Option Flag := none
  generator : Option Flag := none
  pool : Option String := none
  deriving DecidableEq, Repr

namespace Rule

/-- The rule that needs no declaration: it only names its inputs. -/
def phony : String := "phony"

def line (name value : String) : String :=
  "  " ++ name ++ " = " ++ value ++ "\n"

def optionalLine (name : String) : Option String → String
  | none => ""
  | some value => line name value

def flagLine (name : String) : Option Flag → String
  | none => ""
  | some flag => if flag.holds then line name "1" else ""

/-- The lines of a dependency file, which come with the way to read it. -/
def depfileLines : Option String → String
  | none => ""
  | some file => line "depfile" file ++ line "deps" "gcc"

def text (r : Rule) : String :=
  "rule " ++ r.name ++ "\n" ++ line "command" r.command ++
    optionalLine "description" r.description ++ flagLine "restat" r.restat ++
    flagLine "generator" r.generator ++ optionalLine "pool" r.pool ++ depfileLines r.depfile

def fields (r : Rule) : List (String × Value) :=
  [("name", .text r.name), ("command", .text r.command)] ++
    Value.optionalField "description" (r.description.map .text) ++
    Value.optionalField "restat" (r.restat.map Flag.toValue) ++
    Value.optionalField "generator" (r.generator.map Flag.toValue) ++
    Value.optionalField "pool" (r.pool.map .text) ++
    Value.optionalField "depfile" (r.depfile.map .text)

/-- A change to a rule; each replaces one field. -/
inductive Edit where
  | command (command : String)
  | description (description : Option String)
  | depfile (file : Option String)
  | restat (flag : Option Flag)
  | generator (flag : Option Flag)
  | pool (pool : Option String)
  deriving DecidableEq, Repr

def edit (r : Rule) : Edit → Rule
  | .command command => { r with command }
  | .description description => { r with description }
  | .depfile depfile => { r with depfile }
  | .restat restat => { r with restat }
  | .generator generator => { r with generator }
  | .pool pool => { r with pool }

end Rule

end NinjaFile
