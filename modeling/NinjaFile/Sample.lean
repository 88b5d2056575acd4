import NinjaFile.Escape
import NinjaFile.Session.Basic

/-!
# A sample project

A document that compiles two scripts and joins them into one bundle. One of the
sources has a blank in its name, so its names are escaped; the file regenerates
itself by a rule of its own.
-/

namespace NinjaFile.Sample

/-- The stems of the sources, without directory `src` and extension. -/
def stems : List String := ["app", "my views/list"]

def source (stem : String) : String :=
  escape ("src/" ++ stem ++ ".coffee")

def output (stem : String) : String :=
  escape ("build/src/" ++ stem ++ ".js")

def generator : String := "examples/coffee_project.py"

def rules : List Rule :=
  [{ name := "coffee"
     command := "coffee -cs < $in > $out"
     description := some "COFFEE $out" },
   { name := "concat"
     command := "cat $in > $out"
     description := some "CONCAT $out" },
   { name := "regen"
     command := "python $in"
     generator := some (.bool true) }]

/-- The edges of the project: a script for each source, the bundle, the file itself, and a name for
all. -/
def edges : List Edge :=
  stems.map (fun stem =>
    { targets := [output stem], rule := "coffee", sources := some [source stem] }) ++
  [{ targets := ["dist/bundle.js"]
     rule := "concat"
     sources := some (stems.map output)
     orderOnly := some ["build"] },
   { targets := ["build.ninja"], rule := "regen", sources := some [generator] },
   { targets := ["all"], sources := some ["dist/bundle.js"] }]

def document : Document where
  header := some ("# Generated by " ++ generator ++ ", do not edit.")
  version := some "1.10"
  buildDir := some "build"
  defaultTarget := some "all"
  rules := rules
  edges := edges

def defaultPath : Path := Path.ofString "build.ninja"

/-- The storage after the file has been generated; one that is up to date is left alone. -/
def generate (s : Storage) (p : Path) : Storage × Except Fault Unit :=
  let session : Session :=
    { document, ruleCount := rules.length, edgeCount := edges.length, storage := s }
  let (after, report) := session.save p (some true) none
  (after.storage, report.result)

end NinjaFile.Sample
