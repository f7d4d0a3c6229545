import EntityAtlas.Decl.Walk
import EntityAtlas.Graph.EntityGraph
import EntityAtlas.Java.Source
import EntityAtlas.Log
import EntityAtlas.Package
import EntityAtlas.Store.Finder

/-!
# Collecting declarations

A collector reads the sources below a directory and gives the declarations that are asked for. A file that cannot be
read adds nothing; a directory that cannot be listed makes the scan fail; a file whose declarations lie too deep inside
one another stops the work. Nothing is kept between two scans.
-/

namespace EntityAtlas

/-- What a collector goes by. -/
structure Collector where
  sources : Path
  level : Java.Level
  parser : Java.Parser
  entityMarker : String
  columnMarker : String
  ending : String

/-- The failure of a scan: the package that was asked for, the directory where the scan began, and the cause. -/
structure ScanError where
  package : String
  directory : Path
  cause : Fault
  deriving DecidableEq, Repr

namespace ScanError

/-- The wording of the failure. -/
def message (e : ScanError) : String :=
  "Error while scanning classes in package '" ++ e.package ++ "' at '" ++ e.directory.text ++ "': " ++ e.cause.message

end ScanError

namespace Collector

/-- The name under which collectors write to the log. -/
def speaker : String := "entity_metadata.scanner.collector"

/-- The collector of a source directory with the usual markers. -/
def standard (sources : Path) (level : Java.Level) : Collector :=
  ⟨sources, level, .standard, EntityAtlas.entityMarker, EntityAtlas.columnMarker, ".java"⟩

/-- Tell that a file cannot be read. -/
def complain (p : Path) (why : String) : Logged Unit :=
  .write .error speaker ("Error parsing file '" ++ p.text ++ "': " ++ why)

/-- Tell the problems that were met in a file. -/
def tellProblems (p : Path) : List Java.Problem → Logged Unit
  | [] => return ()
  | problem :: rest => do
    .write .warning speaker ("Parsing issue in '" ++ p.text ++ "': " ++ problem.message)
    tellProblems p rest

/-- Whether a unit is too deep for a machine. A source that the strict reader takes never is. -/
def isTooDeep (c : Collector) (machine : Machine) (u : CompilationUnit) : Bool :=
  c.level.reader != .strict && machine.depth < u.depth

/-- Stop the work if a unit is too deep. -/
def checkDepth (c : Collector) (machine : Machine) (p : Path) (u : CompilationUnit) : Logged Unit :=
  if c.isTooDeep machine u then .stopWith ⟨p.text⟩ else return ()

/-- What a file declares, if it can be read. -/
def readUnit (c : Collector) (s : Store) (p : Path) : Logged (Option CompilationUnit) := do
  .write .debug speaker ("Parsing file: '" ++ p.text ++ "'")
  match s.readText p with
  | .error f =>
    complain p f.message
    return none
  | .ok cs =>
    match Java.Outline.ofSource c.parser c.level (some p.text) cs with
    | .error f =>
      complain p f.message
      return none
    | .ok outline =>
      c.checkDepth s.machine p outline.unit
      tellProblems p outline.problems
      return some outline.unit

/-- The declarations of a file, each with its place. -/
def declarationsIn (c : Collector) (s : Store) (p : Path) : Logged (List Placed) := do
  match ← c.readUnit s p with
  | some u => return u.walk p.text
  | none => return []

/-- The declarations of several files, file by file. -/
def declarationsInAll (c : Collector) (s : Store) : List Path → Logged (List Placed)
  | [] => return []
  | p :: ps => do
    let found ← c.declarationsIn s p
    return found ++ (← declarationsInAll c s ps)

def directory (c : Collector) (package : String) : Path :=
  Package.directory c.sources package

/-- The declarations below a package's directory that are wanted, file by file, each before those inside it. -/
def extract (c : Collector) (s : Store) (package : String) (wanted : Decl → Bool) :
    Logged (Except ScanError (List Placed)) := do
  let start := c.directory package
  .write .debug speaker ("Scanning classes in path: '" ++ start.text ++ "'")
  let listing := s.findFiles c.ending start
  let found ← c.declarationsInAll s listing.files
  match listing.fault with
  | none => return .ok (found.filter fun p => wanted p.decl)
  | some f =>
    .write .error speaker ("Error while scanning classes in package '" ++ package ++ "': " ++ f.message)
    return .error ⟨package, start, f⟩

def isEntity (c : Collector) (d : Decl) : Bool :=
  d.hasMarker c.entityMarker

def entities (c : Collector) (s : Store) (package : String) : Logged (Except ScanError (List Placed)) := do
  .write .debug speaker ("Collecting entities in package '" ++ package ++ "' with language level '" ++ c.level.name ++
    "'")
  c.extract s package c.isEntity

/-- The declarations with a simple name, wherever below the source directory. -/
def findSimple (c : Collector) (s : Store) (name : String) : Logged (Except ScanError (List Placed)) :=
  c.extract s "" fun d => d.name == name

/-- The first declaration with a qualified name, wherever below the source directory. -/
def findQualified (c : Collector) (s : Store) (name : String) : Logged (Except ScanError (Option Placed)) := do
  return (← c.extract s "" fun d => d.qualifiedName == name).map (·.head?)

/-- The names of a declaration's own columns, inherited ones apart. -/
def columns (c : Collector) (d : Decl) : List String :=
  d.columns c.columnMarker

/-- How many declarations there are below the source directory, as far as it can be read. -/
def count (c : Collector) (s : Store) : Nat :=
  (c.declarationsInAll s (s.findFiles c.ending c.sources).files).value.length

end Collector

end EntityAtlas
