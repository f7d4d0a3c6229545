import EntityAtlas.Generate.Registry
import EntityAtlas.Generate.Write
import EntityAtlas.Nesting
import EntityAtlas.Settings

/-!
# A run

A run reads the entities that settings ask for and writes their metadata classes. The generator is chosen before
anything is read, and everything is read before anything is written. A source that is nested too deep stops the run.
-/

namespace EntityAtlas

namespace Settings

/-- How the graph of the settings' package is made. -/
def nesting (settings : Settings) : Nesting :=
  .standard settings.packageName (.standard settings.sourceRoot settings.level)

/-- The entities of the settings' package. -/
def scan (settings : Settings) (s : Store) : Logged (Except Nesting.Failure Nesting.Scan) :=
  settings.nesting.scan s

end Settings

namespace Run

/-- The name under which runs write to the log. -/
def speaker : String := "entity_metadata.pipeline"

/-- Why a run fails. -/
inductive Failure where
  | selection (error : Generate.SelectionError)
  | scan (failure : Nesting.Failure)
  | writing (fault : Fault)
  | overflow (overflow : Overflow)
  deriving DecidableEq, Repr

namespace Failure

/-- The wording of what went wrong. -/
def cause : Failure → String
  | .selection e => e.message
  | .scan f => f.message
  | .writing f => f.message
  | .overflow o => o.message

/-- The message of a failed run. -/
def message (f : Failure) : String :=
  "Error generating metadata: " ++ f.cause

end Failure

/-- What a run gives: the entities, the output directory, and the files written. -/
structure Result where
  scan : Nesting.Scan
  output : Path
  files : List Path
  deriving Repr

/-- What a run comes to, and the store after it. -/
structure Finished where
  outcome : Except Failure Result
  store : Store

/-- Choose the generator of the settings among known ones. -/
def select (settings : Settings) : Logged (Except Generate.SelectionError Generate.Maker) := do
  match ← Generate.Registry.register [] Generate.Registry.known with
  | .error e => return .error e
  | .ok makers => return Generate.Registry.choose makers (some settings.generator)

def plan (settings : Settings) (s : Store) (date : String) : Generate.Plan :=
  ⟨s.cwdPath.append settings.outputDirectory, Naming.standard, date⟩

/-- Read the entities and write their files. -/
def execute (settings : Settings) (date : String) (s : Store) : Logged Finished := do
  match ← select settings with
  | .error e => return ⟨.error (.selection e), s⟩
  | .ok _ =>
    match ← (settings.scan s).outcome with
    | .error o => return ⟨.error (.overflow o), s⟩
    | .ok (.error f) => return ⟨.error (.scan f), s⟩
    | .ok (.ok scan) =>
      let plan := plan settings s date
      let written ← plan.write scan.graph scan.columnsOf s
      match written.outcome with
      | .error f => return ⟨.error (.writing f), written.store⟩
      | .ok files =>
        .write .info speaker ("Generated metadata for " ++ toString scan.graph.nodes.length ++
          " entity classes into: '" ++ plan.output.text ++ "'\nIncluded entities:\n" ++ scan.graph.hierarchy)
        return ⟨.ok ⟨scan, plan.output, files⟩, written.store⟩

/-- A whole run; a failure is told. -/
def generate (settings : Settings) (date : String) (s : Store) : Logged Finished := do
  .write .info speaker ("Generating metadata for '" ++ settings.packageName ++ "' package with language level '" ++
    settings.level.name ++ "'")
  let finished ← execute settings date s
  match finished.outcome with
  | .ok _ => return finished
  | .error f =>
    .write .error speaker ("Metadata generation failed: " ++ f.cause)
    return finished

end Run

end EntityAtlas
