import EntityAtlas.Java.Level
import EntityAtlas.Package

/-!
# Settings of a run

Options come as named values of any kind. Settings are made of them only if every needed option is there and every
option is of the right kind; all faults are reported together, in the order of the options.
-/

namespace EntityAtlas

structure Settings where
  baseDir : Path
  packageName : String
  outputDirectory : Path
  sourceDirectory : Path
  level : Java.Level
  generator : String
  deriving DecidableEq, Repr

namespace Settings

/-- The source directory that is taken when none is chosen. -/
def standardSources : String := "src/main/java"

/-- The generator that is taken when none is chosen. -/
def standardGenerator : String := "r2dbc"

/-- What can be wrong with an option. -/
inductive Fault where
  | required
  | notAPath
  | notAText
  | notALevel
  deriving DecidableEq, Repr

def Fault.message : Fault → String
  | .required => "Field required"
  | .notAPath => "Input is not a valid path for <class 'pathlib.Path'>"
  | .notAText => "Input should be a valid string"
  | .notALevel => "Input should be " ++ Java.Level.choices

/-- The faults of options, each with the option's name. -/
abbrev Faults := List (String × Fault)

/-- The message about faulty options. -/
def faultsMessage (faults : Faults) : String :=
  "Invalid generation settings: " ++ "; ".intercalate (faults.map fun (name, f) => name ++ ": " ++ f.message)

/-- The options of a run: named values. -/
abbrev Options := List (String × Json)

/-- The value of an option, read by `read`; an option that is not given has the value `standard`, if there is one. -/
def Options.get (options : Options) (name : String) {α : Type} (standard : Option α) (read : Json → Except Fault α) :
    Except Fault α :=
  match options.lookup name with
  | some value => read value
  | none => match standard with
    | some a => .ok a
    | none => .error .required

def readPath : Json → Except Fault Path
  | .str s => .ok (.ofString s)
  | _ => .error .notAPath

def readText : Json → Except Fault String
  | .str s => .ok s
  | _ => .error .notAText

def readLevel (value : Json) : Except Fault Java.Level :=
  match value.text?.bind Java.Level.ofName? with
  | some l => .ok l
  | none => .error .notALevel

/-- The fault of an outcome under a name, if it has one. -/
def faultOf {α : Type} (name : String) : Except Fault α → Faults
  | .ok _ => []
  | .error f => [(name, f)]

/-- The settings that options ask for. The package is taken in its dotted form. -/
def ofOptions (options : Options) : Except Faults Settings :=
  let baseDir := options.get "base_dir" none readPath
  let package := options.get "package_name" none readText
  let output := options.get "output_directory" none readPath
  let sources := options.get "source_directory" (some (Path.ofString standardSources)) readPath
  let level := options.get "language_level" (some .standard) readLevel
  let generator := options.get "generator" (some standardGenerator) readText
  match baseDir, package, output, sources, level, generator with
  | .ok b, .ok p, .ok o, .ok s, .ok l, .ok g => .ok ⟨b, Package.normalize p, o, s, l, g⟩
  | _, _, _, _, _, _ => .error (faultOf "base_dir" baseDir ++ faultOf "package_name" package ++
      faultOf "output_directory" output ++ faultOf "source_directory" sources ++ faultOf "language_level" level ++
      faultOf "generator" generator)

/-- The directory that sources are read from. -/
def sourceRoot (s : Settings) : Path :=
  s.baseDir.append s.sourceDirectory

end Settings

end EntityAtlas
