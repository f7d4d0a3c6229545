import EntityAtlas.Log
import EntityAtlas.Text.Blank
import EntityAtlas.Text.Quoted

/-!
# Generators by name

Generators are registered under names, each name once. One is chosen by its name, or because it is the only one.
-/

namespace EntityAtlas.Generate

/-- A registered generator: its name, and the name under which the log tells of it. -/
structure Maker where
  name : String
  title : String
  deriving DecidableEq, Repr, Inhabited

/-- Why no generator is chosen. -/
inductive SelectionError where
  | duplicate (name : String)
  | noneRegistered
  | ambiguous (names : List String)
  | unknown (selected : String) (names : List String)
  deriving DecidableEq, Repr

namespace SelectionError

/-- The wording of the failure. -/
def message : SelectionError → String
  | .duplicate name => "Duplicate generator factory name: " ++ name
  | .noneRegistered => "No generator factories registered."
  | .ambiguous names => "Multiple generator factories found. Specify one of: " ++ Text.quotedList names
  | .unknown selected names =>
    "Unknown generator: '" ++ selected ++ "'. Supported: " ++ Text.quotedList names

end SelectionError

namespace Registry

/-- The name under which registries write to the log. -/
def speaker : String := "entity_metadata.generators.factory"

/-- The generators that are there from the start. -/
def known : List Maker := [⟨"r2dbc", "R2dbcMetadataGeneratorFactory"⟩]

/-- Register generators after others; a name that is there already is refused. -/
def register : (registered : List Maker) → List Maker → Logged (Except SelectionError (List Maker))
  | registered, [] => return .ok registered
  | registered, m :: ms => do
    .write .debug speaker ("Registered generator factory: " ++ m.name ++ " -> " ++ m.title)
    if registered.any (·.name == m.name) then return .error (.duplicate m.name)
    else register (registered ++ [m]) ms

/-- The names of generators, in order. -/
def names (makers : List Maker) : List String :=
  (makers.map (·.name)).mergeSort (· ≤ ·)

/-- Whether a selection names nothing. -/
def isBlank (selected : Option String) : Bool :=
  (selected.map Text.strip).getD "" == ""

/-- The generator that is selected: by its name without blanks at its ends, or the only one when no name is given. -/
def choose (makers : List Maker) (selected : Option String) : Except SelectionError Maker :=
  match makers with
  | [] => .error .noneRegistered
  | first :: others =>
    let name := selected.getD ""
    if isBlank selected then if others.isEmpty then .ok first else .error (.ambiguous (names makers))
    else match makers.find? (·.name == Text.strip name) with
      | some m => .ok m
      | none => .error (.unknown name (names makers))

end Registry

end EntityAtlas.Generate
