import EntityAtlas.Supertype.Stage

/-!
# Chains of stages

A chain asks its stages one after another. The first proposal that names a declaration below the source directory wins;
a name that was tried is not looked up again.
-/

namespace EntityAtlas.Supertype

/-- Stages in order, and the collector that looks names up. -/
structure Chain where
  collector : Collector
  stages : List Stage

namespace Chain

/-- The name under which chains write to the log. -/
def speaker : String := "entity_metadata.scanner.resolver"

/-- The usual chain for entities of a package. -/
def standard (c : Collector) (package : String) : Chain :=
  ⟨c, [.imports, .sourceScan c, .synthesized package]⟩

/-- Tell that a stage failed and is passed over. -/
def tellFailure (stage : Stage) (ref : TypeRef) (owner : Decl) (f : StageFailure) : Logged Unit :=
  .write .warning speaker ("Supertype stage '" ++ stage.name ++ "' failed for '" ++ ref.name ++ "' in '" ++
    owner.qualifiedName ++ "': " ++ f.message)

/-- The proposal of a stage, if it makes one. Failures that are passed over are told. -/
def proposal (stage : Stage) (s : Store) (ref : TypeRef) (owner : Decl) : Proposal := do
  match ← stage.propose s ref owner with
  | .ok name => return .ok (name.filter (· != ""))
  | .error f =>
    if f.isPassedOver then
      tellFailure stage ref owner f
      return .ok none
    else return .error f

def firstName (s : Store) (ref : TypeRef) (owner : Decl) : List Stage → Proposal
  | [] => return .ok none
  | stage :: stages => do
    match ← proposal stage s ref owner with
    | .error f => return .error f
    | .ok (some name) => return .ok (some name)
    | .ok none => firstName s ref owner stages

/-- The qualified name that a reference stands for, whether or not it is declared. -/
def resolveName (c : Chain) (s : Store) (ref : TypeRef) (owner : Decl) : Proposal :=
  firstName s ref owner c.stages

/-- The declaration of a proposed name. What comes of the look-up is told. -/
def lookUp (c : Collector) (s : Store) (stage : Stage) (ref : TypeRef) (owner : Decl) (name : String) :
    Logged (Option Placed) := do
  match ← c.findQualified s name with
  | .error e =>
    .write .warning speaker ("Could not look up supertype '" ++ name ++ "' of '" ++ owner.qualifiedName ++ "': " ++
      e.message)
    return none
  | .ok (some p) =>
    .write .debug speaker ("Resolved supertype '" ++ ref.name ++ "' of '" ++ owner.qualifiedName ++ "' to '" ++ name ++
      "' (" ++ stage.name ++ ")")
    return some p
  | .ok none =>
    .write .debug speaker ("Supertype '" ++ name ++ "' of '" ++ owner.qualifiedName ++ "' not found in sources (" ++
      stage.name ++ ")")
    return none

/-- The first declaration that a proposed name has, names already tried being passed over. -/
def search (c : Collector) (s : Store) (ref : TypeRef) (owner : Decl) :
    List Stage → (tried : List String) → Logged (Except StageFailure (Option Placed))
  | [], _ => return .ok none
  | stage :: stages, tried => do
    match ← proposal stage s ref owner with
    | .error f => return .error f
    | .ok none => search c s ref owner stages tried
    | .ok (some name) =>
      if tried.contains name then search c s ref owner stages tried
      else match ← lookUp c s stage ref owner name with
        | some p => return .ok (some p)
        | none => search c s ref owner stages (name :: tried)

/-- The declaration of the type that a declaration extends, if it extends one that is found. -/
def supertype (c : Chain) (s : Store) (d : Decl) : Logged (Except StageFailure (Option Placed)) :=
  match d.supertype? with
  | none => return .ok none
  | some ref => search c.collector s ref d c.stages []

end Chain

end EntityAtlas.Supertype
