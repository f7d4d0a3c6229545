import EntityAtlas.Collector
import EntityAtlas.Supertype.Name

/-!
# Stages

A supertype is known only by the name that a declaration gives for it. A stage proposes the qualified name of the type
that is meant, or nothing, or it fails.
-/

namespace EntityAtlas.Supertype

/-- Why a stage fails. -/
inductive StageFailure where
  | scan (error : ScanError)
  | metadata (why : String)
  | system (why : String)
  | value (why : String)
  | unimplemented
  deriving DecidableEq, Repr

namespace StageFailure

/-- The wording of the failure. -/
def message : StageFailure → String
  | .scan e => e.message
  | .metadata why => why
  | .system why => why
  | .value why => why
  | .unimplemented => ""

/-- Whether a search goes on with the next stage after the failure. -/
def isPassedOver : StageFailure → Bool
  | .scan _ => true
  | .metadata _ => true
  | .system _ => true
  | .value _ => false
  | .unimplemented => false

end StageFailure

/-- What a stage answers: a qualified name, or nothing. -/
abbrev Proposal := Logged (Except StageFailure (Option String))

/-- A stage: its name, and what it proposes for a reference in a declaration. -/
structure Stage where
  name : String
  propose : Store → TypeRef → Decl → Proposal

namespace Stage

/-- The first import that ends with a dot and a name. -/
def importOf? (imports : List String) (name : String) : Option String :=
  imports.find? fun i => Text.endsWith i ("." ++ name)

/-- The name that the declaring file states: by a package in the reference, by an import of the type, or by an import of
the type that the reference starts with. -/
def stated? (ref : TypeRef) (owner : Decl) : Option String :=
  let imports := owner.head.imports
  if ref.isQualified then
    let first := Text.firstPiece '.' ref.name
    if isTypeSegment first then (importOf? imports first).map fun i => modelName (i ++ "." ++ ref.simpleName)
    else some (modelName ref.name)
  else (importOf? imports ref.simpleName).map modelName

/-- The stage of what the declaring file states. -/
def imports : Stage :=
  ⟨"imports", fun _ ref owner => return .ok (stated? ref owner)⟩

/-- Of several declarations with the same simple name the first one in the owner's package, or else the first. -/
def choose (owner : Decl) (candidates : List Placed) : Option Placed :=
  match candidates with
  | [] => none
  | [only] => some only
  | candidates =>
    (candidates.find? fun p => packageOf p.decl.qualifiedName == owner.head.package.getD "").or candidates.head?

/-- The stage that looks for declarations with the same simple name below the source directory. -/
def sourceScan (c : Collector) : Stage :=
  ⟨"source-scan", fun s ref owner => do
    match ← c.findSimple s ref.simpleName with
    | .error e => return .error (.scan e)
    | .ok candidates => return .ok ((choose owner candidates).map (·.decl.qualifiedName))⟩

/-- The name of a type in a package. -/
def synthesizedName (package : String) (ref : TypeRef) : String :=
  if package == "" then ref.simpleName else package ++ "." ++ ref.simpleName

/-- The stage that takes the supertype to be in a given package. -/
def synthesized (package : String) : Stage :=
  ⟨"synthesized", fun _ ref _ => return .ok (some (synthesizedName package ref))⟩

/-- A stage that always answers the same. -/
def fixed (name : String) (answer : Except StageFailure (Option String)) : Stage :=
  ⟨name, fun _ _ _ => return answer⟩

end Stage

end EntityAtlas.Supertype
