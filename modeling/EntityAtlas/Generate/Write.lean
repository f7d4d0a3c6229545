import EntityAtlas.Generate.Document
import EntityAtlas.Log
import EntityAtlas.Store.Write

/-!
# Writing generated files

The accessor class is written first, then a file for each root entity. Of several roots with the same file the first one
gets it. Writing ends at the first fault, and what was written before stays.
-/

namespace EntityAtlas.Generate

/-- The name under which generation is logged. -/
def speaker : String := "entity_metadata.generators.r2dbc"

/-- What writing comes to: the files written and the store after it, or the fault and what the store has become. -/
structure Written where
  outcome : Except Fault (List Path)
  store : Store

/-- Write a text to a file. -/
def saveText (s : Store) (p : Path) (text : String) : Except Fault Unit × Store :=
  s.save p (Text.Utf8.encode text.toList)

namespace Plan

/-- Tell the columns that get no constant of their own. -/
def tellRepeats : List (Placed × String) → Logged Unit
  | [] => return ()
  | (p, f) :: rest => do
    .write .warning speaker ("Entity '" ++ p.decl.qualifiedName ++ "' inherits field '" ++ f ++
      "' more than once; generating a single constant")
    tellRepeats rest

def writeEntity (plan : Plan) (g : EntityGraph) (columnsOf : Placed → List String) (s : Store) (root : Placed) :
    Logged (Except Fault Unit × Store) := do
  tellRepeats (Block.repeatsIn columnsOf (g.treeFrom root))
  let file := plan.target root.decl
  match saveText s file (plan.entityText g columnsOf root) with
  | (.error f, s) => return (.error f, s)
  | (.ok (), s) =>
    .write .debug speaker ("Generated '" ++ file.text ++ "' for entity '" ++ root.decl.qualifiedName ++ "'")
    return (.ok (), s)

/-- Write the files of root entities, after `written` files. -/
def writeEntities (plan : Plan) (g : EntityGraph) (columnsOf : Placed → List String) :
    (written : List Path) → Store → List (Placed × Path × Option Placed) → Logged Written
  | written, s, [] => return ⟨.ok written, s⟩
  | written, s, (root, file, some earlier) :: rest => do
    .write .warning speaker ("Entities '" ++ earlier.decl.nestedName ++ "' and '" ++ root.decl.nestedName ++
      "' both generate '" ++ file.text ++ "'; keeping the first")
    plan.writeEntities g columnsOf written s rest
  | written, s, (root, file, none) :: rest => do
    match ← plan.writeEntity g columnsOf s root with
    | (.error f, s) => return ⟨.error f, s⟩
    | (.ok (), s) => plan.writeEntities g columnsOf (written ++ [file]) s rest

/-- Write the accessor class. -/
def writeHolder (plan : Plan) (s : Store) : Logged (Except Fault Unit × Store) := do
  match saveText s (Holder.path plan.output) plan.holderText with
  | (.error f, s) => return (.error f, s)
  | (.ok (), s) =>
    .write .debug speaker (Holder.name ++ ".java has been generated at: " ++ plan.output.text)
    return (.ok (), s)

/-- Write all files for a graph. -/
def write (plan : Plan) (g : EntityGraph) (columnsOf : Placed → List String) (s : Store) : Logged Written := do
  match ← plan.writeHolder s with
  | (.error f, s) => return ⟨.error f, s⟩
  | (.ok (), s) => plan.writeEntities g columnsOf [Holder.path plan.output] s (plan.assign [] g.roots)

end Plan

end EntityAtlas.Generate
