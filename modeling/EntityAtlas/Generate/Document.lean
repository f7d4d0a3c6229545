import EntityAtlas.Generate.Block
import EntityAtlas.Graph.EntityGraph

/-!
# Generated files

The texts of generated files: two lines that tell where a file comes from and of which date it is, then the accessor
class, or the class of a root entity with its package and imports.
-/

namespace EntityAtlas.Generate

/-- What generation goes by: the output directory, the rule that names classes, and the date in its standard form. -/
structure Plan where
  output : Path
  naming : String → String
  date : String

/-- Lines, each with its end. -/
def textOf (lines : List String) : String :=
  String.join (lines.map (· ++ "\n"))

@[simp] theorem textOf_nil : textOf [] = "" := rfl

@[simp] theorem textOf_cons (l : String) (ls : List String) : textOf (l :: ls) = l ++ "\n" ++ textOf ls := by
  simp [textOf, String.join_cons]

@[simp] theorem textOf_append (ls ls' : List String) : textOf (ls ++ ls') = textOf ls ++ textOf ls' := by
  simp [textOf, String.join_append]

/-- The lines that every generated file starts with. -/
def header (date : String) : List String :=
  ["// Generated by entity-metadata - DO NOT EDIT. Any modifications will be overwritten.",
    "// Generated on [" ++ date ++ "]."]

/-- The lines before the class of an entity. -/
def preamble (package : Option String) : List String :=
  (match package with
    | none => []
    | some p => if p == "" then [] else ["package " ++ p ++ ";", ""]) ++
  ["import " ++ Holder.package ++ "." ++ Holder.name ++ ";",
    "import org.springframework.data.relational.core.sql.Column;",
    "import org.springframework.data.relational.core.sql.Table;",
    ""]

namespace Plan

/-- The text of the accessor class. -/
def holderText (plan : Plan) : String :=
  textOf (header plan.date ++ Holder.lines)

/-- The file of an entity. -/
def target (plan : Plan) (d : Decl) : Path :=
  (Package.outputDirectory plan.output d.head.package).join (plan.naming d.name ++ ".java")

/-- The block of a root entity. -/
def block (plan : Plan) (g : EntityGraph) (columnsOf : Placed → List String) (root : Placed) : Block :=
  .ofTree plan.naming columnsOf (g.treeFrom root)

/-- The lines of the class of an entity, around those of the classes inside. -/
def classLines (plan : Plan) (columnsOf : Placed → List String) (depth : Nat) (p : Placed) (inner : List String) :
    List String :=
  let name := plan.naming p.decl.name
  let entity := p.decl.nestedName
  Block.opening depth name entity ++ (constants (columnsOf p)).map (Block.constantLine (Block.indent (depth + 1))) ++
    Block.methods depth name entity ++ inner ++ [Block.indent depth ++ "\x7d"]

/-- Add the class of an entity to those that stand inside a class so far. An entity that was met before gets none. -/
def addClass (render : List Placed → Placed → List String × List Placed) (state : List String × List Placed)
    (child : Placed) : List String × List Placed :=
  if child ∈ state.2 then state
  else
    let (lines, visited) := render state.2 child
    (state.1 ++ "" :: lines, visited)

/-- The lines of an entity's class with the classes inside, and the entities met by then. -/
def render (plan : Plan) (g : EntityGraph) (columnsOf : Placed → List String) :
    (fuel depth : Nat) → (visited : List Placed) → Placed → List String × List Placed
  | 0, depth, visited, p => (plan.classLines columnsOf depth p [], p :: visited)
  | fuel + 1, depth, visited, p =>
    let inside := (g.successors p).foldl (addClass (plan.render g columnsOf fuel (depth + 1))) ([], p :: visited)
    (plan.classLines columnsOf depth p inside.1, inside.2)

/-- The text of a root entity's file. -/
def entityText (plan : Plan) (g : EntityGraph) (columnsOf : Placed → List String) (root : Placed) : String :=
  textOf (header plan.date ++ preamble root.decl.head.package ++
    (plan.render g columnsOf g.nodes.length 0 [] root).1)

/-- The roots with their files, when `taken` files belong to earlier roots: for each root its file and the earlier root
that has the same file, if there is one. -/
def assign (plan : Plan) : (taken : List (Path × Placed)) → List Placed → List (Placed × Path × Option Placed)
  | _, [] => []
  | taken, root :: roots =>
    let file := plan.target root.decl
    match taken.lookup file with
    | some earlier => (root, file, some earlier) :: plan.assign taken roots
    | none => (root, file, none) :: plan.assign ((file, root) :: taken) roots

end Plan

end EntityAtlas.Generate
