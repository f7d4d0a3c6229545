import EntityAtlas.Decl.Walk
import EntityAtlas.Generate.Holder
import EntityAtlas.Generate.Naming
import EntityAtlas.Graph.Digraph

/-!
# Class blocks

The body of a generated file is a tree of class blocks, one block for each entity below a root, and has one way to be
written as lines.
-/

namespace EntityAtlas.Generate

/-- A class block: the name of the generated class, the name of the entity as written in a class literal, its constants
with the columns they stand for, and the blocks inside. -/
inductive Block where
  | node (name : String) (entity : String) (constants : List (String × String)) (inner : List Block)
  deriving Repr, Inhabited

/-- The constants of columns, each once, when those in `seen` are there already. -/
def constantsFrom : (seen : List String) → (columns : List String) → List (String × String)
  | _, [] => []
  | seen, f :: fs =>
    if seen.contains (Naming.constant f) then constantsFrom seen fs
    else (Naming.constant f, f) :: constantsFrom (Naming.constant f :: seen) fs

/-- The columns whose constants are there already, or come from an earlier column. -/
def repeatsFrom : (seen : List String) → (columns : List String) → List String
  | _, [] => []
  | seen, f :: fs =>
    if seen.contains (Naming.constant f) then f :: repeatsFrom seen fs
    else repeatsFrom (Naming.constant f :: seen) fs

/-- The constants of columns and the columns they stand for; a constant is kept for its first column. -/
def constants (columns : List String) : List (String × String) :=
  constantsFrom [] columns

/-- The columns that get no constant of their own. -/
def repeats (columns : List String) : List String :=
  repeatsFrom [] columns

namespace Block

mutual

/-- The block of an entity and of those below it. -/
def ofTree (naming : String → String) (columnsOf : Placed → List String) : Rose Placed → Block
  | .node p branches =>
    .node (naming p.decl.name) p.decl.nestedName (constants (columnsOf p)) (ofTrees naming columnsOf branches)

/-- The blocks of several entities. -/
def ofTrees (naming : String → String) (columnsOf : Placed → List String) : List (Rose Placed) → List Block
  | [] => []
  | t :: ts => ofTree naming columnsOf t :: ofTrees naming columnsOf ts

end

/-- The entities of a tree with their columns that get no constant of their own, in the order of the blocks. -/
def repeatsIn (columnsOf : Placed → List String) (tree : Rose Placed) : List (Placed × String) :=
  (tree.levels 0).flatMap fun (_, p) => (repeats (columnsOf p)).map fun f => (p, f)

/-- Indentation by levels of two blanks. -/
def indent (depth : Nat) : String :=
  String.join (List.replicate depth "  ")

def constantLine (body : String) (c : String × String) : String :=
  body ++ "public static final Column " ++ c.1 ++ " = column(\"" ++ c.2 ++ "\");"

/-- The lines before the constants. -/
def opening (depth : Nat) (name entity : String) : List String :=
  let body := indent (depth + 1)
  [indent depth ++ (if depth == 0 then "public final class " else "public static final class ") ++ name ++ " \x7b",
    "",
    body ++ "private static final Table TABLE_ = " ++ Holder.name ++ ".getTable(" ++ entity ++ ".class);",
    ""]

/-- The lines after the constants. -/
def methods (depth : Nat) (name entity : String) : List String :=
  let body := indent (depth + 1)
  let inside := indent (depth + 2)
  ["",
    body ++ "private " ++ name ++ "() \x7b",
    body ++ "\x7d",
    "",
    body ++ "public static Table table() \x7b",
    inside ++ "return TABLE_;",
    body ++ "\x7d",
    "",
    body ++ "private static Column column(String property) \x7b",
    inside ++ "return Column.create(" ++ Holder.name ++ ".getPersistentEntity(" ++ entity ++ ".class)",
    indent (depth + 4) ++ ".getRequiredPersistentProperty(property).getColumnName(), TABLE_);",
    body ++ "\x7d"]

mutual

def lines (depth : Nat) : Block → List String
  | .node name entity constants inner =>
    opening depth name entity ++ constants.map (constantLine (indent (depth + 1))) ++ methods depth name entity ++
      innerLines (depth + 1) inner ++ [indent depth ++ "\x7d"]

/-- The lines of the blocks inside another one, each after an empty line. -/
def innerLines (depth : Nat) : List Block → List String
  | [] => []
  | b :: bs => "" :: (lines depth b ++ innerLines depth bs)

end

end Block

end EntityAtlas.Generate
