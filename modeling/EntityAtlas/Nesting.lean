import EntityAtlas.Supertype.Chain

/-!
# The graph of a package's entities

The entities of a package and, for each of them, its columns: its own first and then those of its ancestors, the nearest
ancestor first. Walking up stops at a type whose qualified name was met before.
-/

namespace EntityAtlas

/-- How the graph of a package is made: the package in its dotted form, the collector, and the chain that finds
supertypes. -/
structure Nesting where
  package : String
  collector : Collector
  chain : Supertype.Chain

namespace Nesting

/-- The name under which the making of graphs is logged. -/
def speaker : String := "entity_metadata.builder"

/-- The usual way for a package, written in any form. -/
def standard (package : String) (c : Collector) : Nesting :=
  ⟨Package.normalize package, c, .standard c (Package.normalize package)⟩

/-- Why a graph cannot be made. -/
inductive Failure where
  | scan (error : ScanError)
  | stage (failure : Supertype.StageFailure)
  deriving DecidableEq, Repr

def Failure.message : Failure → String
  | .scan e => e.message
  | .stage f => f.message

/-- The columns of a declaration and of its ancestors, of at most `fuel` of them. The walk starts for `first` and has
met `visited` before. -/
def columnsFrom (n : Nesting) (s : Store) (first : Decl) : (fuel : Nat) → (visited : List String) → Decl →
    Logged (Except Supertype.StageFailure (List String))
  | 0, _, _ => return .ok []
  | fuel + 1, visited, d => do
    if visited.contains d.qualifiedName then
      .write .debug speaker ("Inheritance of '" ++ first.qualifiedName ++ "' revisits '" ++ d.qualifiedName ++
        "', stopping")
      return .ok []
    let own := n.collector.columns d
    match ← n.chain.supertype s d with
    | .error f => return .error f
    | .ok none => return .ok own
    | .ok (some p) =>
      return (← columnsFrom n s first fuel (d.qualifiedName :: visited) p.decl).map (own ++ ·)

/-- A number of steps that no walk up exceeds: each but the first meets a declared name that was not met before. -/
def heightBound (n : Nesting) (s : Store) : Nat := n.chain.collector.count s + 2

/-- The columns of a declaration, its own and inherited ones. -/
def columns (n : Nesting) (s : Store) (d : Decl) : Logged (Except Supertype.StageFailure (List String)) :=
  n.columnsFrom s d (n.heightBound s) [] d

/-- A graph, and the columns of its entities in the order in which they were found. -/
structure Scan where
  graph : EntityGraph
  columns : List (Placed × List String)
  deriving DecidableEq, Repr

def Scan.columnsOf (scan : Scan) (p : Placed) : List String :=
  (scan.columns.lookup p).getD []

/-- Add an entity and arcs to the entities directly inside it. -/
def addEntity (c : Collector) (g : EntityGraph) (p : Placed) : EntityGraph :=
  (p.children.filter fun child => c.isEntity child.decl).foldl (fun g child => (g.addNode child).addArc p child)
    (g.addNode p)

/-- Find the columns of entities, one after another, each walk up taking `height` steps at most. -/
def allColumns (n : Nesting) (s : Store) (height : Nat) :
    List Placed → Logged (Except Supertype.StageFailure (List (Placed × List String)))
  | [] => return .ok []
  | p :: ps => do
    match ← n.columnsFrom s p.decl height [] p.decl with
    | .error f => return .error f
    | .ok own => return (← allColumns n s height ps).map ((p, own) :: ·)

/-- The graph of the entities of the package, with their columns. -/
def scan (n : Nesting) (s : Store) : Logged (Except Failure Scan) := do
  match ← n.collector.entities s n.package with
  | .error e => return .error (.scan e)
  | .ok entities =>
    match ← n.allColumns s (n.heightBound s) entities with
    | .error f => return .error (.stage f)
    | .ok columns =>
      let graph := entities.foldl (addEntity n.collector) .empty
      .write .debug speaker ("Entity graph for '" ++ n.package ++ "': " ++ toString graph.nodes.length ++ " nodes, " ++
        toString graph.arcs.length ++ " edges")
      return .ok ⟨graph, columns⟩

end Nesting

end EntityAtlas
