import EntityAtlas.Decl.Walk
import EntityAtlas.Graph.Digraph
import EntityAtlas.Json

/-!
# Entity graphs

The graph of entities: an arc leads from an entity to one that is declared directly inside it. A finished graph is
closed to changes. Closing an open graph takes a copy, so later changes to the open one are not seen; a graph that is
closed already is shared.
-/

namespace EntityAtlas

abbrev EntityGraph := Digraph Placed

def entityMarker : String := "Table"

def columnMarker : String := "Column"

namespace EntityGraph

/-- The first node with a qualified name. -/
def find? (g : EntityGraph) (qualifiedName : String) : Option Placed :=
  g.nodes.find? (·.decl.qualifiedName == qualifiedName)

def hierarchyLine (depth : Nat) (p : Placed) : String :=
  (if depth = 0 then "• " else String.join (List.replicate depth "  ") ++ "↳ ") ++ p.decl.name

/-- Add the line of an entity and those of the entities below it to the lines so far. An entity that was met before is
passed over. -/
def addLines (g : EntityGraph) :
    (fuel depth : Nat) → List String × List Placed → Placed → List String × List Placed
  | 0, _, state, _ => state
  | fuel + 1, depth, (lines, visited), p =>
    if p ∈ visited then (lines, visited)
    else (g.successors p).foldl (g.addLines fuel (depth + 1)) (lines ++ [hierarchyLine depth p], p :: visited)

/-- The hierarchy: a line for each entity below a root, indented by its depth. -/
def hierarchy (g : EntityGraph) : String :=
  "\n".intercalate (g.roots.foldl (g.addLines g.depthBound 0) ([], [])).1

/-- The description of an entity; its fields are told when they are known. -/
def describeNode (fields : Option (Placed → List String)) (p : Placed) : Json :=
  let d := p.decl
  let plain : List (String × Json) :=
    [("name", .str d.name), ("kind", .str d.head.kind.label), ("package", .ofOption d.head.package),
      ("source_file", .ofOption d.head.sourceFile)]
  let table : List (String × Json) :=
    match (d.marker? entityMarker).bind Marker.value? with
    | some v => if v == "" then [] else [("table", .str v)]
    | none => []
  let known : List (String × Json) :=
    match fields with
    | some f => [("fields", .texts (f p))]
    | none => []
  .obj [("id", .str d.qualifiedName), ("kind", .str "Entity"), ("attrs", .obj (plain ++ table ++ known))]

def describeArc (e : Placed × Placed) : Json :=
  .obj [("src", .str e.1.decl.qualifiedName), ("dst", .str e.2.decl.qualifiedName), ("type", .str "NESTS")]

/-- The description of the whole graph. -/
def describe (g : EntityGraph) (fields : Option (Placed → List String)) : Json :=
  .obj [("nodes", .arr (g.nodes.map (describeNode fields))), ("edges", .arr (g.edges.map describeArc))]

end EntityGraph

/-- Why a graph operation is refused. -/
inductive GraphError where
  | closed
  | notANode (p : Placed)
  deriving DecidableEq, Repr

namespace GraphError

/-- The wording of the refusal, given how a declaration is shown. -/
def message (shown : Placed → String) : GraphError → String
  | .closed => "Frozen graph can't be modified"
  | .notANode p => "The node " ++ shown p ++ " is not in the digraph."

end GraphError

def EntityGraph.successors? (g : EntityGraph) (p : Placed) : Except GraphError (List Placed) :=
  if p ∈ g.nodes then .ok (g.successors p) else .error (.notANode p)

/-- A graph that may be open to changes or closed. -/
structure GraphSource where
  graph : EntityGraph
  isClosed : Bool
  deriving DecidableEq, Repr, Inhabited

namespace GraphSource

inductive Change where
  | node (p : Placed)
  | arc (p q : Placed)
  deriving DecidableEq, Repr

/-- Apply a change; a closed graph refuses it. -/
def apply (s : GraphSource) (c : Change) : Except GraphError GraphSource :=
  if s.isClosed then .error .closed
  else .ok { s with graph := match c with
    | .node p => s.graph.addNode p
    | .arc p q => s.graph.addArc p q }

end GraphSource

/-- A closed graph and the source it was made from. When the source is closed itself, the two are one. -/
structure GraphView where
  view : GraphSource
  source : GraphSource
  deriving DecidableEq, Repr, Inhabited

namespace GraphView

/-- The graph of given nodes and arcs; its source is of no further use. -/
def build (nodes : List Placed) (arcs : List (Placed × Placed)) : GraphView :=
  ⟨⟨.build nodes arcs, true⟩, ⟨.empty, false⟩⟩

/-- The closed graph over a source: the source itself if it is closed, or else a closed copy. -/
def wrap (source : GraphSource) : GraphView :=
  ⟨{ source with isClosed := true }, source⟩

/-- The two ends at which a change may be tried. -/
inductive Target where
  | view
  | source
  deriving DecidableEq, Repr

/-- Try a change at one end. -/
def attempt (v : GraphView) (t : Target) (c : GraphSource.Change) : Except GraphError GraphView :=
  match t with
  | .view => (v.view.apply c).map fun s => { v with view := s }
  | .source => (v.source.apply c).map fun s => { v with source := s }

end GraphView

end EntityAtlas
