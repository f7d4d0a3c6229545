/-!
# Directed graphs

Nodes and arcs are kept in the order in which they were added; what is there is not added again. Arcs are listed node
by node in the order of the nodes.
-/

namespace EntityAtlas

/-- A directed graph: its nodes and its arcs, each in the order of their arrival. -/
structure Digraph (α : Type) where
  nodes : List α
  arcs : List (α × α)
  deriving DecidableEq, Repr, Inhabited

namespace Digraph

variable {α : Type} [DecidableEq α]

/-- The graph without nodes. -/
def empty : Digraph α := ⟨[], []⟩

def addNode (g : Digraph α) (a : α) : Digraph α :=
  if a ∈ g.nodes then g else ⟨g.nodes ++ [a], g.arcs⟩

/-- Add an arc, and its ends when they are not there. -/
def addArc (g : Digraph α) (a b : α) : Digraph α :=
  let g := (g.addNode a).addNode b
  if (a, b) ∈ g.arcs then g else ⟨g.nodes, g.arcs ++ [(a, b)]⟩

/-- The graph of nodes and arcs added one after another. -/
def build (nodes : List α) (arcs : List (α × α)) : Digraph α :=
  arcs.foldl (fun g e => g.addArc e.1 e.2) (nodes.foldl addNode empty)

/-- The ends of the arcs that start at a node. -/
def successors (g : Digraph α) (a : α) : List α :=
  (g.arcs.filter (·.1 = a)).map (·.2)

/-- The arcs, node by node. -/
def edges (g : Digraph α) : List (α × α) :=
  g.nodes.flatMap fun a => (g.successors a).map fun b => (a, b)

/-- The nodes at which no arc ends. -/
def roots (g : Digraph α) : List α :=
  g.nodes.filter fun a => g.arcs.all (·.2 ≠ a)

end Digraph

/-- A tree with any number of branches. -/
inductive Rose (α : Type) where
  | node (value : α) (branches : List (Rose α))
  deriving Repr, Inhabited

namespace Rose

variable {α : Type}

mutual

/-- The values with their depths, a value before those of its branches. -/
def levels (depth : Nat) : Rose α → List (Nat × α)
  | .node a bs => (depth, a) :: levelsAll (depth + 1) bs

/-- The values of several trees with their depths. -/
def levelsAll (depth : Nat) : List (Rose α) → List (Nat × α)
  | [] => []
  | t :: ts => levels depth t ++ levelsAll depth ts

end

end Rose

namespace Digraph

variable {α : Type} [DecidableEq α]

/-- The trees below the nodes `starts` that are not yet visited, and the nodes visited after that. Each node enters one
tree only, at its first visit in depth-first order. -/
def explore (g : Digraph α) : (fuel : Nat) → (visited starts : List α) → List (Rose α) × List α
  | 0, visited, _ => ([], visited)
  | fuel + 1, visited, starts =>
    starts.foldl
      (fun (trees, visited) a =>
        if a ∈ visited then (trees, visited)
        else
          let (branches, visited) := g.explore fuel (a :: visited) (g.successors a)
          (trees ++ [.node a branches], visited))
      ([], visited)

/-- A depth that no search exceeds: every step down visits a new node. -/
def depthBound (g : Digraph α) : Nat := g.nodes.length + 1

/-- The depth-first forest below the roots; a node stands below the first root that reaches it. -/
def forest (g : Digraph α) : List (Rose α) :=
  (g.explore g.depthBound [] g.roots).1

/-- The depth-first tree below one node. -/
def treeFrom (g : Digraph α) (a : α) : Rose α :=
  .node a (g.explore g.nodes.length [a] (g.successors a)).1

end Digraph

end EntityAtlas
