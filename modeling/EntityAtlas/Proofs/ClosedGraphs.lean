import EntityAtlas.Graph.EntityGraph

/-!
# Closed graphs

A finished graph stays what it was when it was made, whatever is tried at it or at the graph that it was made from. All
that is tried at the finished graph is refused. The graph that it was made from is closed as well, and then the two are
one, or it is open and takes up every change alone.
-/

namespace EntityAtlas

namespace GraphSource

/-- A graph after a change. -/
def Change.after (g : EntityGraph) : Change → EntityGraph
  | .node p => g.addNode p
  | .arc p q => g.addArc p q

theorem apply_eq (s : GraphSource) (c : Change) :
    s.apply c = if s.isClosed then .error .closed else .ok ⟨c.after s.graph, false⟩ := by
  unfold apply
  split
  · rfl
  · rename_i isOpen
    cases c <;> simp [Change.after, isOpen]

end GraphSource

namespace GraphView

open GraphSource (Change)

/-- What a closed graph is made from: nodes and arcs, or another graph, which may be open or closed. -/
inductive Origin where
  | parts (nodes : List Placed) (arcs : List (Placed × Placed))
  | source (s : GraphSource)
  deriving DecidableEq, Repr

namespace Origin

/-- The closed graph with its source, just made. -/
def made : Origin → GraphView
  | .parts nodes arcs => .build nodes arcs
  | .source s => .wrap s

/-- The graph as it is when it is made. -/
def graph : Origin → EntityGraph
  | .parts nodes arcs => .build nodes arcs
  | .source s => s.graph

/-- The graph that it is made from. Nodes and arcs leave an open graph behind that has nothing to do with it. -/
def base : Origin → GraphSource
  | .parts _ _ => ⟨.empty, false⟩
  | .source s => s

end Origin

/-- Try a change at one end, and tell why it is refused if it is. A refused change leaves everything as it is. -/
def respond (v : GraphView) (t : Target) (c : Change) : Option GraphError × GraphView :=
  match v.attempt t c with
  | .ok v' => (none, v')
  | .error e => (some e, v)

/-- The changes that are tried at the source. -/
def triedAtSource (tries : List (Target × Change)) : List Change :=
  (tries.filter (·.1 = .source)).map (·.2)

/-- A closed graph and its source after some attempts: the graph is as it was made, and a source that is not one with it
has taken up the changes that were tried there. -/
structure IsLeftBy (v : GraphView) (o : Origin) (tries : List (Target × Change)) : Prop where
  view : v.view = ⟨o.graph, true⟩
  source : v.source =
    if o.base.isClosed then v.view else ⟨(triedAtSource tries).foldl Change.after o.base.graph, false⟩

theorem Origin.isLeftBy_nil (o : Origin) : o.made.IsLeftBy o [] where
  view := by cases o <;> rfl
  source := by
    rcases o with ⟨nodes, arcs⟩ | ⟨g, _ | _⟩ <;> rfl

namespace IsLeftBy

variable {v : GraphView} {o : Origin} {tries : List (Target × Change)}

/-- What is tried at the closed graph is refused. -/
theorem respond_view (left : v.IsLeftBy o tries) (c : Change) : v.respond .view c = (some .closed, v) := by
  simp [respond, attempt, GraphSource.apply_eq, left.view, Except.map]

/-- What is tried at a closed source is refused. -/
theorem respond_closed (left : v.IsLeftBy o tries) (shared : o.base.isClosed = true) (c : Change) :
    v.respond .source c = (some .closed, v) := by
  simp [respond, attempt, GraphSource.apply_eq, left.source, shared, left.view, Except.map]

/-- What is tried at an open source is taken up there. -/
theorem respond_open (left : v.IsLeftBy o tries) (isOpen : o.base.isClosed = false) (c : Change) :
    v.respond .source c = (none, { v with source := ⟨c.after v.source.graph, false⟩ }) := by
  simp [respond, attempt, GraphSource.apply_eq, left.source, isOpen, Except.map]

/-- One more attempt is refused unless it is at an open source, and leaves the closed graph as it is. -/
theorem respond_spec (left : v.IsLeftBy o tries) (t : Target) (c : Change) :
    (v.respond t c).1 = (if t = .view ∨ o.base.isClosed = true then some .closed else none) ∧
      (v.respond t c).2.IsLeftBy o (tries ++ [(t, c)]) := by
  have unmoved (aside : t = .view ∨ o.base.isClosed = true) : v.IsLeftBy o (tries ++ [(t, c)]) := by
    refine ⟨left.view, left.source.trans ?_⟩
    rcases aside with rfl | shared
    · simp [triedAtSource]
    · rw [if_pos shared, if_pos shared]
  cases t with
  | view =>
    rw [left.respond_view]
    exact ⟨rfl, unmoved (.inl rfl)⟩
  | source =>
    cases shared : o.base.isClosed with
    | true =>
      rw [left.respond_closed shared]
      exact ⟨rfl, unmoved (.inr shared)⟩
    | false =>
      rw [left.respond_open shared]
      refine ⟨rfl, left.view, ?_⟩
      simp [left.source, shared, triedAtSource]

end IsLeftBy

/-- Try changes one after another, each at one end, and tell which are refused. -/
def respondAll : GraphView → List (Target × Change) → List (Option GraphError) × GraphView
  | v, [] => ([], v)
  | v, (t, c) :: tries =>
    let (first, v) := v.respond t c
    let (others, v) := respondAll v tries
    (first :: others, v)

theorem IsLeftBy.respondAll_spec {v : GraphView} {o : Origin} {tries : List (Target × Change)}
    (left : v.IsLeftBy o tries) (more : List (Target × Change)) :
    (v.respondAll more).1 = more.map (fun t => if t.1 = .view ∨ o.base.isClosed = true then some .closed else none) ∧
      (v.respondAll more).2.IsLeftBy o (tries ++ more) := by
  induction more generalizing v tries with
  | nil => exact ⟨rfl, by simpa [respondAll] using left⟩
  | cons t more ih =>
    obtain ⟨first, next⟩ := left.respond_spec t.1 t.2
    obtain ⟨others, last⟩ := ih next
    simp only [respondAll, List.map_cons]
    exact ⟨by rw [first, others], by simpa using last⟩

/-- However a closed graph is made, and whatever is tried in whatever order at it and at the graph that it was made
from: each attempt at it is refused, and its nodes, edges, successors, roots, hierarchy and description stay what they
were when it was made. The other graph refuses all as well and stays one with it if it was closed, and if not it takes
up all that is tried there. -/
theorem respondAll_keeps_view (o : Origin) (tries : List (Target × Change)) :
    let v := (o.made.respondAll tries).2
    (o.made.respondAll tries).1 =
        tries.map (fun t => if t.1 = .view ∨ o.base.isClosed = true then some .closed else none) ∧
      v.source = (if o.base.isClosed then v.view
        else ⟨(triedAtSource tries).foldl Change.after o.base.graph, false⟩) ∧
      v.view.isClosed = true ∧ v.view.graph.nodes = o.graph.nodes ∧ v.view.graph.edges = o.graph.edges ∧
      (∀ p, v.view.graph.successors? p = o.graph.successors? p) ∧ v.view.graph.roots = o.graph.roots ∧
      v.view.graph.hierarchy = o.graph.hierarchy ∧
      ∀ fields, v.view.graph.describe fields = o.graph.describe fields := by
  intro v
  obtain ⟨told, left⟩ := o.isLeftBy_nil.respondAll_spec tries
  have view : v.view = ⟨o.graph, true⟩ := left.view
  refine ⟨told, left.source, ?_⟩
  rw [view]
  exact ⟨rfl, rfl, rfl, fun _ => rfl, rfl, rfl, fun _ => rfl⟩

end GraphView

end EntityAtlas
