import EntityAtlas.Proofs.DepthFirst
import EntityAtlas.Proofs.DottedNames
import EntityAtlas.Proofs.NestingForest

/-!
# Graph descriptions

The description of a graph has an entry for each node, with the qualified name of the entity as its id, and an entry for
each arc, with the ids of its ends. Enclosing declarations are no part of a qualified name, so two entities have one id
when they share their package and their simple name. If no two entities do, an id stands for one node, and the graph can
be read back from its description.
-/

namespace EntityAtlas

namespace Digraph

variable {α β : Type} [DecidableEq α] [DecidableEq β] {g : Digraph α}

/-- A proper graph in which every arc is there once. -/
structure IsSimple (g : Digraph α) : Prop extends g.IsProper where
  single : g.arcs.Nodup

omit [DecidableEq α] in
/-- Pairs of a node and each of its kids are listed once when the nodes and the kids of each are. -/
theorem nodup_families {kids : α → List α} {parents : List α} (nodup : parents.Nodup)
    (distinct : ∀ p ∈ parents, (kids p).Nodup) : (parents.flatMap fun p => (kids p).map (p, ·)).Nodup := by
  refine List.nodup_flatMap.mpr ⟨fun p mem => ?_, nodup.imp ?_⟩
  · exact (distinct p mem).map fun _ _ same => (Prod.mk.inj same).2
  · intro p q different e mem mem'
    obtain ⟨k, _, rfl⟩ := List.mem_map.mp mem
    obtain ⟨k', _, same⟩ := List.mem_map.mp mem'
    exact different (Prod.mk.inj same).1.symm

omit [DecidableEq α] in
theorem Holds.isSimple {kids : α → List α} {depth : α → Nat} {parents : List α} (holds : g.Holds kids parents)
    (forest : IsForest kids depth parents) : g.IsSimple where
  toIsProper := holds.isProper
  single := holds.arcs ▸ nodup_families forest.nodup forest.distinct

theorem foldl_addNode {nodes more : List α} (nodup : (nodes ++ more).Nodup) (arcs : List (α × α)) :
    more.foldl addNode ⟨nodes, arcs⟩ = ⟨nodes ++ more, arcs⟩ := by
  induction more generalizing nodes with
  | nil => simp
  | cons a more ih =>
    have new : a ∉ nodes := fun mem => (List.nodup_append.mp nodup).2.2 a mem a List.mem_cons_self rfl
    rw [List.foldl_cons, addNode, if_neg new, ih (by simpa using nodup), List.append_assoc, List.singleton_append]

theorem foldl_addArc {nodes : List α} {arcs more : List (α × α)} (nodup : (arcs ++ more).Nodup)
    (ends : ∀ e ∈ more, e.1 ∈ nodes ∧ e.2 ∈ nodes) :
    more.foldl (fun (g : Digraph α) e => g.addArc e.1 e.2) ⟨nodes, arcs⟩ = ⟨nodes, arcs ++ more⟩ := by
  induction more generalizing arcs with
  | nil => simp
  | cons e more ih =>
    obtain ⟨⟨start, stop⟩, ends⟩ := List.forall_mem_cons.mp ends
    have new : e ∉ arcs := fun mem => (List.nodup_append.mp nodup).2.2 e mem e List.mem_cons_self rfl
    rw [List.foldl_cons, addArc_of_mem start stop new, ih (by simpa using nodup) ends, List.append_assoc,
      List.singleton_append]

namespace IsSimple

variable (simple : g.IsSimple)
include simple

/-- Adding the nodes and arcs of a simple graph gives this graph. -/
theorem build_eq : build g.nodes g.arcs = g := by
  rw [build, empty, foldl_addNode (by simpa using simple.nodup), List.nil_append,
    foldl_addArc (by simpa using simple.single) simple.ends, List.nil_append]

theorem nodup_successors (a : α) : (g.successors a).Nodup := by
  refine (simple.single.filter _).map_on fun e mem e' mem' same => ?_
  have start : e.1 = a := of_decide_eq_true (List.mem_filter.mp mem).2
  have start' : e'.1 = a := of_decide_eq_true (List.mem_filter.mp mem').2
  exact Prod.ext (start.trans start'.symm) same

/-- A graph is made of the families of its nodes. -/
theorem holds : (⟨g.nodes, g.edges⟩ : Digraph α).Holds g.successors g.nodes where
  mem a := by
    refine ⟨.inl, fun mem => mem.elim id fun ⟨p, _, kid⟩ => ?_⟩
    exact simple.mem_nodes_of_mem_successors kid
  nodup := simple.nodup
  arcs := rfl
  order _ _ := rfl

end IsSimple

/-- A graph of the names of another graph's nodes, each name that of one node, with the arcs of the other graph. -/
structure IsNamedBy (g : Digraph α) (name : α → β) (g' : Digraph β) : Prop where
  distinct : ∀ a ∈ g.nodes, ∀ b ∈ g.nodes, name a = name b → a = b
  nodes : g'.nodes = g.nodes.map name
  edges : g'.edges = g.edges.map (Prod.map name name)
  successors : ∀ a ∈ g.nodes, g'.successors (name a) = (g.successors a).map name
  roots : g'.roots = g.roots.map name

/-- The names of the nodes of a graph, with its arcs told node by node. -/
def rename (name : α → β) (g : Digraph α) : Digraph β :=
  ⟨g.nodes.map name, g.edges.map (Prod.map name name)⟩

section Rename

variable {name : α → β} (simple : g.IsSimple) (distinct : ∀ a ∈ g.nodes, ∀ b ∈ g.nodes, name a = name b → a = b)
include simple distinct

omit [DecidableEq β] in
theorem isSimple_rename : (g.rename name).IsSimple where
  nodup := simple.nodup.map_on distinct
  single := by
    have edges : g.edges.Nodup := nodup_families simple.nodup fun a _ => simple.nodup_successors a
    refine edges.map_on fun e mem e' mem' same => ?_
    obtain ⟨start, arc⟩ := (mem_edges e.1 e.2).mp mem
    obtain ⟨start', arc'⟩ := (mem_edges e'.1 e'.2).mp mem'
    obtain ⟨starts, stops⟩ := Prod.mk.inj same
    exact Prod.ext (distinct _ start _ start' starts)
      (distinct _ (simple.ends e arc).2 _ (simple.ends e' arc').2 stops)
  ends e mem := by
    obtain ⟨e, told, rfl⟩ := List.mem_map.mp mem
    obtain ⟨start, arc⟩ := (mem_edges e.1 e.2).mp told
    exact ⟨List.mem_map_of_mem start, List.mem_map_of_mem (simple.ends e arc).2⟩

theorem successors_rename {a : α} (mem : a ∈ g.nodes) :
    (g.rename name).successors (name a) = (g.successors a).map name := by
  -- a name is that of one node, so the arcs that start at the name are those that start at the node
  have own : g.edges.filter (fun e => name e.1 = name a) = g.edges.filter (fun e => e.1 = a) :=
    List.filter_congr fun e arc => by
      have start := ((mem_edges e.1 e.2).mp arc).1
      exact decide_eq_decide.mpr ⟨distinct _ start _ mem, congrArg name⟩
  have kids := simple.holds.successors_eq simple.nodup mem
  rw [successors] at kids
  rw [← kids, successors, rename, List.filter_map, List.map_map, List.map_map]
  simp only [Function.comp_def, Prod.map_fst, Prod.map_snd]
  rw [own]

theorem isNamedBy_rename : g.IsNamedBy name (g.rename name) where
  distinct := distinct
  nodes := rfl
  edges := by
    have each : ∀ a ∈ g.nodes, ((g.rename name).successors (name a)).map (name a, ·) =
        ((g.successors a).map (a, ·)).map (Prod.map name name) := fun a mem => by
      rw [successors_rename simple distinct mem]
      simp [Function.comp_def]
    rw [edges, edges, List.map_flatMap, rename, List.flatMap_map]
    exact List.flatMap_congr each
  successors a mem := successors_rename simple distinct mem
  roots := by
    have same : ∀ a ∈ g.nodes, ((g.rename name).arcs.all fun e => e.2 ≠ name a) = g.arcs.all fun e => e.2 ≠ a := by
      intro a mem
      rw [Bool.eq_iff_iff, List.all_eq_true, List.all_eq_true, rename]
      simp only [List.forall_mem_map, Prod.map_snd, decide_eq_true_eq]
      constructor
      · intro lacking e arc same
        exact lacking e ((mem_edges e.1 e.2).mpr ⟨(simple.ends e arc).1, arc⟩) (congrArg name same)
      · intro lacking e told same
        have arc := ((mem_edges e.1 e.2).mp told).2
        exact lacking e arc (distinct _ (simple.ends e arc).2 _ mem same)
    rw [roots, roots, rename, List.filter_map]
    exact congrArg _ (List.filter_congr same)

end Rename

end Digraph

namespace Json

/-- The text under a name in an object, or nothing when there is none. -/
def textAt (name : String) : Json → String
  | .obj fields => ((fields.lookup name).bind text?).getD ""
  | _ => ""

/-- The items of the list under a name in an object. -/
def itemsAt (name : String) : Json → List Json
  | .obj fields =>
    match fields.lookup name with
    | some (.arr items) => items
    | _ => []
  | _ => []

end Json

namespace EntityGraph

/-- The ids of the nodes that a description tells of. -/
def describedIds (told : Json) : List String :=
  (told.itemsAt "nodes").map (·.textAt "id")

/-- The ids of the ends of the arcs that a description tells of. -/
def describedArcs (told : Json) : List (String × String) :=
  (told.itemsAt "edges").map fun arc => (arc.textAt "src", arc.textAt "dst")

/-- The graph of ids that is made of a description. -/
def rebuilt (told : Json) : Digraph String :=
  .build (describedIds told) (describedArcs told)

variable (g : EntityGraph) (fields : Option (Placed → List String))

theorem describedIds_describe : describedIds (g.describe fields) = g.nodes.map (·.decl.qualifiedName) := by
  have items : (g.describe fields).itemsAt "nodes" = g.nodes.map (describeNode fields) := rfl
  rw [describedIds, items, List.map_map]
  rfl

theorem describedArcs_describe : describedArcs (g.describe fields) =
    g.edges.map (Prod.map (·.decl.qualifiedName) (·.decl.qualifiedName)) := by
  have items : (g.describe fields).itemsAt "edges" = g.edges.map describeArc := rfl
  rw [describedArcs, items, List.map_map]
  rfl

/-- Ids that are told once are those of one node each. -/
theorem eq_of_qualifiedName (distinct : (describedIds (g.describe fields)).Nodup) :
    ∀ p ∈ g.nodes, ∀ q ∈ g.nodes, p.decl.qualifiedName = q.decl.qualifiedName → p = q := by
  rw [describedIds_describe] at distinct
  exact fun p mem q mem' same => List.inj_on_of_nodup_map distinct mem mem' same

/-- A simple graph with an id for each node is read back from its description. -/
theorem isNamedBy_rebuilt (simple : g.IsSimple) (distinct : (describedIds (g.describe fields)).Nodup) :
    g.IsNamedBy (·.decl.qualifiedName) (rebuilt (g.describe fields)) := by
  have each := eq_of_qualifiedName g fields distinct
  have whole : rebuilt (g.describe fields) = g.rename (·.decl.qualifiedName) := by
    rw [rebuilt, describedIds_describe, describedArcs_describe]
    exact (Digraph.isSimple_rename simple each).build_eq
  rw [whole]
  exact Digraph.isNamedBy_rename simple each

/-- The ends of the arcs that a description tells of are ids of nodes that it tells of. -/
theorem mem_describedIds (proper : g.IsProper) : ∀ e ∈ describedArcs (g.describe fields),
    e.1 ∈ describedIds (g.describe fields) ∧ e.2 ∈ describedIds (g.describe fields) := by
  rw [describedIds_describe, describedArcs_describe]
  intro e mem
  obtain ⟨arc, told, rfl⟩ := List.mem_map.mp mem
  obtain ⟨start, listed⟩ := (Digraph.mem_edges arc.1 arc.2).mp told
  exact ⟨List.mem_map_of_mem start, List.mem_map_of_mem (proper.ends arc listed).2⟩

end EntityGraph

namespace Nesting

open EntityGraph (describedIds describedArcs rebuilt)

/-- The graph of a scan has nothing twice, and its nodes have names without dots. -/
theorem isSimple_of_scan (c : Collector) (package : String) {s : Store} (sound : s.Sound) {scan : Scan}
    (found : ((Nesting.standard package c).scan s).value = .ok scan) :
    scan.graph.IsSimple ∧ ∀ p ∈ scan.graph.nodes, '.' ∉ p.decl.name.toList := by
  obtain ⟨entities, scans, holds, forest⟩ := exists_forest_of_scan sound found
  refine ⟨holds.isSimple forest, fun p mem => ?_⟩
  have among := (holds.mem_nodes forest p).mp mem
  rw [c.value_entities_eq_ok scans] at among
  exact (c.isSegment_of_mem_declaredBelow s (List.mem_filter.mp among).1).dotless

/-- The description of the graph of a scan has the qualified names of the entities for ids, in the order of the nodes,
and tells the arcs by the ids of their ends. Two nodes have one id just when the entities share package, an empty one
counting as none, and simple name, whatever is around them; so the ids are distinct just when no two entities of the
scan share both. Then each end of each arc that is told is the id of exactly one node that is told, and the description
gives the graph back: ids in place of nodes, with the same arcs, successors and roots in the same order. -/
theorem describe_identifies (c : Collector) (package : String) {s : Store} (sound : s.Sound) {scan : Scan}
    (found : ((Nesting.standard package c).scan s).value = .ok scan) (fields : Option (Placed → List String)) :
    let g := scan.graph
    let told := g.describe fields
    describedIds told = g.nodes.map (·.decl.qualifiedName) ∧
      describedArcs told = g.edges.map (Prod.map (·.decl.qualifiedName) (·.decl.qualifiedName)) ∧
      (∀ p ∈ g.nodes, ∀ q ∈ g.nodes, p.decl.qualifiedName = q.decl.qualifiedName ↔
        p.decl.name = q.decl.name ∧ p.decl.head.package.getD "" = q.decl.head.package.getD "") ∧
      ((describedIds told).Nodup ↔ ∀ p ∈ g.nodes, ∀ q ∈ g.nodes, p.decl.name = q.decl.name →
        p.decl.head.package.getD "" = q.decl.head.package.getD "" → p = q) ∧
      ((describedIds told).Nodup →
        (∀ e ∈ describedArcs told, (describedIds told).count e.1 = 1 ∧ (describedIds told).count e.2 = 1) ∧
          g.IsNamedBy (·.decl.qualifiedName) (rebuilt told)) := by
  intro g told
  obtain ⟨simple, dotless⟩ := isSimple_of_scan c package sound found
  have shared : ∀ p ∈ g.nodes, ∀ q ∈ g.nodes, p.decl.qualifiedName = q.decl.qualifiedName ↔
      p.decl.name = q.decl.name ∧ p.decl.head.package.getD "" = q.decl.head.package.getD "" :=
    fun p mem q mem' => Decl.qualifiedName_eq_iff (dotless p mem) (dotless q mem')
  refine ⟨g.describedIds_describe fields, g.describedArcs_describe fields, shared, ⟨?_, ?_⟩, fun distinct => ⟨?_, ?_⟩⟩
  · intro distinct p mem q mem' names packages
    exact g.eq_of_qualifiedName fields distinct p mem q mem' ((shared p mem q mem').mpr ⟨names, packages⟩)
  · intro apart
    rw [EntityGraph.describedIds_describe]
    refine simple.nodup.map_on fun p mem q mem' same => ?_
    obtain ⟨names, packages⟩ := (shared p mem q mem').mp same
    exact apart p mem q mem' names packages
  · intro e mem
    obtain ⟨start, stop⟩ := g.mem_describedIds fields simple.toIsProper e mem
    exact ⟨List.count_eq_one_of_mem distinct start, List.count_eq_one_of_mem distinct stop⟩
  · exact g.isNamedBy_rebuilt fields simple distinct

theorem describe_identifies_nested :
    let c := Collector.standard .here .java17
    nestedSources.Sound ∧ ∃ scan, ((Nesting.standard "" c).scan nestedSources).value = .ok scan ∧
      let told := scan.graph.describe (some scan.columnsOf)
      describedIds told = ["A", "B", "D"] ∧ describedArcs told = [("A", "B")] ∧
        (∀ e ∈ describedArcs told, (describedIds told).count e.1 = 1 ∧ (describedIds told).count e.2 = 1) ∧
        scan.graph.IsNamedBy (·.decl.qualifiedName) (rebuilt told) := by
  intro c
  have runs : ((Nesting.standard "" c).scan nestedSources).value.toOption.any (fun scan =>
      let told := scan.graph.describe (some scan.columnsOf)
      decide (describedIds told = ["A", "B", "D"] ∧ describedArcs told = [("A", "B")])) = true := by
    decide +kernel
  cases found : ((Nesting.standard "" c).scan nestedSources).value with
  | error f =>
    rw [found] at runs
    cases runs
  | ok scan =>
    rw [found] at runs
    obtain ⟨ids, arcs⟩ := of_decide_eq_true runs
    obtain ⟨-, -, -, -, back⟩ := describe_identifies c "" sound_nestedSources found (some scan.columnsOf)
    exact ⟨sound_nestedSources, scan, rfl, ids, arcs, back (by rw [ids]; decide)⟩

/-- Entities that have an entity inside, each its own one, but both of one simple name. -/
def billingSources : Store where
  root := .dir [("A.java", .file (Text.Utf8.encode
    "@Table class Order { @Table class Line { } } @Table class Invoice { @Table class Line { } }".toList))]
  cwd := []

/-- Entities of one simple name inside different ones have one id. It stands for two nodes, and the graph that is read
back has one node less. -/
theorem describe_confuses :
    let c := Collector.standard .here .java17
    billingSources.Sound ∧ ∃ scan, ((Nesting.standard "" c).scan billingSources).value = .ok scan ∧
      let told := scan.graph.describe (some scan.columnsOf)
      scan.graph.nodes.map (·.decl.nestedName) = ["Order", "Order.Line", "Invoice", "Invoice.Line"] ∧
        describedIds told = ["Order", "Line", "Invoice", "Line"] ∧ ¬ (describedIds told).Nodup ∧
        ("Order", "Line") ∈ describedArcs told ∧ (describedIds told).count "Line" = 2 ∧
        (rebuilt told).nodes = ["Order", "Line", "Invoice"] := by
  have runs : ((Nesting.standard "" (.standard .here .java17)).scan billingSources).value.toOption.any (fun scan =>
      let told := scan.graph.describe (some scan.columnsOf)
      decide (scan.graph.nodes.map (·.decl.nestedName) = ["Order", "Order.Line", "Invoice", "Invoice.Line"] ∧
        describedIds told = ["Order", "Line", "Invoice", "Line"] ∧
        describedArcs told = [("Order", "Line"), ("Invoice", "Line")])) = true := by
    decide +kernel
  cases found : ((Nesting.standard "" (.standard .here .java17)).scan billingSources).value with
  | error f =>
    rw [found] at runs
    cases runs
  | ok scan =>
    rw [found] at runs
    obtain ⟨names, ids, arcs⟩ := of_decide_eq_true runs
    have tree : billingSources.Sound := ⟨.dir (by decide) (by simpa using by decide) (by simpa using .file _), rfl⟩
    refine ⟨tree, scan, found, names, ids, ?_⟩
    rw [rebuilt, ids, arcs]
    decide

end Nesting

end EntityAtlas
