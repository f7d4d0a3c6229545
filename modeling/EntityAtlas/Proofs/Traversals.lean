import EntityAtlas.Proofs.MetadataFiles
import Mathlib.Data.List.Pairwise

/-!
# Two ways through a graph

The hierarchy goes through a graph from all roots at once, the files of root entities from each root alone. Both go
depth first and come to an end in graphs of whatever shape: the hierarchy has a line for each entity below a root, and
the file of a root has a class block for each entity below that root. If no entity is below two roots, the files tell
the entities and their depths one after another as the hierarchy does.
-/

namespace EntityAtlas

namespace Digraph

variable {α : Type} [DecidableEq α] {g : Digraph α}

/-- Trees that tell the nodes below their starts: they come from a depth-first search, and each node below a start is
at one place in them. -/
structure Explores (g : Digraph α) (starts : List α) (trees : List (Rose α)) : Prop where
  search : g.DepthFirst ∅ starts trees
  once : (Rose.values trees).Nodup
  reached : ∀ a, a ∈ Rose.values trees ↔ ∃ s ∈ starts, Relation.ReflTransGen g.Leads s a

theorem DepthFirst.explores (proper : g.IsProper) {starts : List α} {trees : List (Rose α)}
    (search : g.DepthFirst ∅ starts trees) : g.Explores starts trees where
  search := search
  once := search.values_new.1
  reached := search.mem_values_iff proper fun _ _ c _ => Set.notMem_empty c

/-- No node is below two roots. -/
def RootsApart (g : Digraph α) : Prop :=
  ∀ r ∈ g.roots, ∀ r' ∈ g.roots, ∀ a,
    Relation.ReflTransGen g.Leads r a → Relation.ReflTransGen g.Leads r' a → r = r'

/-- Whether a node is below two roots shows in the trees below the roots. -/
theorem rootsApart_iff (proper : g.IsProper) :
    g.RootsApart ↔ (g.roots.flatMap fun r => Rose.values [g.treeFrom r]).Nodup := by
  have explores (r : α) := (depthFirst_treeFrom proper r).explores proper
  have mem_values (r a : α) : a ∈ Rose.values [g.treeFrom r] ↔ Relation.ReflTransGen g.Leads r a := by
    simpa using (explores r).reached a
  have distinct : g.roots.Nodup := proper.nodup.filter _
  rw [List.nodup_flatMap, and_iff_right fun r _ => (explores r).once]
  constructor
  · intro apart
    refine distinct.imp_of_mem fun mem mem' different a below below' => different ?_
    exact apart _ mem _ mem' a ((mem_values _ a).mp below) ((mem_values _ a).mp below')
  · intro disjoint r mem r' mem' a path path'
    by_contra different
    have symmetric : Std.Symm (Function.onFun List.Disjoint fun r => Rose.values [g.treeFrom r]) :=
      ⟨fun _ _ => List.Disjoint.symm⟩
    exact disjoint.forall mem mem' different ((mem_values r a).mpr path) ((mem_values r' a).mpr path')

/-- If no node is below two roots, the search from all roots makes the trees of the searches from each. -/
theorem forest_eq_map_treeFrom (proper : g.IsProper) (apart : g.RootsApart) : g.forest = g.roots.map g.treeFrom := by
  refine (depthFirst_forest proper).eq_map_treeFrom proper ?_ fun _ _ c _ => Set.notMem_empty c
  have distinct : g.roots.Nodup := proper.nodup.filter _
  exact distinct.imp_of_mem fun mem mem' different a path path' => different (apart _ mem _ mem' a path path')

end Digraph

theorem Rose.levelsAll_eq_flatMap {α : Type} (depth : Nat) (trees : List (Rose α)) :
    levelsAll depth trees = trees.flatMap (levels depth) := by
  induction trees with
  | nil => rfl
  | cons t trees ih => rw [levelsAll, ih, List.flatMap_cons]

namespace Nesting

/-- In a graph that a scan makes no entity is below two roots. -/
theorem rootsApart_scan {c : Collector} {package : String} {s : Store} (sound : s.Sound) {scan : Scan}
    (found : ((standard package c).scan s).value = .ok scan) : scan.graph.IsProper ∧ scan.graph.RootsApart := by
  obtain ⟨entities, -, holds, forest⟩ := exists_forest_of_scan sound found
  exact ⟨holds.isProper, fun r mem r' mem' a path path' => holds.root_unique forest mem mem' path path'⟩

end Nesting

namespace EntityGraph

/-- Going through several entities adds the lines of the trees that a search makes of them. -/
theorem foldl_addLines (g : EntityGraph) (fuel depth : Nat) (lines : List String) (visited starts : List Placed) :
    starts.foldl (g.addLines fuel depth) (lines, visited) =
      (lines ++ (Rose.levelsAll depth (g.explore fuel visited starts).1).map (fun (d, p) => hierarchyLine d p),
        (g.explore fuel visited starts).2) := by
  induction fuel generalizing depth lines visited starts with
  | zero =>
    induction starts with
    | nil => simp [Digraph.explore, Rose.levelsAll]
    | cons p starts others => exact others
  | succ fuel ih =>
    induction starts generalizing lines visited with
    | nil => simp [Digraph.explore_nil, Rose.levelsAll]
    | cons p starts others =>
      rw [List.foldl_cons, addLines]
      by_cases met : p ∈ visited
      · rw [if_pos met, others, Digraph.explore_cons_of_mem met]
      · rw [if_neg met, ih, others, Digraph.explore_cons met]
        simp [Rose.levelsAll, Rose.levels]

/-- The hierarchy is written along the forest below the roots. -/
theorem hierarchy_eq (g : EntityGraph) : g.hierarchy =
    "\n".intercalate ((Rose.levelsAll 0 g.forest).map fun (depth, p) => hierarchyLine depth p) := by
  rw [hierarchy, foldl_addLines, List.nil_append]
  rfl

open Generate

theorem toList_hierarchyLine (depth : Nat) (p : Placed) : (hierarchyLine depth p).toList =
    (if depth = 0 then ['•', ' '] else List.replicate (2 * depth) ' ' ++ ['↳', ' ']) ++ p.decl.name.toList := by
  have blanks : (String.join (List.replicate depth "  ")).toList = List.replicate (2 * depth) ' ' :=
    Block.toList_indent depth
  rw [hierarchyLine, String.toList_append]
  split <;> simp [blanks]

/-- The hierarchy tells its lines, if there are any and the names of the entities have no line ends. -/
theorem pieces_hierarchy {g : EntityGraph} (proper : g.IsProper) (rooted : g.roots ≠ [])
    (lineless : ∀ p ∈ g.nodes, '\n' ∉ p.decl.name.toList) :
    Text.pieces '\n' g.hierarchy = (Rose.levelsAll 0 g.forest).map fun (depth, p) => hierarchyLine depth p := by
  have explores := (Digraph.depthFirst_forest proper).explores proper
  have values : (Rose.levelsAll 0 g.forest).map (·.2) = Rose.values g.forest := rfl
  have among {p : Placed} (mem : p ∈ Rose.values g.forest) : p ∈ g.nodes := by
    obtain ⟨r, root, path⟩ := (explores.reached p).mp mem
    induction path with
    | refl => exact (List.mem_filter.mp root).1
    | tail _ arc => exact proper.mem_nodes_of_mem_successors (proper.leads_iff.mp arc)
  rw [hierarchy_eq]
  refine Text.pieces_intercalate rfl ?_ fun line mem => ?_
  · obtain ⟨r, root⟩ := List.exists_mem_of_ne_nil _ rooted
    have entered := (explores.reached r).mpr ⟨r, root, .refl⟩
    rintro empty
    rw [← values, List.map_eq_nil_iff.mp empty] at entered
    cases entered
  · obtain ⟨⟨depth, p⟩, row, rfl⟩ := List.mem_map.mp mem
    have name := lineless p (among (values ▸ List.mem_map_of_mem row))
    rw [toList_hierarchyLine]
    split <;> simp [name]

/-- The hierarchy has one line for each entity below a root, which tells the depth by its blanks and names the entity;
and the file of a root has one class block for each entity below that root, and one line that opens a class for each
block, in the order of a depth-first search. If no entity is below two roots, as in every graph that a scan makes, the
class blocks root by root are those of the lines of the hierarchy, with their depths. -/
theorem traversals_agree (plan : Plan) (columnsOf : Placed → List String) {g : EntityGraph} (proper : g.IsProper) :
    g.hierarchy = "\n".intercalate ((Rose.levelsAll 0 g.forest).map fun (depth, p) => hierarchyLine depth p) ∧
      (∀ depth p, (hierarchyLine depth p).toList =
        (if depth = 0 then ['•', ' '] else List.replicate (2 * depth) ' ' ++ ['↳', ' ']) ++ p.decl.name.toList) ∧
      (g.roots ≠ [] → (∀ p ∈ g.nodes, '\n' ∉ p.decl.name.toList) →
        Text.pieces '\n' g.hierarchy = (Rose.levelsAll 0 g.forest).map fun (depth, p) => hierarchyLine depth p) ∧
      g.Explores g.roots g.forest ∧
      (∀ r ∈ g.roots,
        plan.entityText g columnsOf r =
          textOf (header plan.date ++ preamble r.decl.head.package ++ (plan.block g columnsOf r).lines 0) ∧
        (header plan.date ++ preamble r.decl.head.package ++ (plan.block g columnsOf r).lines 0).filter
            Block.opensClass =
          ((g.treeFrom r).levels 0).map (fun (depth, p) => Block.classLine depth (plan.naming p.decl.name)) ∧
        (plan.block g columnsOf r).heads 0 =
          ((g.treeFrom r).levels 0).map (fun (depth, p) => (depth, .ofEntity plan.naming columnsOf p)) ∧
        (((plan.block g columnsOf r).heads 0).flatMap fun (depth, h) => h.lines depth).Sublist
          ((plan.block g columnsOf r).lines 0) ∧
        g.Explores [r] [g.treeFrom r]) ∧
      (g.RootsApart →
        (g.roots.flatMap fun r => (g.treeFrom r).levels 0) = Rose.levelsAll 0 g.forest ∧
        (g.roots.flatMap fun r => (plan.block g columnsOf r).heads 0) =
          (Rose.levelsAll 0 g.forest).map fun (depth, p) => (depth, .ofEntity plan.naming columnsOf p)) ∧
      ∀ c package s scan, Store.Sound s → ((Nesting.standard package c).scan s).value = .ok scan →
        scan.graph.IsProper ∧ scan.graph.RootsApart := by
  refine ⟨g.hierarchy_eq, toList_hierarchyLine, pieces_hierarchy proper,
    (Digraph.depthFirst_forest proper).explores proper, fun r _ => ⟨plan.entityText_eq columnsOf r,
      plan.filter_opensClass columnsOf r, Block.heads_ofTree .., Block.headLines_sublist 0 _, ?_⟩, ?_,
    fun _ _ _ _ sound found => Nesting.rootsApart_scan sound found⟩
  · exact (Digraph.depthFirst_treeFrom proper r).explores proper
  · intro apart
    have rows : (g.roots.flatMap fun r => (g.treeFrom r).levels 0) = Rose.levelsAll 0 g.forest := by
      rw [Digraph.forest_eq_map_treeFrom proper apart, Rose.levelsAll_eq_flatMap, List.flatMap_map]
    refine ⟨rows, ?_⟩
    rw [← rows, List.map_flatMap]
    exact congrArg g.roots.flatMap (funext fun r => Block.heads_ofTree ..)

/-- An entity that is called `name`, found on its own. -/
def namedEntity (name : String) : Placed where
  file := name ++ ".java"
  trail := [0]
  decl := ⟨⟨name, .classKind, .plain, none, [⟨entityMarker, []⟩], [], none, []⟩, []⟩

/-- Two roots `A` and `E`. Below `A` both `B` and `C` lead to `D`, which leads back to `B`, and `C` leads to itself. -/
def tangledGraph : EntityGraph :=
  .build [namedEntity "A", namedEntity "E"]
    [(namedEntity "A", namedEntity "B"), (namedEntity "A", namedEntity "C"), (namedEntity "C", namedEntity "C"),
      (namedEntity "B", namedEntity "D"), (namedEntity "C", namedEntity "D"), (namedEntity "D", namedEntity "B"),
      (namedEntity "E", namedEntity "F")]

theorem isProper_tangledGraph : tangledGraph.IsProper := Digraph.isProper_build _ _

theorem traversals_agree_tangled :
    let plan : Plan := ⟨.here, id, "2024-01-01"⟩
    let columnsOf (p : Placed) := [p.decl.name]
    let scan := (Nesting.standard "" (.standard .here .java17)).scan Nesting.nestedSources
    tangledGraph.IsProper ∧ tangledGraph.RootsApart ∧ tangledGraph.Explores tangledGraph.roots tangledGraph.forest ∧
      (tangledGraph.roots.flatMap fun r => (plan.block tangledGraph columnsOf r).heads 0) =
        (Rose.levelsAll 0 tangledGraph.forest).map (fun (depth, p) => (depth, .ofEntity id columnsOf p)) ∧
      (Rose.levelsAll 0 tangledGraph.forest).map (fun (depth, p) => (depth, p.decl.name)) =
        [(0, "A"), (1, "B"), (2, "D"), (1, "C"), (0, "E"), (1, "F")] ∧
      Nesting.nestedSources.Sound ∧ ∃ made, scan.value = .ok made ∧ made.graph.RootsApart := by
  intro plan columnsOf scan
  obtain ⟨-, -, -, explores, -, agree, scans⟩ := traversals_agree plan columnsOf isProper_tangledGraph
  have apart : tangledGraph.RootsApart := (Digraph.rootsApart_iff isProper_tangledGraph).mpr (by decide +kernel)
  have succeeds : scan.value.toOption.isSome := by decide +kernel
  cases found : scan.value with
  | error f => simp [found, Except.toOption] at succeeds
  | ok made =>
    obtain ⟨-, apart'⟩ := scans _ _ _ made Nesting.sound_nestedSources found
    exact ⟨isProper_tangledGraph, apart, explores, (agree apart).2, by decide +kernel, Nesting.sound_nestedSources,
      made, rfl, apart'⟩

end EntityGraph

end EntityAtlas
