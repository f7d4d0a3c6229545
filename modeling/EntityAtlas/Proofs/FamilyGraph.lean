import EntityAtlas.Graph.Digraph
import Mathlib.Data.List.Nodup
import Mathlib.Logic.Relation

/-!
# Graphs of families

A graph that is made family by family: a parent is added with arcs to its kids, who may be there already and who may
come up as parents later on. In the end the nodes are those that came up, the arcs are those of the families, and the
nodes that are nobody's kid stand in the order in which they came up. If nobody has two parents and kids are further
down than their parents, the graph is a forest.
-/

namespace EntityAtlas.Digraph

variable {α : Type} [DecidableEq α]

theorem mem_addNode {g : Digraph α} {a b : α} : b ∈ (g.addNode a).nodes ↔ b ∈ g.nodes ∨ b = a := by
  unfold addNode
  split
  · rename_i here
    exact ⟨.inl, fun mem => mem.elim id fun same => same ▸ here⟩
  · simp

theorem nodup_addNode {g : Digraph α} (nodup : g.nodes.Nodup) (a : α) : (g.addNode a).nodes.Nodup := by
  unfold addNode
  split
  · exact nodup
  · rename_i new
    refine List.nodup_append.mpr ⟨nodup, List.nodup_singleton a, fun b mem b' mem' same => ?_⟩
    rw [List.mem_singleton.mp mem'] at same
    exact new (same ▸ mem)

theorem arcs_addNode (g : Digraph α) (a : α) : (g.addNode a).arcs = g.arcs := by
  unfold addNode
  split <;> rfl

theorem addNode_of_mem {g : Digraph α} {a : α} (mem : a ∈ g.nodes) : g.addNode a = g := if_pos mem

theorem filter_addNode {g : Digraph α} {a : α} (R : α → Bool) :
    (g.addNode a).nodes.filter R = g.nodes.filter R ++ if a ∈ g.nodes then [] else [a].filter R := by
  unfold addNode
  split <;> simp

/-- A new arc between nodes is added as the last one. -/
theorem addArc_of_mem {g : Digraph α} {a b : α} (start : a ∈ g.nodes) (stop : b ∈ g.nodes) (new : (a, b) ∉ g.arcs) :
    g.addArc a b = ⟨g.nodes, g.arcs ++ [(a, b)]⟩ := by
  simp only [addArc, addNode_of_mem start, addNode_of_mem stop, if_neg new]

/-- Add a parent, and arcs to its kids. -/
def addFamily (g : Digraph α) (p : α) (kids : List α) : Digraph α :=
  kids.foldl (fun g k => (g.addNode k).addArc p k) (g.addNode p)

/-- A graph to which the families of some parents were added, one after another. -/
structure Holds (g : Digraph α) (kids : α → List α) (parents : List α) : Prop where
  mem : ∀ a, a ∈ g.nodes ↔ a ∈ parents ∨ ∃ p ∈ parents, a ∈ kids p
  nodup : g.nodes.Nodup
  arcs : g.arcs = parents.flatMap fun p => (kids p).map (p, ·)
  order : ∀ R : α → Bool, (∀ p ∈ parents, ∀ k ∈ kids p, R k = false) → g.nodes.filter R = parents.filter R

omit [DecidableEq α] in
theorem holds_empty (kids : α → List α) : Holds (empty : Digraph α) kids [] where
  mem := by simp [empty]
  nodup := List.nodup_nil
  arcs := rfl
  order := fun _ _ => rfl

/-- What adding arcs from a parent to kids adds to a graph. -/
theorem foldl_kids {p : α} {kids : List α} (distinct : kids.Nodup) {g : Digraph α} (here : p ∈ g.nodes)
    (nodup : g.nodes.Nodup) (new : ∀ k ∈ kids, (p, k) ∉ g.arcs) :
    let g' := kids.foldl (fun g k => (g.addNode k).addArc p k) g
    (∀ a, a ∈ g'.nodes ↔ a ∈ g.nodes ∨ a ∈ kids) ∧ g'.nodes.Nodup ∧ g'.arcs = g.arcs ++ kids.map (p, ·) ∧
      ∀ R : α → Bool, (∀ k ∈ kids, R k = false) → g'.nodes.filter R = g.nodes.filter R := by
  induction kids generalizing g with
  | nil => simpa using nodup
  | cons k kids ih =>
    obtain ⟨first, distinct⟩ := List.nodup_cons.mp distinct
    have added : (g.addNode k).addArc p k = ⟨(g.addNode k).nodes, g.arcs ++ [(p, k)]⟩ := by
      have := addArc_of_mem (mem_addNode.mpr (.inl here)) (mem_addNode.mpr (.inr rfl))
        (arcs_addNode g k ▸ new k List.mem_cons_self)
      rw [this, arcs_addNode]
    have next : ∀ k' ∈ kids, (p, k') ∉ g.arcs ++ [(p, k)] := by
      intro k' mem arc
      rcases List.mem_append.mp arc with arc | arc
      · exact new k' (List.mem_cons_of_mem _ mem) arc
      · simp only [List.mem_singleton, Prod.mk.injEq, true_and] at arc
        exact first (arc ▸ mem)
    obtain ⟨mem, nodup', arcs, order⟩ := ih distinct (g := ⟨(g.addNode k).nodes, g.arcs ++ [(p, k)]⟩)
      (mem_addNode.mpr (.inl here)) (nodup_addNode nodup k) next
    rw [← added] at mem nodup' arcs order
    refine ⟨fun a => ?_, nodup', ?_, fun R lacking => ?_⟩
    · rw [List.foldl_cons, mem, added, mem_addNode, List.mem_cons, or_assoc]
    · rw [List.foldl_cons, arcs, added]
      simp
    · rw [List.foldl_cons, order R fun k' mem => lacking k' (List.mem_cons_of_mem _ mem), added, filter_addNode]
      simp [lacking k List.mem_cons_self]

/-- Adding the family of a parent that has not come up keeps the graph what it should be. -/
theorem Holds.addFamily {g : Digraph α} {kids : α → List α} {parents : List α} (holds : g.Holds kids parents) {p : α}
    (new : p ∉ parents) (distinct : (kids p).Nodup) : (g.addFamily p (kids p)).Holds kids (parents ++ [p]) := by
  have start : ∀ k ∈ kids p, (p, k) ∉ (g.addNode p).arcs := by
    intro k _ arc
    rw [arcs_addNode, holds.arcs] at arc
    obtain ⟨q, mem, arc⟩ := List.mem_flatMap.mp arc
    obtain ⟨k', -, same⟩ := List.mem_map.mp arc
    exact new ((Prod.mk.inj same).1 ▸ mem)
  obtain ⟨mem, nodup, arcs, order⟩ :=
    foldl_kids distinct (mem_addNode.mpr (.inr rfl)) (nodup_addNode holds.nodup p) start
  refine ⟨fun a => ?_, nodup, ?_, fun R lacking => ?_⟩
  · rw [Digraph.addFamily, mem, mem_addNode, holds.mem]
    simp only [List.mem_append, List.mem_singleton, or_and_right, exists_or, exists_eq_left]
    rw [or_assoc (b := a = p), or_or_or_comm]
  · rw [Digraph.addFamily, arcs, arcs_addNode, holds.arcs]
    simp
  · have lackingBefore : ∀ q ∈ parents, ∀ k ∈ kids q, R k = false :=
      fun q mem => lacking q (List.mem_append_left _ mem)
    rw [Digraph.addFamily, order R (lacking p (by simp)), filter_addNode, holds.order R lackingBefore,
      List.filter_append]
    split
    · rename_i here
      rcases (holds.mem p).mp here with mem | ⟨q, mem, kid⟩
      · exact absurd mem new
      · simp [lackingBefore q mem p kid]
    · rfl

theorem Holds.foldl {kids : α → List α} (distinct : ∀ p, (kids p).Nodup) {parents : List α} {g : Digraph α}
    (holds : g.Holds kids parents) {more : List α} (nodup : (parents ++ more).Nodup) :
    (more.foldl (fun g p => g.addFamily p (kids p)) g).Holds kids (parents ++ more) := by
  induction more generalizing parents g with
  | nil => simpa using holds
  | cons p more ih =>
    have new : p ∉ parents := fun mem =>
      (List.nodup_append.mp nodup).2.2 p mem p List.mem_cons_self rfl
    have := ih (holds.addFamily new (distinct p)) (by simpa using nodup)
    simpa using this

/-- The parents and kids of a forest, nobody named twice: kids are parents themselves, perhaps of nobody, nobody has two
parents, and kids are further down. -/
structure IsForest (kids : α → List α) (depth : α → Nat) (parents : List α) : Prop where
  nodup : parents.Nodup
  distinct : ∀ p ∈ parents, (kids p).Nodup
  closed : ∀ p ∈ parents, ∀ k ∈ kids p, k ∈ parents
  unique : ∀ p ∈ parents, ∀ q ∈ parents, ∀ k, k ∈ kids p → k ∈ kids q → p = q
  deeper : ∀ p, ∀ k ∈ kids p, depth p < depth k

/-- Whether an arc leads from one node to another. -/
def Leads (g : Digraph α) (a b : α) : Prop := (a, b) ∈ g.edges

variable {g : Digraph α} {kids : α → List α} {depth : α → Nat} {parents : List α}

theorem mem_edges (a b : α) : (a, b) ∈ g.edges ↔ a ∈ g.nodes ∧ (a, b) ∈ g.arcs := by
  simp only [edges, List.mem_flatMap, List.mem_map, successors, List.mem_filter, Prod.mk.injEq]
  constructor
  · rintro ⟨c, mem, d, ⟨⟨c', d'⟩, ⟨arc, is⟩, rfl⟩, rfl, rfl⟩
    exact ⟨mem, by simpa using (decide_eq_true_eq.mp is) ▸ arc⟩
  · rintro ⟨mem, arc⟩
    exact ⟨a, mem, b, ⟨(a, b), ⟨arc, by simp⟩, rfl⟩, rfl, rfl⟩

namespace Holds

omit [DecidableEq α] in
theorem mem_nodes (holds : g.Holds kids parents) (forest : IsForest kids depth parents) (a : α) :
    a ∈ g.nodes ↔ a ∈ parents := by
  rw [holds.mem]
  constructor
  · rintro (mem | ⟨p, mem, kid⟩)
    · exact mem
    · exact forest.closed p mem a kid
  · exact .inl

theorem leads_iff (holds : g.Holds kids parents) (forest : IsForest kids depth parents) (a b : α) :
    g.Leads a b ↔ a ∈ parents ∧ b ∈ kids a := by
  rw [Leads, mem_edges, mem_nodes holds forest, holds.arcs]
  constructor
  · rintro ⟨mem, arc⟩
    obtain ⟨p, -, arc⟩ := List.mem_flatMap.mp arc
    obtain ⟨k, kid, same⟩ := List.mem_map.mp arc
    obtain ⟨rfl, rfl⟩ := Prod.mk.inj same
    exact ⟨mem, kid⟩
  · rintro ⟨mem, kid⟩
    exact ⟨mem, List.mem_flatMap.mpr ⟨a, mem, List.mem_map_of_mem kid⟩⟩

/-- The kids of a parent follow it in their order. -/
theorem successors_eq (holds : g.Holds kids parents) (nodup : parents.Nodup) {p : α} (mem : p ∈ parents) :
    g.successors p = kids p := by
  rw [successors, holds.arcs]
  clear holds
  induction parents with
  | nil => cases mem
  | cons q parents ih =>
    obtain ⟨first, nodup⟩ := List.nodup_cons.mp nodup
    have others : ∀ r, r ≠ p → ((kids r).map (r, ·)).filter (·.1 = p) = [] := by
      intro r different
      simp [different]
    rw [List.flatMap_cons, List.filter_append, List.map_append]
    rcases List.mem_cons.mp mem with rfl | mem
    · have rest : (parents.flatMap fun r => (kids r).map (r, ·)).filter (·.1 = p) = [] := by
        rw [List.filter_flatMap]
        exact List.flatMap_eq_nil_iff.mpr fun r mem => others r fun same => first (same ▸ mem)
      have own : ((kids p).map (p, ·)).filter (·.1 = p) = (kids p).map (p, ·) :=
        List.filter_eq_self.mpr fun e mem => by
          obtain ⟨k, -, rfl⟩ := List.mem_map.mp mem
          simp
      rw [rest, own]
      simp [Function.comp_def]
    · rw [others q fun same => first (same ▸ mem), ih nodup mem]
      rfl

/-- The roots are the parents that are nobody's kids, in the order in which they came up. -/
theorem roots_eq (holds : g.Holds kids parents) :
    g.roots = parents.filter fun a => parents.all fun p => a ∉ kids p := by
  have same : ∀ a, (g.arcs.all fun e => e.2 ≠ a) = parents.all fun p => a ∉ kids p := by
    intro a
    rw [holds.arcs, Bool.eq_iff_iff]
    simp only [List.all_eq_true, List.mem_flatMap, List.mem_map, decide_eq_true_eq]
    constructor
    · intro lacking p mem kid
      exact lacking (p, a) ⟨p, mem, a, kid, rfl⟩ rfl
    · rintro lacking e ⟨p, mem, k, kid, rfl⟩ rfl
      exact lacking p mem kid
  rw [roots, List.filter_congr fun a _ => same a]
  refine holds.order _ fun p mem k kid => ?_
  rw [List.all_eq_false]
  exact ⟨p, mem, by simpa using kid⟩

theorem mem_roots (holds : g.Holds kids parents) (a : α) :
    a ∈ g.roots ↔ a ∈ parents ∧ ∀ p ∈ parents, a ∉ kids p := by
  rw [roots_eq holds, List.mem_filter]
  simp

theorem depth_lt (holds : g.Holds kids parents) (forest : IsForest kids depth parents) {a b : α}
    (path : Relation.TransGen g.Leads a b) : depth a < depth b := by
  induction path with
  | single arc => exact forest.deeper _ _ ((leads_iff holds forest _ _).mp arc).2
  | tail _ arc ih => exact Nat.lt_trans ih (forest.deeper _ _ ((leads_iff holds forest _ _).mp arc).2)

/-- No node is below its own kids. -/
theorem not_below_kid (holds : g.Holds kids parents) (forest : IsForest kids depth parents) {p k : α}
    (mem : p ∈ parents) (kid : k ∈ kids p) : ¬ Relation.ReflTransGen g.Leads k p := fun path =>
  Nat.lt_irrefl _ (depth_lt holds forest (.head' ((leads_iff holds forest p k).mpr ⟨mem, kid⟩) path))

/-- What is below a node: the node, and what is below its kids. -/
theorem below_iff (holds : g.Holds kids parents) (forest : IsForest kids depth parents) {p : α} (mem : p ∈ parents)
    (a : α) : Relation.ReflTransGen g.Leads p a ↔ a = p ∨ ∃ k ∈ kids p, Relation.ReflTransGen g.Leads k a := by
  constructor
  · intro path
    rcases Relation.ReflTransGen.cases_head path with same | ⟨k, arc, path⟩
    · exact .inl same.symm
    · exact .inr ⟨k, ((leads_iff holds forest p k).mp arc).2, path⟩
  · rintro (rfl | ⟨k, kid, path⟩)
    · exact .refl
    · exact .head ((leads_iff holds forest p k).mpr ⟨mem, kid⟩) path

/-- Every node is below a root. -/
theorem exists_root (holds : g.Holds kids parents) (forest : IsForest kids depth parents) {a : α} (mem : a ∈ parents) :
    ∃ r ∈ g.roots, Relation.ReflTransGen g.Leads r a := by
  induction level : depth a using Nat.strongRecOn generalizing a with
  | _ level ih =>
    by_cases root : a ∈ g.roots
    · exact ⟨a, root, .refl⟩
    obtain ⟨p, parent, kid⟩ : ∃ p ∈ parents, a ∈ kids p := by
      simpa [mem_roots holds, mem] using root
    obtain ⟨r, isRoot, path⟩ := ih (depth p) (level ▸ forest.deeper p a kid) parent rfl
    exact ⟨r, isRoot, path.tail ((leads_iff holds forest p a).mpr ⟨parent, kid⟩)⟩

/-- Of two nodes above a third one, one is above the other. -/
theorem comparable (holds : g.Holds kids parents) (forest : IsForest kids depth parents) {a b c : α}
    (path : Relation.ReflTransGen g.Leads a c) (path' : Relation.ReflTransGen g.Leads b c) :
    Relation.ReflTransGen g.Leads a b ∨ Relation.ReflTransGen g.Leads b a := by
  induction path with
  | refl => exact .inr path'
  | @tail d c above arc ih =>
    rcases Relation.ReflTransGen.cases_tail path' with same | ⟨d', above', arc'⟩
    · exact .inl (same ▸ above.tail arc)
    · obtain ⟨parent, kid⟩ := (leads_iff holds forest d c).mp arc
      obtain ⟨parent', kid'⟩ := (leads_iff holds forest d' c).mp arc'
      exact ih (forest.unique d' parent' d parent c kid' kid ▸ above')

/-- No node is below two roots. -/
theorem root_unique (holds : g.Holds kids parents) (forest : IsForest kids depth parents) {a r r' : α}
    (isRoot : r ∈ g.roots) (isRoot' : r' ∈ g.roots) (path : Relation.ReflTransGen g.Leads r a)
    (path' : Relation.ReflTransGen g.Leads r' a) : r = r' := by
  have topmost {b c : α} (root : c ∈ g.roots) (path : Relation.ReflTransGen g.Leads b c) : c = b := by
    rcases Relation.ReflTransGen.cases_tail path with same | ⟨d, -, arc⟩
    · exact same
    · obtain ⟨parent, kid⟩ := (leads_iff holds forest d c).mp arc
      exact absurd kid (((mem_roots holds c).mp root).2 d parent)
  rcases comparable holds forest path path' with down | up
  · exact (topmost isRoot' down).symm
  · exact topmost isRoot up

/-- No node is below two kids of one parent. -/
theorem kid_unique (holds : g.Holds kids parents) (forest : IsForest kids depth parents) {p k k' a : α}
    (mem : p ∈ parents) (kid : k ∈ kids p) (kid' : k' ∈ kids p) (path : Relation.ReflTransGen g.Leads k a)
    (path' : Relation.ReflTransGen g.Leads k' a) : k = k' := by
  have beside {k k' : α} (kid : k ∈ kids p) (kid' : k' ∈ kids p) (path : Relation.ReflTransGen g.Leads k k') :
      k' = k := by
    rcases Relation.ReflTransGen.cases_tail path with same | ⟨d, above, arc⟩
    · exact same
    · obtain ⟨parent, isKid⟩ := (leads_iff holds forest d k').mp arc
      rw [forest.unique d parent p mem k' isKid kid'] at above
      exact absurd above (not_below_kid holds forest mem kid)
  rcases comparable holds forest path path' with down | up
  · exact (beside kid kid' down).symm
  · exact beside kid' kid up

end Holds

end EntityAtlas.Digraph
