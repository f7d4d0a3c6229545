import EntityAtlas.Proofs.Exploring

/-!
# Depth-first search in a forest

A depth-first search passes over the nodes that it has visited. In a forest there are none to pass over: the search
gives every node below its starts once, and the tree below a node has for its branches the trees below the node's kids.
A node below another one is therefore found by one row of child numbers.
-/

namespace EntityAtlas.Digraph

variable {α : Type} [DecidableEq α] {g : Digraph α}

variable {kids : α → List α} {depth : α → Nat} {parents : List α}

namespace Holds

omit [DecidableEq α] in
theorem isProper (holds : g.Holds kids parents) : g.IsProper where
  nodup := holds.nodup
  ends e arc := by
    obtain ⟨p, parent, arc⟩ := List.mem_flatMap.mp (holds.arcs ▸ arc)
    obtain ⟨k, kid, rfl⟩ := List.mem_map.mp arc
    exact ⟨(holds.mem p).mpr (.inl parent), (holds.mem k).mpr (.inr ⟨p, parent, kid⟩)⟩

/-- No node is below two kids of one parent. -/
theorem kids_apart (holds : g.Holds kids parents) (forest : IsForest kids depth parents) {p : α} (mem : p ∈ parents) :
    (kids p).Pairwise fun k k' =>
      ∀ a, Relation.ReflTransGen g.Leads k a → ¬ Relation.ReflTransGen g.Leads k' a := by
  refine (forest.distinct p mem).imp_of_mem fun kid kid' different a path path' => ?_
  exact different (holds.kid_unique forest mem kid kid' path path')

/-- The tree below a node has the trees below its kids for branches. -/
theorem treeFrom_eq (holds : g.Holds kids parents) (forest : IsForest kids depth parents) {a : α} (mem : a ∈ parents) :
    g.treeFrom a = .node a ((kids a).map g.treeFrom) := by
  obtain ⟨branches, tree, below⟩ := exists_branches holds.isProper a
  rw [holds.successors_eq forest.nodup mem] at below
  rw [tree, below.eq_map_treeFrom holds.isProper (holds.kids_apart forest mem) fun k kid c path met => ?_]
  have same : c = a := by simpa using met
  exact holds.not_below_kid forest mem kid (same ▸ path)

end Holds

/-- The node that a row of child numbers leads to. -/
def descend? (g : Digraph α) (a : α) : List Nat → Option α
  | [] => some a
  | i :: row => (g.successors a)[i]?.bind fun b => g.descend? b row

theorem descend?_append (a : α) (row more : List Nat) :
    g.descend? a (row ++ more) = (g.descend? a row).bind fun b => g.descend? b more := by
  induction row generalizing a with
  | nil => rfl
  | cons i row ih =>
    rw [List.cons_append, descend?, descend?, Option.bind_assoc]
    exact Option.bind_congr fun b _ => ih b

namespace Holds

/-- A row that is not empty leads on from a kid. -/
theorem exists_kid (holds : g.Holds kids parents) (forest : IsForest kids depth parents) {a b : α} {i : Nat}
    {row : List Nat} (mem : a ∈ parents) (leads : g.descend? a (i :: row) = some b) :
    ∃ k ∈ kids a, (kids a)[i]? = some k ∧ k ∈ parents ∧ g.descend? k row = some b := by
  obtain ⟨k, child, leads⟩ := Option.bind_eq_some_iff.mp leads
  rw [holds.successors_eq forest.nodup mem] at child
  have kid := List.mem_of_getElem? child
  exact ⟨k, kid, child, forest.closed a mem k kid, leads⟩

/-- A row leads to a node below. -/
theorem below_of_descend? (holds : g.Holds kids parents) (forest : IsForest kids depth parents) {a b : α}
    {row : List Nat} (mem : a ∈ parents) (leads : g.descend? a row = some b) : Relation.ReflTransGen g.Leads a b := by
  induction row generalizing a with
  | nil => exact Option.some.inj leads ▸ .refl
  | cons i row ih =>
    obtain ⟨k, kid, -, among, leads⟩ := holds.exists_kid forest mem leads
    exact (holds.below_iff forest mem b).mpr (.inr ⟨k, kid, ih among leads⟩)

theorem mem_of_below (holds : g.Holds kids parents) (forest : IsForest kids depth parents) {a b : α} (mem : a ∈ parents)
    (path : Relation.ReflTransGen g.Leads a b) : b ∈ parents := by
  rcases Relation.ReflTransGen.cases_tail path with rfl | ⟨c, -, arc⟩
  · exact mem
  · obtain ⟨parent, kid⟩ := (holds.leads_iff forest c b).mp arc
    exact forest.closed c parent b kid

/-- An arc makes a row longer by one number. -/
theorem descend?_kid (holds : g.Holds kids parents) (forest : IsForest kids depth parents) {a b c : α} {row : List Nat}
    (leads : g.descend? a row = some b) (arc : g.Leads b c) : ∃ i, g.descend? a (row ++ [i]) = some c := by
  obtain ⟨parent, kid⟩ := (holds.leads_iff forest b c).mp arc
  obtain ⟨i, child⟩ := List.mem_iff_getElem?.mp kid
  refine ⟨i, ?_⟩
  simp [descend?_append, leads, descend?, holds.successors_eq forest.nodup parent, child]

/-- Every node below another one is at the end of a row. -/
theorem exists_descend? (holds : g.Holds kids parents) (forest : IsForest kids depth parents) {a b : α}
    (path : Relation.ReflTransGen g.Leads a b) : ∃ row, g.descend? a row = some b := by
  induction path with
  | refl => exact ⟨[], rfl⟩
  | tail _ arc ih =>
    obtain ⟨row, leads⟩ := ih
    obtain ⟨i, leads⟩ := holds.descend?_kid forest leads arc
    exact ⟨row ++ [i], leads⟩

/-- Two rows to one node are the same. -/
theorem descend?_inj (holds : g.Holds kids parents) (forest : IsForest kids depth parents) {a b : α}
    {row row' : List Nat} (mem : a ∈ parents) (leads : g.descend? a row = some b)
    (leads' : g.descend? a row' = some b) : row = row' := by
  induction row generalizing a row' with
  | nil =>
    cases row' with
    | nil => rfl
    | cons i row' =>
      obtain ⟨k, kid, -, among, leads'⟩ := holds.exists_kid forest mem leads'
      rw [← Option.some.inj leads] at leads'
      exact absurd (holds.below_of_descend? forest among leads') (holds.not_below_kid forest mem kid)
  | cons i row ih =>
    obtain ⟨k, kid, child, among, leads⟩ := holds.exists_kid forest mem leads
    cases row' with
    | nil =>
      rw [← Option.some.inj leads'] at leads
      exact absurd (holds.below_of_descend? forest among leads) (holds.not_below_kid forest mem kid)
    | cons j row' =>
      obtain ⟨k', kid', child', among', leads'⟩ := holds.exists_kid forest mem leads'
      have same : k' = k := holds.kid_unique forest mem kid' kid (holds.below_of_descend? forest among' leads')
        (holds.below_of_descend? forest among leads)
      rw [same] at child' leads'
      obtain ⟨short, -⟩ := List.getElem?_eq_some_iff.mp child
      rw [(List.getElem?_inj short (forest.distinct a mem)).mp (child.trans child'.symm), ih among leads leads']

end Holds

end EntityAtlas.Digraph
