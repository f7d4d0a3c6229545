import EntityAtlas.Proofs.FamilyGraph
import Mathlib.Data.Set.Insert

/-!
# Depth-first search

A search takes its starts in order. It passes over a node that it has visited, and enters any other one: it notes the
node, searches the node's successors, and goes on. In a graph of whatever shape this comes to an end, for every step
down enters a node for the first time. The trees that it makes have every node below the starts in just one place, and
a tree does not depend on what was visited before, unless a node below its foot was.
-/

namespace EntityAtlas

namespace Rose

variable {α : Type}

/-- Induction over trees, with the branches of the first one before the others. -/
theorem list_induction {motive : List (Rose α) → Prop} (nil : motive [])
    (node : ∀ a branches trees, motive branches → motive trees → motive (.node a branches :: trees)) :
    ∀ trees, motive trees
  | [] => nil
  | .node a branches :: trees =>
    node a branches trees (list_induction nil node branches) (list_induction nil node trees)

/-- The values of several trees, a value before those of its branches. -/
def values (trees : List (Rose α)) : List α := (levelsAll 0 trees).map (·.2)

theorem map_snd_levelsAll (depth : Nat) (trees : List (Rose α)) :
    (levelsAll depth trees).map (·.2) = values trees := by
  suffices same : ∀ depth depth', (levelsAll depth trees).map (·.2) = (levelsAll depth' trees).map (·.2) from same _ _
  induction trees using list_induction with
  | nil => intro _ _; rfl
  | node a branches trees inside others =>
    intro depth depth'
    simp only [levelsAll, levels, List.map_append, List.map_cons]
    rw [inside (depth + 1) (depth' + 1), others depth depth']

@[simp] theorem values_nil : values ([] : List (Rose α)) = [] := rfl

@[simp] theorem values_cons (a : α) (branches trees : List (Rose α)) :
    values (.node a branches :: trees) = a :: (values branches ++ values trees) := by
  rw [values, levelsAll, levels, List.map_append, List.map_cons, map_snd_levelsAll, map_snd_levelsAll]
  rfl

end Rose

namespace Digraph

variable {α : Type} [DecidableEq α] {g : Digraph α}

/-- Every node is there once, and arcs join nodes. -/
structure IsProper (g : Digraph α) : Prop where
  nodup : g.nodes.Nodup
  ends : ∀ e ∈ g.arcs, e.1 ∈ g.nodes ∧ e.2 ∈ g.nodes

theorem IsProper.addNode (proper : g.IsProper) (a : α) : (g.addNode a).IsProper where
  nodup := nodup_addNode proper.nodup a
  ends e arc := by
    obtain ⟨start, stop⟩ := proper.ends e (arcs_addNode g a ▸ arc)
    exact ⟨mem_addNode.mpr (.inl start), mem_addNode.mpr (.inl stop)⟩

theorem IsProper.addArc (proper : g.IsProper) (a b : α) : (g.addArc a b).IsProper := by
  have joined : ((g.addNode a).addNode b).IsProper := (proper.addNode a).addNode b
  unfold Digraph.addArc
  dsimp only
  split
  · exact joined
  · refine ⟨joined.nodup, fun e arc => ?_⟩
    rcases List.mem_append.mp arc with arc | arc
    · exact joined.ends e arc
    · rw [List.mem_singleton.mp arc]
      exact ⟨mem_addNode.mpr (.inl (mem_addNode.mpr (.inr rfl))), mem_addNode.mpr (.inr rfl)⟩

/-- Whatever nodes and arcs a graph is made of, it is proper. -/
theorem isProper_build (nodes : List α) (arcs : List (α × α)) : (build nodes arcs).IsProper := by
  have start : ∀ {g : Digraph α}, g.IsProper → (nodes.foldl Digraph.addNode g).IsProper := by
    induction nodes with
    | nil => exact id
    | cons a nodes ih => exact fun proper => ih (proper.addNode a)
  have joined : ∀ {g : Digraph α}, g.IsProper → (arcs.foldl (fun g e => g.addArc e.1 e.2) g).IsProper := by
    induction arcs with
    | nil => exact id
    | cons e arcs ih => exact fun proper => ih (proper.addArc e.1 e.2)
  exact joined (start ⟨List.nodup_nil, by simp [empty]⟩)

theorem mem_successors {a b : α} : b ∈ g.successors a ↔ (a, b) ∈ g.arcs := by
  simp [successors]

theorem IsProper.leads_iff (proper : g.IsProper) {a b : α} : g.Leads a b ↔ b ∈ g.successors a := by
  rw [Leads, mem_edges, mem_successors]
  exact and_iff_right_of_imp fun arc => (proper.ends _ arc).1

theorem IsProper.mem_nodes_of_mem_successors (proper : g.IsProper) {a b : α} (next : b ∈ g.successors a) :
    b ∈ g.nodes :=
  (proper.ends _ (mem_successors.mp next)).2

/-- A depth-first search that has visited some nodes goes through its starts and makes trees. -/
inductive DepthFirst (g : Digraph α) : (visited : Set α) → (starts : List α) → (trees : List (Rose α)) → Prop where
  | done {visited : Set α} : DepthFirst g visited [] []
  | pass {visited : Set α} {a : α} {starts : List α} {trees : List (Rose α)} (met : a ∈ visited)
    (rest : DepthFirst g visited starts trees) : DepthFirst g visited (a :: starts) trees
  | enter {visited : Set α} {a : α} {starts : List α} {branches trees : List (Rose α)} (new : a ∉ visited)
    (below : DepthFirst g (insert a visited) (g.successors a) branches)
    (rest : DepthFirst g (insert a visited ∪ {b | b ∈ Rose.values branches}) starts trees) :
    DepthFirst g visited (a :: starts) (.node a branches :: trees)

namespace DepthFirst

variable {visited : Set α} {starts : List α} {trees : List (Rose α)}

/-- The trees are told by the starts. -/
theorem unique (search : g.DepthFirst visited starts trees) {trees' : List (Rose α)}
    (search' : g.DepthFirst visited starts trees') : trees = trees' := by
  induction search generalizing trees' with
  | done =>
    cases search'
    rfl
  | pass met _ ih =>
    cases search' with
    | pass _ rest' => exact ih rest'
    | enter new' => exact absurd met new'
  | enter new _ _ ihBelow ihRest =>
    cases search' with
    | pass met' => exact absurd met' new
    | enter _ below' rest' =>
      obtain rfl := ihBelow below'
      rw [ihRest rest']

/-- A node that is entered was not visited, and it is entered once. -/
theorem values_new (search : g.DepthFirst visited starts trees) :
    (Rose.values trees).Nodup ∧ ∀ c ∈ Rose.values trees, c ∉ visited := by
  induction search with
  | done => exact ⟨List.nodup_nil, by simp⟩
  | pass _ _ ih => exact ih
  | @enter visited a _ branches trees new _ _ ihBelow ihRest =>
    obtain ⟨distinct, unvisited⟩ := ihBelow
    obtain ⟨distinct', unvisited'⟩ := ihRest
    rw [Rose.values_cons]
    refine ⟨List.nodup_cons.mpr ⟨fun mem => ?_, List.nodup_append.mpr ⟨distinct, distinct', ?_⟩⟩, fun c mem met => ?_⟩
    · rcases List.mem_append.mp mem with mem | mem
      · exact unvisited a mem (Set.mem_insert a visited)
      · exact unvisited' a mem (.inl (Set.mem_insert a visited))
    · rintro c mem _ mem' rfl
      exact unvisited' c mem' (.inr mem)
    · rcases List.mem_cons.mp mem with rfl | mem
      · exact new met
      rcases List.mem_append.mp mem with mem | mem
      · exact unvisited c mem (Set.mem_insert_of_mem a met)
      · exact unvisited' c mem (.inl (Set.mem_insert_of_mem a met))

/-- What is entered is below a start. -/
theorem exists_start (proper : g.IsProper) (search : g.DepthFirst visited starts trees) :
    ∀ c ∈ Rose.values trees, ∃ a ∈ starts, Relation.ReflTransGen g.Leads a c := by
  induction search with
  | done => simp
  | pass _ _ ih =>
    intro c mem
    obtain ⟨a, start, path⟩ := ih c mem
    exact ⟨a, List.mem_cons_of_mem _ start, path⟩
  | @enter _ a _ _ _ _ _ _ ihBelow ihRest =>
    intro c mem
    rw [Rose.values_cons] at mem
    rcases List.mem_cons.mp mem with rfl | mem
    · exact ⟨c, List.mem_cons_self, .refl⟩
    rcases List.mem_append.mp mem with mem | mem
    · obtain ⟨b, next, path⟩ := ihBelow c mem
      exact ⟨a, List.mem_cons_self, .head (proper.leads_iff.mpr next) path⟩
    · obtain ⟨b, start, path⟩ := ihRest c mem
      exact ⟨b, List.mem_cons_of_mem _ start, path⟩

/-- No start is left out, nor a successor of a node that is entered. -/
theorem exhausts (search : g.DepthFirst visited starts trees) :
    (∀ a ∈ starts, a ∈ visited ∨ a ∈ Rose.values trees) ∧
      ∀ c ∈ Rose.values trees, ∀ b ∈ g.successors c, b ∈ visited ∨ b ∈ Rose.values trees := by
  induction search with
  | done => simp
  | pass met _ ih => exact ⟨List.forall_mem_cons.mpr ⟨.inl met, ih.1⟩, ih.2⟩
  | @enter visited a starts branches trees _ _ _ ihBelow ihRest =>
    rw [Rose.values_cons]
    have further {c : α} (met : c ∈ insert a visited ∨ c ∈ Rose.values branches) :
        c ∈ visited ∨ c ∈ a :: (Rose.values branches ++ Rose.values trees) := by
      rcases met with (rfl | met) | mem
      · exact .inr List.mem_cons_self
      · exact .inl met
      · exact .inr (List.mem_cons_of_mem _ (List.mem_append_left _ mem))
    have later {c : α} (met : c ∈ insert a visited ∪ {b | b ∈ Rose.values branches} ∨ c ∈ Rose.values trees) :
        c ∈ visited ∨ c ∈ a :: (Rose.values branches ++ Rose.values trees) :=
      met.elim further fun mem => .inr (List.mem_cons_of_mem _ (List.mem_append_right _ mem))
    refine ⟨List.forall_mem_cons.mpr ⟨.inr List.mem_cons_self, fun b mem => later (ihRest.1 b mem)⟩,
      fun c mem b next => ?_⟩
    rcases List.mem_cons.mp mem with rfl | mem
    · exact further (ihBelow.1 b next)
    rcases List.mem_append.mp mem with mem | mem
    · exact further (ihBelow.2 c mem b next)
    · exact later (ihRest.2 c mem b next)

/-- If nothing below the starts was visited before, the nodes that are entered are those below the starts. -/
theorem mem_values_iff (proper : g.IsProper) (search : g.DepthFirst visited starts trees)
    (new : ∀ a ∈ starts, ∀ c, Relation.ReflTransGen g.Leads a c → c ∉ visited) (c : α) :
    c ∈ Rose.values trees ↔ ∃ a ∈ starts, Relation.ReflTransGen g.Leads a c := by
  refine ⟨search.exists_start proper c, ?_⟩
  rintro ⟨a, start, path⟩
  -- along the path each node is entered, for the one before it is
  induction path with
  | refl => exact (search.exhausts.1 a start).resolve_left (new a start a .refl)
  | @tail b c above arc ih =>
    exact (search.exhausts.2 b ih c (proper.leads_iff.mp arc)).resolve_left (new a start c (above.tail arc))

/-- The trees depend on what was visited below the starts only. -/
theorem congr (proper : g.IsProper) (search : g.DepthFirst visited starts trees) {visited' : Set α}
    (same : ∀ a ∈ starts, ∀ c, Relation.ReflTransGen g.Leads a c → (c ∈ visited ↔ c ∈ visited')) :
    g.DepthFirst visited' starts trees := by
  induction search generalizing visited' with
  | done => exact .done
  | @pass _ a _ _ met _ ih =>
    obtain ⟨first, same⟩ := List.forall_mem_cons.mp same
    exact .pass ((first a .refl).mp met) (ih same)
  | @enter _ a _ _ _ new _ _ ihBelow ihRest =>
    obtain ⟨first, same⟩ := List.forall_mem_cons.mp same
    refine .enter (fun met => new ((first a .refl).mpr met)) (ihBelow fun b next c path => ?_)
      (ihRest fun b start c path => ?_)
    · exact or_congr_right (first c (.head (proper.leads_iff.mpr next) path))
    · exact or_congr_left (or_congr_right (same b start c path))

end DepthFirst

/-- What a search does at a start, given the trees so far and the nodes visited so far. -/
def visit (g : Digraph α) (fuel : Nat) (state : List (Rose α) × List α) (a : α) : List (Rose α) × List α :=
  if a ∈ state.2 then state
  else
    let below := g.explore fuel (a :: state.2) (g.successors a)
    (state.1 ++ [.node a below.1], below.2)

theorem explore_nil (fuel : Nat) (visited : List α) : g.explore fuel visited [] = ([], visited) := by
  cases fuel <;> rfl

theorem explore_succ (fuel : Nat) (visited starts : List α) :
    g.explore (fuel + 1) visited starts = starts.foldl (g.visit fuel) ([], visited) := rfl

/-- The trees so far are only added to. -/
theorem foldl_visit (fuel : Nat) (trees : List (Rose α)) (visited starts : List α) :
    starts.foldl (g.visit fuel) (trees, visited) =
      (trees ++ (g.explore (fuel + 1) visited starts).1, (g.explore (fuel + 1) visited starts).2) := by
  rw [explore_succ]
  induction starts generalizing trees visited with
  | nil => simp
  | cons a starts ih =>
    rw [List.foldl_cons, List.foldl_cons]
    by_cases met : a ∈ visited
    · have passed (trees : List (Rose α)) : g.visit fuel (trees, visited) a = (trees, visited) := if_pos met
      rw [passed, passed, ih]
    · have added (trees : List (Rose α)) : g.visit fuel (trees, visited) a =
          (trees ++ [.node a (g.explore fuel (a :: visited) (g.successors a)).1],
            (g.explore fuel (a :: visited) (g.successors a)).2) := if_neg met
      rw [added, added, ih, ih ([] ++ _)]
      simp

theorem explore_cons_of_mem {visited : List α} {a : α} (met : a ∈ visited) (fuel : Nat) (starts : List α) :
    g.explore (fuel + 1) visited (a :: starts) = g.explore (fuel + 1) visited starts := by
  rw [explore_succ, List.foldl_cons, visit, if_pos met]
  rfl

theorem explore_cons {visited : List α} {a : α} (new : a ∉ visited) (fuel : Nat) (starts : List α) :
    g.explore (fuel + 1) visited (a :: starts) =
      let below := g.explore fuel (a :: visited) (g.successors a)
      let others := g.explore (fuel + 1) below.2 starts
      (.node a below.1 :: others.1, others.2) := by
  rw [explore_succ, List.foldl_cons, visit, if_neg new, foldl_visit]
  rfl

/-- How many nodes are left to visit. -/
def left (g : Digraph α) (visited : List α) : Nat := (g.nodes.filter fun b => b ∉ visited).length

theorem left_cons_lt {visited : List α} {a : α} (mem : a ∈ g.nodes) (new : a ∉ visited) :
    g.left (a :: visited) < g.left visited := by
  have within : (g.nodes.filter fun b => b ∉ a :: visited) =
      (g.nodes.filter fun b => b ∉ visited).filter fun b => b ∉ a :: visited := by
    rw [List.filter_filter]
    refine List.filter_congr fun b _ => ?_
    rw [Bool.eq_iff_iff, Bool.and_eq_true, decide_eq_true_eq, decide_eq_true_eq]
    exact (and_iff_left_of_imp fun fresh met => fresh (List.mem_cons_of_mem _ met)).symm
  rw [left, left, within, List.length_filter_lt_length_iff_exists]
  exact ⟨a, List.mem_filter.mpr ⟨mem, by simpa using new⟩, by simp⟩

theorem left_le {visited visited' : List α} (more : ∀ c ∈ visited, c ∈ visited') :
    g.left visited' ≤ g.left visited := by
  rw [left, left]
  refine (List.monotone_filter_right g.nodes fun b fresh => ?_).length_le
  rw [decide_eq_true_eq] at fresh ⊢
  exact fun met => fresh (more b met)

/-- With more steps down than nodes are left, a search is not cut off. -/
theorem depthFirst_explore (proper : g.IsProper) {fuel : Nat} {visited starts : List α}
    (among : ∀ a ∈ starts, a ∈ g.nodes) (enough : g.left visited < fuel) :
    g.DepthFirst {c | c ∈ visited} starts (g.explore fuel visited starts).1 ∧
      ∀ c, c ∈ (g.explore fuel visited starts).2 ↔
        c ∈ visited ∨ c ∈ Rose.values (g.explore fuel visited starts).1 := by
  -- each step down takes one from the nodes that are left, and the starts beside it leave no more of them
  induction fuel generalizing visited starts with
  | zero => exact absurd enough (Nat.not_lt_zero _)
  | succ fuel ihFuel =>
    induction starts generalizing visited with
    | nil =>
      rw [explore_nil]
      exact ⟨.done, by simp⟩
    | cons a starts ih =>
      obtain ⟨mem, among⟩ := List.forall_mem_cons.mp among
      by_cases met : a ∈ visited
      · rw [explore_cons_of_mem met]
        obtain ⟨search, after⟩ := ih among enough
        exact ⟨.pass met search, after⟩
      · have fewer := left_cons_lt mem met
        have further : ∀ b ∈ g.successors a, b ∈ g.nodes := fun b next => proper.mem_nodes_of_mem_successors next
        have deeper : g.left (a :: visited) < fuel := by omega
        obtain ⟨below, between⟩ := ihFuel further deeper
        rw [explore_cons met]
        generalize g.explore fuel (a :: visited) (g.successors a) = inside at below between ⊢
        have more : g.left inside.2 ≤ g.left (a :: visited) := left_le fun c seen => (between c).mpr (.inl seen)
        obtain ⟨rest, after⟩ : _ ∧ _ := ih among (show g.left inside.2 < fuel + 1 by omega)
        dsimp only
        have inserted : {c | c ∈ a :: visited} = insert a {c | c ∈ visited} := by
          ext c
          simp
        have entered : {c | c ∈ inside.2} = insert a {c | c ∈ visited} ∪ {c | c ∈ Rose.values inside.1} := by
          ext c
          rw [← inserted]
          exact between c
        rw [inserted] at below
        rw [entered] at rest
        refine ⟨.enter met below rest, fun c => ?_⟩
        rw [after, between, Rose.values_cons, List.mem_cons, List.mem_cons, List.mem_append]
        tauto

theorem left_nil (g : Digraph α) : g.left [] = g.nodes.length := by
  simp [left]

/-- The forest below the roots comes from one search. -/
theorem depthFirst_forest (proper : g.IsProper) : g.DepthFirst ∅ g.roots g.forest := by
  have among : ∀ r ∈ g.roots, r ∈ g.nodes := fun r mem => (List.mem_filter.mp mem).1
  have enough : g.left [] < g.depthBound := by
    rw [left_nil]
    exact Nat.lt_succ_self _
  simpa [forest] using (depthFirst_explore proper among enough).1

/-- The branches of the tree below a node come from a search that has visited the node only. -/
theorem exists_branches (proper : g.IsProper) (a : α) :
    ∃ branches, g.treeFrom a = .node a branches ∧ g.DepthFirst (insert a ∅) (g.successors a) branches := by
  refine ⟨_, rfl, ?_⟩
  by_cases mem : a ∈ g.nodes
  · have fewer : g.left [a] < g.nodes.length := left_nil g ▸ left_cons_lt mem List.not_mem_nil
    have only : {c | c ∈ [a]} = insert a (∅ : Set α) := by
      ext c
      simp
    exact only ▸ (depthFirst_explore proper (fun b next => proper.mem_nodes_of_mem_successors next) fewer).1
  · have alone : g.successors a = [] :=
      List.eq_nil_iff_forall_not_mem.mpr fun b next => mem (proper.ends _ (mem_successors.mp next)).1
    rw [alone, explore_nil]
    exact .done

/-- The tree below a node comes from a search of its own. -/
theorem depthFirst_treeFrom (proper : g.IsProper) (a : α) : g.DepthFirst ∅ [a] [g.treeFrom a] := by
  obtain ⟨branches, tree, below⟩ := exists_branches proper a
  exact tree ▸ .enter (Set.notMem_empty a) below .done

/-- Starts with nothing in common get the trees that they would get alone. -/
theorem DepthFirst.eq_map_treeFrom (proper : g.IsProper) {visited : Set α} {starts : List α} {trees : List (Rose α)}
    (search : g.DepthFirst visited starts trees)
    (apart : starts.Pairwise fun a b => ∀ c, Relation.ReflTransGen g.Leads a c → ¬ Relation.ReflTransGen g.Leads b c)
    (new : ∀ a ∈ starts, ∀ c, Relation.ReflTransGen g.Leads a c → c ∉ visited) : trees = starts.map g.treeFrom := by
  induction search with
  | done => rfl
  | @pass _ a _ _ met => exact absurd met (new a List.mem_cons_self a .refl)
  | @enter visited a starts branches trees _ below rest _ ih =>
    obtain ⟨first, apart⟩ := List.pairwise_cons.mp apart
    obtain ⟨newBelow, new⟩ := List.forall_mem_cons.mp new
    -- nothing below this start was visited before it, so the search below it is the one from it alone
    have alone : g.DepthFirst ∅ [a] [.node a branches] := by
      refine .enter (Set.notMem_empty a) (below.congr proper fun b next c path => or_congr_right ?_) .done
      have unvisited := newBelow c (.head (proper.leads_iff.mpr next) path)
      simpa using unvisited
    have tree := alone.unique (depthFirst_treeFrom proper a)
    have others := ih apart fun b start c path => by
      rintro ((rfl | met) | mem)
      · exact first b start c .refl path
      · exact new b start c path met
      · obtain ⟨k, next, path'⟩ := below.exists_start proper c mem
        exact first b start c (.head (proper.leads_iff.mpr next) path') path
    rw [List.map_cons, others, (List.cons.inj tree).1]

end Digraph

end EntityAtlas
