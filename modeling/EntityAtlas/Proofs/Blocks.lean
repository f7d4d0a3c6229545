import EntityAtlas.Generate.Document
import EntityAtlas.Proofs.DepthFirst
import Mathlib.Data.Set.Function

/-!
# Class blocks and entities

In the file of a root entity the class blocks stand for the entities below the root, each for one of them: the blocks
directly inside the block of an entity are those of the entities directly inside it.
-/

namespace EntityAtlas.Generate

theorem constantsFrom_eq (seen columns : List String) :
    constantsFrom seen columns = ((columns.map fun f => (Naming.constant f, f)).filter fun c =>
      !seen.contains c.1).eraseDupsBy fun later first => later.1 == first.1 := by
  induction columns generalizing seen with
  | nil => rfl
  | cons f columns ih =>
    by_cases met : seen.contains (Naming.constant f) = true
    · rw [constantsFrom, if_pos met, ih, List.map_cons, List.filter_cons_of_neg (by simpa using met)]
    · have others (pairs : List (String × String)) :
          (pairs.filter fun c => !(Naming.constant f :: seen).contains c.1) =
            (pairs.filter fun c => !seen.contains c.1).filter fun c => (c.1 == Naming.constant f) = false := by
        rw [List.filter_filter]
        refine List.filter_congr fun c _ => ?_
        simp
      rw [constantsFrom, if_neg met, ih, List.map_cons, List.filter_cons_of_pos (by simpa using met),
        List.eraseDupsBy_cons, others]

/-- Of the pairs of constants and columns, each whose constant came up before is dropped. -/
theorem constants_eq (columns : List String) :
    constants columns =
      (columns.map fun f => (Naming.constant f, f)).eraseDupsBy fun later first => later.1 == first.1 := by
  rw [constants, constantsFrom_eq]
  simp

namespace Block

/-- The blocks directly inside a block. -/
def inner : Block → List Block
  | .node _ _ _ inner => inner

/-- The block that a row of numbers leads to. -/
def at? (b : Block) : List Nat → Option Block
  | [] => some b
  | i :: row => b.inner[i]?.bind fun c => c.at? row

theorem lines_infix_innerLines {b : Block} {bs : List Block} (mem : b ∈ bs) (depth : Nat) :
    b.lines depth <:+: innerLines depth bs := by
  induction bs with
  | nil => cases mem
  | cons b' bs ih =>
    rw [innerLines, ← List.cons_append]
    rcases List.mem_cons.mp mem with rfl | mem
    · exact ⟨[""], innerLines depth bs, rfl⟩
    · exact (ih mem).trans (List.suffix_append _ _).isInfix

/-- A block inside another one is written among its lines, further in by one level for each number of its row. -/
theorem lines_infix {b c : Block} {row : List Nat} (there : b.at? row = some c) (depth : Nat) :
    c.lines (depth + row.length) <:+: b.lines depth := by
  induction row generalizing b depth with
  | nil => exact Option.some.inj there ▸ List.infix_rfl
  | cons i row ih =>
    obtain ⟨name, entity, constants, inner⟩ := b
    obtain ⟨d, child, deeper⟩ := Option.bind_eq_some_iff.mp there
    have deeper := ih deeper (depth + 1)
    rw [Nat.add_right_comm, Nat.add_assoc] at deeper
    rw [lines]
    exact (deeper.trans (lines_infix_innerLines (List.mem_of_getElem? child) (depth + 1))).trans
      ((List.suffix_append _ _).isInfix.trans (List.prefix_append _ _).isInfix)

theorem ofTrees_eq_map (naming : String → String) (columnsOf : Placed → List String) (trees : List (Rose Placed)) :
    ofTrees naming columnsOf trees = trees.map (ofTree naming columnsOf) := by
  induction trees with
  | nil => rfl
  | cons t trees ih => rw [ofTrees, ih, List.map_cons]

end Block

namespace Block

theorem toList_indent (depth : Nat) : (indent depth).toList = List.replicate (2 * depth) ' ' := by
  induction depth with
  | zero => rfl
  | succ depth ih =>
    rw [indent, List.replicate_succ, String.join_cons, ← indent, String.toList_append, ih]
    rfl

/-- Whether a line opens a class. -/
def opensClass (line : String) : Bool :=
  let words := line.toList.dropWhile (· == ' ')
  "public final class ".toList.isPrefixOf words || "public static final class ".toList.isPrefixOf words

@[simp] theorem opensClass_indent (depth : Nat) (line : String) :
    opensClass (indent depth ++ line) = opensClass line := by
  have blank : ∀ c ∈ (indent depth).toList, (c == ' ') = true := by
    intro c mem
    rw [toList_indent] at mem
    exact beq_iff_eq.mpr (List.eq_of_mem_replicate mem)
  simp only [opensClass, String.toList_append, List.dropWhile_append_of_pos blank]

/-- The line that opens a class at a depth. -/
def classLine (depth : Nat) (name : String) : String :=
  indent depth ++ (if depth = 0 then "public final class " else "public static final class ") ++ name ++ " \x7b"

theorem opening_eq (depth : Nat) (name entity : String) : opening depth name entity =
    [classLine depth name, "",
      indent (depth + 1) ++ "private static final Table TABLE_ = " ++ "StaticR2dbcEntityTemplateAccessor_.getTable(" ++
        entity ++ ".class);", ""] := by
  have holder : "StaticR2dbcEntityTemplateAccessor_.getTable(" = Holder.name ++ ".getTable(" := by decide
  rw [holder]
  simp [opening, classLine, String.append_assoc]

theorem filter_opensClass_opening (depth : Nat) (name entity : String) :
    (opening depth name entity).filter opensClass = [classLine depth name] := by
  by_cases outermost : depth = 0
  all_goals
    simp only [opening, classLine, String.append_assoc, List.filter_cons, opensClass_indent]
    simp [opensClass, List.isPrefixOf, outermost]

theorem filter_opensClass_constants (depth : Nat) (constants : List (String × String)) :
    (constants.map (constantLine (indent depth))).filter opensClass = [] := by
  refine List.filter_eq_nil_iff.mpr fun line mem => ?_
  obtain ⟨c, -, rfl⟩ := List.mem_map.mp mem
  simp only [constantLine, String.append_assoc, opensClass_indent]
  simp [opensClass, List.isPrefixOf]

theorem filter_opensClass_methods (depth : Nat) (name entity : String) :
    (methods depth name entity).filter opensClass = [] := by
  simp only [methods, String.append_assoc, List.filter_cons, opensClass_indent]
  simp [opensClass, List.isPrefixOf]

end Block

/-- What a class block tells of its own entity: the name of the class, the entity in a class literal, the constants. -/
structure ClassHead where
  name : String
  entity : String
  constants : List (String × String)
  deriving DecidableEq, Repr

namespace ClassHead

/-- The head of the block of an entity. -/
def ofEntity (naming : String → String) (columnsOf : Placed → List String) (p : Placed) : ClassHead :=
  ⟨naming p.decl.name, p.decl.nestedName, Generate.constants (columnsOf p)⟩

/-- The lines of a block that are about its own entity. -/
def lines (depth : Nat) (h : ClassHead) : List String :=
  Block.opening depth h.name h.entity ++ h.constants.map (Block.constantLine (Block.indent (depth + 1))) ++
    Block.methods depth h.name h.entity

end ClassHead

namespace Block

mutual

/-- The heads of a block and of those inside it, each with its depth and before those further in. -/
def heads (depth : Nat) : Block → List (Nat × ClassHead)
  | .node name entity constants inner => (depth, ⟨name, entity, constants⟩) :: innerHeads (depth + 1) inner

def innerHeads (depth : Nat) : List Block → List (Nat × ClassHead)
  | [] => []
  | b :: bs => heads depth b ++ innerHeads depth bs

end

mutual

/-- The lines of the heads are written in the order of the heads; what stands between are empty lines and the ends of
blocks. -/
theorem headLines_sublist (depth : Nat) (b : Block) :
    ((b.heads depth).flatMap fun (d, h) => h.lines d).Sublist (b.lines depth) :=
  match b with
  | .node name entity constants inner => by
    rw [heads, List.flatMap_cons, lines, List.append_assoc]
    exact ((innerHeadLines_sublist (depth + 1) inner).trans (List.sublist_append_left _ _)).append_left _

theorem innerHeadLines_sublist (depth : Nat) (bs : List Block) :
    ((innerHeads depth bs).flatMap fun (d, h) => h.lines d).Sublist (innerLines depth bs) :=
  match bs with
  | [] => List.nil_sublist _
  | b :: bs => by
    rw [innerHeads, List.flatMap_append, innerLines]
    exact ((headLines_sublist depth b).append (innerHeadLines_sublist depth bs)).cons _

end

mutual

/-- The lines of a head are written one right after another. -/
theorem headLines_within {depth d : Nat} {h : ClassHead} {b : Block} (mem : (d, h) ∈ b.heads depth) :
    h.lines d <:+: b.lines depth :=
  match b with
  | .node name entity constants inner => by
    rw [lines]
    rcases List.mem_cons.mp mem with own | mem
    · obtain ⟨rfl, rfl⟩ := Prod.mk.inj own
      exact ((List.prefix_append _ _).trans (List.prefix_append _ _)).isInfix
    · have further := innerHeadLines_within mem
      exact (further.trans (List.suffix_append _ _).isInfix).trans (List.prefix_append _ _).isInfix

theorem innerHeadLines_within {depth d : Nat} {h : ClassHead} {bs : List Block} (mem : (d, h) ∈ innerHeads depth bs) :
    h.lines d <:+: innerLines depth bs :=
  match bs with
  | [] => nomatch mem
  | b :: bs => by
    rw [innerLines, ← List.cons_append]
    rcases List.mem_append.mp mem with mem | mem
    · exact ((headLines_within mem).trans (List.suffix_cons _ _).isInfix).trans (List.prefix_append _ _).isInfix
    · exact (innerHeadLines_within mem).trans (List.suffix_append _ _).isInfix

end

mutual

/-- The lines that open classes are one for each head, in the order of the heads. -/
theorem filter_opensClass_lines (depth : Nat) (b : Block) :
    (b.lines depth).filter opensClass = (b.heads depth).map fun (d, h) => classLine d h.name :=
  match b with
  | .node name entity constants inner => by
    have close : opensClass (indent depth ++ "\x7d") = false := (opensClass_indent depth _).trans (by decide)
    rw [lines, heads, List.map_cons]
    simp only [List.filter_append, filter_opensClass_opening, filter_opensClass_constants, filter_opensClass_methods,
      filter_opensClass_innerLines]
    simp [close]

theorem filter_opensClass_innerLines (depth : Nat) (bs : List Block) :
    (innerLines depth bs).filter opensClass = (innerHeads depth bs).map fun (d, h) => classLine d h.name :=
  match bs with
  | [] => rfl
  | b :: bs => by
    have empty : opensClass "" = false := by decide
    rw [innerLines, innerHeads, List.filter_cons_of_neg (by simp [empty]), List.filter_append, List.map_append,
      filter_opensClass_lines, filter_opensClass_innerLines]

end

/-- The lines that tell the entity of a block and its constants stand one right after another in the lines of a block
around it. -/
theorem start_infix {b : Block} {row : List Nat} {name entity : String} {constants : List (String × String)}
    {inner : List Block} (there : b.at? row = some (.node name entity constants inner)) :
    opening row.length name entity ++ constants.map (constantLine (indent (row.length + 1))) <:+: b.lines 0 := by
  have own : ClassHead.lines row.length ⟨name, entity, constants⟩ <:+: b.lines (0 + 0) :=
    (headLines_within (b := .node name entity constants inner) List.mem_cons_self).trans
      (by simpa using lines_infix there 0)
  exact (List.prefix_append _ _).isInfix.trans own

variable (naming : String → String) (columnsOf : Placed → List String)

/-- The blocks of trees of entities have the heads of the entities, one after another. -/
theorem innerHeads_ofTrees (depth : Nat) (trees : List (Rose Placed)) :
    innerHeads depth (ofTrees naming columnsOf trees) =
      (Rose.levelsAll depth trees).map fun (d, p) => (d, ClassHead.ofEntity naming columnsOf p) := by
  induction trees using Rose.list_induction generalizing depth with
  | nil => rfl
  | node p branches trees inside others =>
    rw [ofTrees, ofTree, innerHeads, heads, inside, others, Rose.levelsAll, Rose.levels, List.map_append]
    rfl

theorem heads_ofTree (depth : Nat) (tree : Rose Placed) :
    (ofTree naming columnsOf tree).heads depth =
      (tree.levels depth).map fun (d, p) => (d, ClassHead.ofEntity naming columnsOf p) := by
  simpa [ofTrees, innerHeads, Rose.levelsAll] using innerHeads_ofTrees naming columnsOf depth [tree]

end Block

theorem preamble_some {p : String} (named : p ≠ "") :
    preamble (some p) = ["package " ++ p ++ ";", ""] ++ preamble none := by
  simp [preamble, named]

namespace Plan

variable (plan : Plan) (columnsOf : Placed → List String) {g : EntityGraph} {kids : Placed → List Placed}
  {depth : Placed → Nat} {parents : List Placed}

/-- The lines around those of the classes inside are those of the entity's block. -/
theorem classLines_eq (depth : Nat) (p : Placed) (branches : List (Rose Placed)) :
    plan.classLines columnsOf depth p (Block.innerLines (depth + 1) (Block.ofTrees plan.naming columnsOf branches)) =
      (Block.ofTree plan.naming columnsOf (.node p branches)).lines depth := rfl

/-- Writing the class of an entity goes through the same search as the tree below it, and gives the lines of its
block. -/
theorem render_eq (fuel depth : Nat) (visited : List Placed) (p : Placed) :
    plan.render g columnsOf fuel depth visited p =
      ((Block.ofTree plan.naming columnsOf (.node p (g.explore fuel (p :: visited) (g.successors p)).1)).lines depth,
        (g.explore fuel (p :: visited) (g.successors p)).2) := by
  induction fuel generalizing depth visited p with
  | zero => rfl
  | succ fuel ih =>
    -- what stands in the class so far are the lines of the trees so far
    have inside (lines : List String) (visited starts : List Placed) :
        starts.foldl (addClass (plan.render g columnsOf fuel (depth + 1))) (lines, visited) =
          (lines ++ Block.innerLines (depth + 1)
              (Block.ofTrees plan.naming columnsOf (g.explore (fuel + 1) visited starts).1),
            (g.explore (fuel + 1) visited starts).2) := by
      induction starts generalizing lines visited with
      | nil => simp [Digraph.explore_nil, Block.ofTrees, Block.innerLines]
      | cons child starts others =>
        rw [List.foldl_cons, addClass]
        by_cases met : child ∈ visited
        · rw [if_pos met, others, Digraph.explore_cons_of_mem met]
        · rw [if_neg met, ih, others, Digraph.explore_cons met]
          simp [Block.ofTrees, Block.innerLines]
    rw [render, inside, List.nil_append, classLines_eq]

/-- The file of a root holds its block. -/
theorem entityText_eq (root : Placed) : plan.entityText g columnsOf root =
    textOf (header plan.date ++ preamble root.decl.head.package ++ (plan.block g columnsOf root).lines 0) := by
  rw [entityText, render_eq]
  rfl

/-- In the file of a root one line opens a class for each entity of the tree below the root. -/
theorem filter_opensClass (root : Placed) :
    (header plan.date ++ preamble root.decl.head.package ++ (plan.block g columnsOf root).lines 0).filter
        Block.opensClass =
      ((g.treeFrom root).levels 0).map fun (depth, p) => Block.classLine depth (plan.naming p.decl.name) := by
  have header : (header plan.date).filter Block.opensClass = [] := by
    simp [Generate.header, Block.opensClass, List.isPrefixOf]
  have imports : (preamble none).filter Block.opensClass = [] := by decide +kernel
  have preamble : (preamble root.decl.head.package).filter Block.opensClass = [] := by
    cases root.decl.head.package with
    | none => exact imports
    | some p =>
      by_cases unnamed : p = ""
      · exact unnamed ▸ imports
      · rw [preamble_some unnamed, List.filter_append, imports]
        simp [Block.opensClass, List.isPrefixOf]
  rw [List.filter_append, List.filter_append, header, preamble, Block.filter_opensClass_lines, block,
    Block.heads_ofTree, List.map_map]
  rfl

/-- The block of an entity holds the blocks of the entities directly inside it. -/
theorem block_eq (holds : g.Holds kids parents) (forest : Digraph.IsForest kids depth parents) {p : Placed}
    (mem : p ∈ parents) :
    plan.block g columnsOf p = .node (plan.naming p.decl.name) p.decl.nestedName (constants (columnsOf p))
      ((kids p).map (plan.block g columnsOf)) := by
  rw [block, holds.treeFrom_eq forest mem, Block.ofTree, Block.ofTrees_eq_map, List.map_map]
  rfl

/-- The rows of numbers that lead to the blocks in the block of an entity lead to the entities that they stand for. -/
theorem at?_block (holds : g.Holds kids parents) (forest : Digraph.IsForest kids depth parents) {p : Placed}
    (mem : p ∈ parents) (row : List Nat) :
    (plan.block g columnsOf p).at? row = (g.descend? p row).map (plan.block g columnsOf) := by
  induction row generalizing p with
  | nil => rfl
  | cons i row ih =>
    rw [block_eq plan columnsOf holds forest mem, Block.at?, Block.inner, Digraph.descend?,
      holds.successors_eq forest.nodup mem, List.getElem?_map]
    cases child : (kids p)[i]? with
    | none => rfl
    | some k => exact ih (forest.closed p mem k (List.mem_of_getElem? child))

/-- How the blocks in the files of roots stand to the entities below the roots. The spot of an entity is the file of
its block, and the row of numbers that leads to the block there. -/
structure Mirrors (plan : Plan) (g : EntityGraph) (roots : List Placed) (block : Placed → Block)
    (spot : Placed → Path × List Nat) : Prop where
  bijective : Set.BijOn spot {p | ∃ r ∈ roots, Relation.ReflTransGen g.Leads r p}
    {q | ∃ r ∈ roots, q.1 = plan.target r.decl ∧ ((block r).at? q.2).isSome}
  file : ∀ r ∈ roots, ∀ p, Relation.ReflTransGen g.Leads r p → (spot p).1 = plan.target r.decl
  outermost : ∀ r ∈ roots, (spot r).2 = []
  inside : ∀ r ∈ roots, ∀ p q, Relation.ReflTransGen g.Leads r p → g.Leads p q → ∃ i, (spot q).2 = (spot p).2 ++ [i]

/-- The blocks in the files of roots mirror the entities below the roots, if no two of the roots have the same file. -/
theorem exists_mirrors (holds : g.Holds kids parents) (forest : Digraph.IsForest kids depth parents)
    {roots : List Placed} (among : ∀ r ∈ roots, r ∈ g.roots)
    (apart : ∀ r ∈ roots, ∀ r' ∈ roots, plan.target r.decl = plan.target r'.decl → r = r') :
    ∃ spot, Mirrors plan g roots (plan.block g columnsOf) spot ∧
      ∀ r ∈ roots, ∀ p, Relation.ReflTransGen g.Leads r p →
        (plan.block g columnsOf r).at? (spot p).2 = some (plan.block g columnsOf p) := by
  have parent (r : Placed) (mem : r ∈ roots) : r ∈ parents := ((holds.mem_roots r).mp (among r mem)).1
  have exists_spot (p : Placed) : ∃ q : Path × List Nat, ∀ r ∈ roots, Relation.ReflTransGen g.Leads r p →
      q.1 = plan.target r.decl ∧ g.descend? r q.2 = some p := by
    by_cases below : ∃ r ∈ roots, Relation.ReflTransGen g.Leads r p
    · obtain ⟨r, mem, path⟩ := below
      obtain ⟨row, leads⟩ := holds.exists_descend? forest path
      refine ⟨(plan.target r.decl, row), fun r' mem' path' => ?_⟩
      rw [holds.root_unique forest (among r' mem') (among r mem) path' path]
      exact ⟨rfl, leads⟩
    · exact ⟨(.here, []), fun r mem path => absurd ⟨r, mem, path⟩ below⟩
  choose spot is using exists_spot
  -- a row that leads from the root to an entity is the one of its spot
  have row_eq {r p : Placed} {row : List Nat} (mem : r ∈ roots) (leads : g.descend? r row = some p) :
      spot p = (plan.target r.decl, row) := by
    obtain ⟨file, leads'⟩ := is p r mem (holds.below_of_descend? forest (parent r mem) leads)
    exact Prod.ext file (holds.descend?_inj forest (parent r mem) leads' leads)
  refine ⟨spot, ⟨⟨?_, ?_, ?_⟩, fun r mem p path => (is p r mem path).1, fun r mem => ?_, ?_⟩, fun r mem p path => ?_⟩
  · rintro p ⟨r, mem, path⟩
    obtain ⟨file, leads⟩ := is p r mem path
    refine ⟨r, mem, file, ?_⟩
    simp [plan.at?_block columnsOf holds forest (parent r mem), leads]
  · rintro p ⟨r, mem, path⟩ p' ⟨r', mem', path'⟩ same
    obtain ⟨file, leads⟩ := is p r mem path
    obtain ⟨file', leads'⟩ := is p' r' mem' path'
    rw [apart r mem r' mem' (file.symm.trans ((congrArg Prod.fst same).trans file')), congrArg Prod.snd same] at leads
    exact Option.some.inj (leads.symm.trans leads')
  · rintro ⟨file, row⟩ ⟨r, mem, rfl, there⟩
    rw [plan.at?_block columnsOf holds forest (parent r mem), Option.isSome_map] at there
    obtain ⟨p, leads⟩ := Option.isSome_iff_exists.mp there
    exact ⟨p, ⟨r, mem, holds.below_of_descend? forest (parent r mem) leads⟩, row_eq mem leads⟩
  · exact congrArg Prod.snd (row_eq mem (show g.descend? r [] = some r from rfl))
  · intro r mem p q path arc
    obtain ⟨i, leads⟩ := holds.descend?_kid forest (is p r mem path).2 arc
    exact ⟨i, congrArg Prod.snd (row_eq mem leads)⟩
  · rw [plan.at?_block columnsOf holds forest (parent r mem), (is p r mem path).2]
    rfl

end Plan

end EntityAtlas.Generate
