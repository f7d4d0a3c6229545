import EntityAtlas.Proofs.BlockLayout

/-!
# Faithful rendering

The file of a root tells which tree of entities it was made of. Its lines can be cut apart again in one way only: the
line that opens a class has the name of the class, the one after it the name of the entity, every constant has a line,
an empty line ends the constants, and blocks inside are told from the end of a block since an empty line stands before
each of them.
-/

namespace EntityAtlas

/-- Of two lists that are cut at the first occurrence of an element, the parts are told from the whole. -/
theorem eq_and_eq_of_append_cons {α : Type} {a : α} {before before' after after' : List α} (free : a ∉ before)
    (free' : a ∉ before') (same : before ++ a :: after = before' ++ a :: after') :
    before = before' ∧ after = after' := by
  induction before generalizing before' with
  | nil =>
    cases before' with
    | nil => exact ⟨rfl, (List.cons.inj same).2⟩
    | cons b before' => exact absurd ((List.cons.inj same).1 ▸ List.mem_cons_self) free'
  | cons b before ih =>
    cases before' with
    | nil => exact absurd ((List.cons.inj same).1 ▸ List.mem_cons_self) free
    | cons b' before' =>
      obtain ⟨first, others⟩ := List.cons.inj same
      rw [List.mem_cons, not_or] at free free'
      obtain ⟨rest, after⟩ := ih free.2 free'.2 others
      exact ⟨by rw [first, rest], after⟩

namespace Rose

variable {α β : Type}

mutual

/-- The tree with another value at each place. -/
def map (f : α → β) : Rose α → Rose β
  | .node a branches => .node (f a) (mapAll f branches)

def mapAll (f : α → β) : List (Rose α) → List (Rose β)
  | [] => []
  | t :: ts => map f t :: mapAll f ts

end

end Rose

namespace Generate

open Text (Lacks)

namespace Block

mutual

/-- The heads of a block and of those inside it, as a tree. -/
def headTree : Block → Rose ClassHead
  | .node name entity constants inner => .node ⟨name, entity, constants⟩ (headTrees inner)

def headTrees : List Block → List (Rose ClassHead)
  | [] => []
  | b :: bs => headTree b :: headTrees bs

end

variable (naming : String → String) (columnsOf : Placed → List String)

mutual

/-- The block of a tree of entities has the heads of the entities, in the same tree. -/
theorem headTree_ofTree (tree : Rose Placed) :
    (ofTree naming columnsOf tree).headTree = tree.map (ClassHead.ofEntity naming columnsOf) :=
  match tree with
  | .node p branches => by
    rw [ofTree, headTree, headTrees_ofTrees branches, Rose.map]
    rfl

theorem headTrees_ofTrees (trees : List (Rose Placed)) :
    headTrees (ofTrees naming columnsOf trees) = Rose.mapAll (ClassHead.ofEntity naming columnsOf) trees :=
  match trees with
  | [] => rfl
  | t :: ts => by rw [ofTrees, headTrees, headTree_ofTree t, headTrees_ofTrees ts, Rose.mapAll]

end

/-- The line of a constant tells the constant and the column. -/
theorem constantLine_inj {body : String} {c c' : String × String} (free : '\x22' ∉ c.1.toList)
    (free' : '\x22' ∉ c'.1.toList) (same : constantLine body c = constantLine body c') : c = c' := by
  simp only [constantLine, String.append_assoc, String.append_right_inj] at same
  have cut (c : String × String) : (c.1 ++ (" = column(\"" ++ (c.2 ++ "\");"))).toList =
      (c.1 ++ " = column(").toList ++ '\x22' :: (c.2 ++ "\");").toList := by simp
  have chars := congrArg String.toList same
  rw [cut, cut] at chars
  obtain ⟨constant, column⟩ := eq_and_eq_of_append_cons (by simp [free]) (by simp [free']) chars
  have constant := (String.append_left_inj _).mp (String.toList_injective constant)
  have column := (String.append_left_inj _).mp (String.toList_injective column)
  exact Prod.ext constant column

theorem constantLine_ne_empty (body : String) (c : String × String) : constantLine body c ≠ "" := by
  intro empty
  simpa [constantLine] using congrArg String.toList empty

/-- Lines that start with those of constants and an empty one tell the constants and the lines after that. -/
theorem constants_cancel {body : String} {constants constants' : List (String × String)} {rest rest' : List String}
    (free : ∀ c ∈ constants, '\x22' ∉ c.1.toList) (free' : ∀ c ∈ constants', '\x22' ∉ c.1.toList)
    (same : constants.map (constantLine body) ++ "" :: rest = constants'.map (constantLine body) ++ "" :: rest') :
    constants = constants' ∧ rest = rest' := by
  induction constants generalizing constants' with
  | nil =>
    cases constants' with
    | nil => exact ⟨rfl, (List.cons.inj same).2⟩
    | cons c' constants' => exact absurd (List.cons.inj same).1.symm (constantLine_ne_empty body c')
  | cons c constants ih =>
    cases constants' with
    | nil => exact absurd (List.cons.inj same).1 (constantLine_ne_empty body c)
    | cons c' constants' =>
      obtain ⟨line, lines⟩ := List.cons.inj same
      obtain ⟨quoteless, others⟩ := List.forall_mem_cons.mp free
      obtain ⟨quoteless', others'⟩ := List.forall_mem_cons.mp free'
      obtain ⟨equal, rest⟩ := ih others others' lines
      exact ⟨by rw [constantLine_inj quoteless quoteless' line, equal], rest⟩

/-- Lines that start with those of a head tell the head and the lines after it. -/
theorem head_cancel {depth : Nat} {h h' : ClassHead} {rest rest' : List String} (plain : h.IsPlain)
    (plain' : h'.IsPlain) (same : h.lines depth ++ rest = h'.lines depth ++ rest') : h = h' ∧ rest = rest' := by
  obtain ⟨name, entity, constants⟩ := h
  obtain ⟨name', entity', constants'⟩ := h'
  simp only [ClassHead.lines, opening, methods, List.cons_append, List.nil_append, List.append_assoc,
    List.cons.injEq, true_and] at same
  obtain ⟨first, third, lines⟩ := same
  obtain rfl : name = name' := by
    simpa [String.append_assoc] using first
  obtain rfl : entity = entity' := by
    simpa [String.append_assoc] using third
  obtain ⟨rfl, methods⟩ := constants_cancel (fun c mem => (plain.constants c mem).1.quoteless)
    (fun c mem => (plain'.constants c mem).1.quoteless) lines
  exact ⟨rfl, by simpa using methods⟩

mutual

/-- Lines that start with those of a block tell the block and the lines after it. -/
theorem lines_cancel {depth : Nat} {b b' : Block} {rest rest' : List String}
    (plain : ∀ x ∈ b.heads depth, x.2.IsPlain) (plain' : ∀ x ∈ b'.heads depth, x.2.IsPlain)
    (same : b.lines depth ++ rest = b'.lines depth ++ rest') : b = b' ∧ rest = rest' :=
  match b, b' with
  | .node name entity constants inner, .node name' entity' constants' inner' => by
    obtain ⟨head, further⟩ := List.forall_mem_cons.mp plain
    obtain ⟨head', further'⟩ := List.forall_mem_cons.mp plain'
    simp only [lines_node, List.append_assoc] at same
    obtain ⟨heads, others⟩ := head_cancel head head' same
    obtain ⟨rfl, after⟩ := innerLines_cancel further further' (by simp) others
    cases heads
    exact ⟨rfl, after⟩

/-- Lines that start with those of blocks inside another one and a line that is not empty tell the blocks and the lines
after that. -/
theorem innerLines_cancel {depth : Nat} {bs bs' : List Block} {close : String} {rest rest' : List String}
    (plain : ∀ x ∈ innerHeads depth bs, x.2.IsPlain) (plain' : ∀ x ∈ innerHeads depth bs', x.2.IsPlain)
    (visible : close ≠ "") (same : innerLines depth bs ++ close :: rest = innerLines depth bs' ++ close :: rest') :
    bs = bs' ∧ rest = rest' :=
  match bs, bs' with
  | [], [] => ⟨rfl, (List.cons.inj same).2⟩
  | [], b' :: bs' => absurd (List.cons.inj same).1 visible
  | b :: bs, [] => absurd (List.cons.inj same).1.symm visible
  | b :: bs, b' :: bs' => by
    obtain ⟨first, others⟩ := List.forall_mem_append.mp plain
    obtain ⟨first', others'⟩ := List.forall_mem_append.mp plain'
    simp only [innerLines, List.cons_append, List.append_assoc, List.cons.injEq, true_and] at same
    obtain ⟨rfl, further⟩ := lines_cancel first first' same
    obtain ⟨rfl, after⟩ := innerLines_cancel others others' visible further
    exact ⟨rfl, after⟩

end

end Block

/-- A text tells its lines. -/
theorem textOf_inj {ls ls' : List String} (lineless : ∀ l ∈ ls, Lacks ['\n'] l) (lineless' : ∀ l ∈ ls', Lacks ['\n'] l)
    (same : textOf ls = textOf ls') : ls = ls' := by
  induction ls generalizing ls' with
  | nil =>
    cases ls' with
    | nil => rfl
    | cons l' ls' => simpa using congrArg String.toList same
  | cons l ls ih =>
    cases ls' with
    | nil => simpa using congrArg String.toList same
    | cons l' ls' =>
      obtain ⟨first, others⟩ := List.forall_mem_cons.mp lineless
      obtain ⟨first', others'⟩ := List.forall_mem_cons.mp lineless'
      have chars : l.toList ++ '\n' :: (textOf ls).toList = l'.toList ++ '\n' :: (textOf ls').toList := by
        simpa using congrArg String.toList same
      obtain ⟨line, rest⟩ := eq_and_eq_of_append_cons (first _ (by decide)) (first' _ (by decide)) chars
      rw [String.toList_injective line, ih others others' (String.toList_injective rest)]

/-- The lines before the class of an entity tell the package, and where the class begins. -/
theorem preamble_cancel {package package' : Option String} {rest rest' : List String} (named : package ≠ some "")
    (named' : package' ≠ some "") (same : preamble package ++ rest = preamble package' ++ rest') :
    package = package' ∧ rest = rest' := by
  -- the first line is that of the package or of an import, and these start with different words
  cases package with
  | none =>
    cases package' with
    | none => exact ⟨rfl, List.append_cancel_left same⟩
    | some p' => simp_all [preamble]
  | some p =>
    cases package' with
    | none => simp_all [preamble]
    | some p' =>
      rw [preamble_some (by simpa using named), preamble_some (by simpa using named'), List.append_assoc,
        List.append_assoc] at same
      obtain ⟨line, others⟩ := List.cons.inj same
      obtain rfl : p = p' := by simpa [String.append_assoc] using line
      exact ⟨rfl, List.append_cancel_left (List.cons.inj others).2⟩

namespace Plan

/-- A root is rendered under the default rule, with identifiers for the names of types and columns and a dotted one for
the package, if there is one. -/
structure UsesIdentifiers (plan : Plan) (g : EntityGraph) (columnsOf : Placed → List String) (root : Placed) :
    Prop where
  naming : plan.naming = Naming.standard
  package : ∀ p ∈ root.decl.head.package, Text.IsDotted p
  types : ∀ x ∈ (g.treeFrom root).levels 0, ∀ name ∈ x.2.decl.path, Text.IsIdentifier name
  columns : ∀ x ∈ (g.treeFrom root).levels 0, ∀ f ∈ columnsOf x.2, Text.IsIdentifier f

variable {plan plan' : Plan} {g g' : EntityGraph} {columnsOf columnsOf' : Placed → List String} {root root' : Placed}

namespace UsesIdentifiers

variable (uses : plan.UsesIdentifiers g columnsOf root)
include uses

theorem isPlain_heads : ∀ x ∈ (plan.block g columnsOf root).heads 0, x.2.IsPlain := by
  intro x mem
  rw [block, Block.heads_ofTree] at mem
  obtain ⟨⟨depth, p⟩, rendered, rfl⟩ := List.mem_map.mp mem
  have types (name : String) (among : name ∈ p.decl.path) := (uses.types _ rendered name among).isPlain
  refine ⟨?_, Decl.isPlain_nestedName types, fun c constant => ?_⟩
  · have own := types p.decl.name (List.mem_append_right _ List.mem_cons_self)
    have mark : Text.IsPlain "_" := by decide
    change Text.IsPlain (plan.naming p.decl.name)
    rw [uses.naming]
    exact Text.lacks_append.mpr ⟨own, mark⟩
  · obtain ⟨column, made⟩ := of_mem_constants constant
    have column := (uses.columns _ rendered _ column).isPlain
    exact ⟨made ▸ Naming.isPlain_constant column, column⟩

theorem package_ne : root.decl.head.package ≠ some "" :=
  fun empty => (uses.package "" empty).ne_empty rfl

theorem lacks_preamble {marks : List Char} (shaping : marks ⊆ Text.shaping) :
    ∀ l ∈ preamble root.decl.head.package, Lacks marks l := by
  have imports : ∀ l ∈ preamble none, Text.IsPlain l := by decide +kernel
  cases named : root.decl.head.package with
  | none => exact fun l mem => (imports l mem).mono shaping
  | some p =>
    have dotted := uses.package p named
    rw [preamble_some dotted.ne_empty, List.forall_mem_append]
    have line : Text.IsPlain ("package " ++ p ++ ";") :=
      Text.lacks_append.mpr ⟨Text.lacks_append.mpr ⟨by decide, dotted.isPlain⟩, by decide⟩
    have first : ∀ l ∈ ["package " ++ p ++ ";", ""], Text.IsPlain l := by
      simpa [line] using (by decide : Text.IsPlain "")
    exact ⟨fun l mem => (first l mem).mono shaping, fun l mem => (imports l mem).mono shaping⟩

theorem lineless : ∀ l ∈ preamble root.decl.head.package ++ (plan.block g columnsOf root).lines 0, Lacks ['\n'] l :=
  List.forall_mem_append.mpr
    ⟨uses.lacks_preamble Text.lineEnd_subset, Block.lineless_of_mem_lines uses.isPlain_heads⟩

end UsesIdentifiers

/-- What follows the header in the file of a root tells the package and the tree of the entities below the root, each
with the name of its class, its name from the outermost declaration on, and its constants with their columns. The braces
in the file are balanced, and every class in it is set off at its depth. -/
theorem entityText_faithful (uses : plan.UsesIdentifiers g columnsOf root)
    (uses' : plan'.UsesIdentifiers g' columnsOf' root') :
    (∀ rest, plan.entityText g columnsOf root = textOf (header plan.date) ++ rest →
      plan'.entityText g' columnsOf' root' = textOf (header plan'.date) ++ rest →
      root.decl.head.package = root'.decl.head.package ∧
        (g.treeFrom root).map (ClassHead.ofEntity plan.naming columnsOf) =
          (g'.treeFrom root').map (ClassHead.ofEntity plan'.naming columnsOf')) ∧
    (Text.IsPlain plan.date → Text.IsBalanced (plan.entityText g columnsOf root).toList) ∧
    ∀ row b, (plan.block g columnsOf root).at? row = some b →
      ∃ before inside after, plan.entityText g columnsOf root = textOf (before ++ b.lines row.length ++ after) ∧
        b.IsSetOff row.length inside := by
  refine ⟨fun rest text text' => ?_, fun date => ?_, fun row b there => ?_⟩
  · rw [entityText_eq, List.append_assoc, textOf_append, String.append_right_inj] at text text'
    obtain ⟨package, lines⟩ := preamble_cancel uses.package_ne uses'.package_ne
      (textOf_inj uses.lineless uses'.lineless (text.trans text'.symm))
    have blocks : plan.block g columnsOf root = plan'.block g' columnsOf' root' :=
      (Block.lines_cancel uses.isPlain_heads uses'.isPlain_heads (congrArg (· ++ []) lines)).1
    refine ⟨package, ?_⟩
    rw [← Block.headTree_ofTree, ← Block.headTree_ofTree]
    exact congrArg Block.headTree blocks
  · have head : ∀ l ∈ header plan.date, Lacks Text.braces l := by
      simp +decide [header, date.braceless]
    rw [entityText_eq]
    exact ((areBalanced_of_lacks head).append (areBalanced_of_lacks (uses.lacks_preamble Text.braces_subset))).append
      (Block.areBalanced_lines uses.isPlain_heads)
  · obtain ⟨before, after, cut⟩ := Block.lines_infix there 0
    rw [Nat.zero_add] at cut
    have plain : ∀ x ∈ b.heads row.length, x.2.IsPlain := fun x mem =>
      uses.isPlain_heads x (Block.heads_subset there 0 (by simpa using mem))
    refine ⟨header plan.date ++ preamble root.decl.head.package ++ before, _, after, ?_, Block.isSetOff plain⟩
    simp only [entityText_eq, ← cut, List.append_assoc]

/-- An entity of a package, found in a file. -/
def packagedEntity (file : String) (enclosing : List String) (name : String) : Placed where
  file := file
  trail := [0]
  decl := ⟨⟨name, .classKind, .plain, some "p.q", [⟨entityMarker, []⟩], [], none, enclosing⟩, []⟩

/-- `A` with `B` and `C` inside, found in a file. -/
def nestedEntities (file : String) : EntityGraph :=
  .build [packagedEntity file [] "A"]
    [(packagedEntity file [] "A", packagedEntity file ["A"] "B"),
      (packagedEntity file [] "A", packagedEntity file ["A"] "C")]

/-- Columns for `C`; the others have none. -/
def columnsOfC (columns : List String) (p : Placed) : List String :=
  if p.decl.name = "C" then columns else []

theorem entityText_faithful_nested :
    let plan : Plan := ⟨.here, Naming.standard, "2024-01-01"⟩
    let plan' : Plan := ⟨.here, Naming.standard, "2025-12-31"⟩
    let g := nestedEntities "one/A.java"
    let g' := nestedEntities "two/A.java"
    let root := packagedEntity "one/A.java" [] "A"
    let root' := packagedEntity "two/A.java" [] "A"
    let columns := columnsOfC ["id", "fooBar", "foo_bar"]
    let columns' := columnsOfC ["id", "fooBar"]
    let c : Block := .node "C_" "A.C" [("ID", "id"), ("FOO_BAR", "fooBar")] []
    plan.UsesIdentifiers g columns root ∧ plan'.UsesIdentifiers g' columns' root' ∧
      (∃ rest, plan.entityText g columns root = textOf (header plan.date) ++ rest ∧
        plan'.entityText g' columns' root' = textOf (header plan'.date) ++ rest ∧
        (g.treeFrom root).map (ClassHead.ofEntity plan.naming columns) =
          (g'.treeFrom root').map (ClassHead.ofEntity plan'.naming columns')) ∧
      Text.IsBalanced (plan.entityText g columns root).toList ∧
      ∃ before inside after, plan.entityText g columns root = textOf (before ++ c.lines 1 ++ after) ∧
        c.IsSetOff 1 inside := by
  intro plan plan' g g' root root' columns columns' c
  have uses : plan.UsesIdentifiers g columns root :=
    ⟨rfl, by decide +kernel, by decide +kernel, by decide +kernel⟩
  have uses' : plan'.UsesIdentifiers g' columns' root' :=
    ⟨rfl, by decide +kernel, by decide +kernel, by decide +kernel⟩
  obtain ⟨told, balanced, blocks⟩ := entityText_faithful uses uses'
  have lines : (plan.block g columns root).lines 0 = (plan'.block g' columns' root').lines 0 := by decide +kernel
  have there : (plan.block g columns root).at? [1] = some c := by rfl
  let rest := textOf (preamble (some "p.q") ++ (plan.block g columns root).lines 0)
  have text : plan.entityText g columns root = textOf (header plan.date) ++ rest := by
    rw [entityText_eq, List.append_assoc, textOf_append]
    rfl
  have text' : plan'.entityText g' columns' root' = textOf (header plan'.date) ++ rest := by
    rw [entityText_eq, List.append_assoc, textOf_append, ← lines]
    rfl
  exact ⟨uses, uses', ⟨rest, text, text', (told rest text text').2⟩, balanced (by decide), blocks [1] c there⟩

end Plan

end Generate

end EntityAtlas
