import EntityAtlas.Proofs.Constants
import EntityAtlas.Proofs.Scoping

/-!
# Class literals

A class block names the class of its entity by the names from the outermost declaration on, so all class literals in
the file of a root start with the same name. The file has other meanings for some names: for those of the three types
that it imports, and for those of the classes in it. If the outermost declaration has one of these names, then every
class literal in the file is about something else.
-/

namespace EntityAtlas

/-- The name of the outermost of the declarations around a declaration; if there is none around it, its own. -/
def Decl.outermost (d : Decl) : String :=
  d.head.enclosing.headD d.name

theorem Decl.exists_path (d : Decl) : ∃ inner, d.path = d.outermost :: inner := by
  rw [path, outermost]
  cases d.head.enclosing with
  | nil => exact ⟨[], rfl⟩
  | cons first inner => exact ⟨inner ++ [d.name], rfl⟩

theorem Decl.outermost_eq_of_prefix {d e : Decl} (inside : d.path <+: e.path) : e.outermost = d.outermost := by
  obtain ⟨inner, path⟩ := d.exists_path
  obtain ⟨inner', path'⟩ := e.exists_path
  rw [path, path', List.cons_prefix_cons] at inside
  exact inside.1.symm

namespace Item.Within

variable {package : Option String} {around : List String}

/-- What stands inside a find is told the path of the find. -/
theorem items_of_mem_ofItems {items : List Item} (within : Within package around items) {file : String}
    {trail : List Nat} {k : Nat} {p : Placed} (mem : p ∈ Placed.ofItems file trail k items) :
    Within package p.decl.path p.decl.items := by
  induction within generalizing trail k with
  | nil => simp at mem
  | field f others ih => exact ih mem
  | @type around h is rest told inside others ihInside ihOthers =>
    rcases List.mem_cons.mp mem with rfl | mem
    · have path : (Decl.mk h is).path = around ++ [h.name] := by rw [Decl.path, told.2]; rfl
      exact path ▸ inside
    · rcases List.mem_append.mp mem with mem | mem
      · exact ihInside mem
      · exact ihOthers mem

end Item.Within

namespace Collector

variable {c : Collector} {s : Store} {package : String} {p : Placed}

/-- The names around what stands directly inside a find are the path of the find. -/
theorem enclosing_of_mem_children (mem : p ∈ c.declaredBelow s package) {child : Placed} (inside : child ∈ p.children) :
    child.decl.head.enclosing = p.decl.path := by
  obtain ⟨file, u, reads, -, -, found⟩ := exists_unit_of_mem_declaredBelow mem
  have within := (within_of_readUnit reads).items_of_mem_ofItems found
  obtain ⟨⟨d, k⟩, numbered, rfl⟩ := List.mem_map.mp inside
  exact (within.of_mem_nestedTypes (h := p.decl.head) (List.fst_mem_of_mem_zipIdx numbered)).2.1

theorem dotless_of_mem_path (mem : p ∈ c.declaredBelow s package) {name : String} (among : name ∈ p.decl.path) :
    '.' ∉ name.toList := by
  obtain ⟨q, found, rfl⟩ := exists_name_of_mem_path mem among
  exact (c.isSegment_of_mem_declaredBelow s found).dotless

end Collector

namespace Generate

/-- The types that the file of an entity imports. -/
def importedTypes : List String :=
  [Holder.package ++ "." ++ Holder.name, "org.springframework.data.relational.core.sql.Column",
    "org.springframework.data.relational.core.sql.Table"]

def importLine (type : String) : String :=
  "import " ++ type ++ ";"

/-- The lines that tell the package of a file. -/
def packageLines : Option String → List String
  | none => []
  | some p => if p == "" then [] else ["package " ++ p ++ ";", ""]

theorem preamble_eq (package : Option String) :
    preamble package = packageLines package ++ importedTypes.map importLine ++ [""] := by
  rw [List.append_assoc]
  cases package <;> rfl

theorem simpleNames_importedTypes : importedTypes.map (Text.lastPiece '.') = [Holder.name, "Column", "Table"] := by
  decide +kernel

/-- In the file that a block is the body of, a name is captured if it is the simple name of an imported type or the name
of a class in the block. -/
def Block.Captures (b : Block) (name : String) : Prop :=
  name ∈ importedTypes.map (Text.lastPiece '.') ∨ ∃ depth h, (depth, h) ∈ b.heads 0 ∧ h.name = name

/-- The class blocks in the file of a root are those of the entities below the root. -/
theorem Plan.mem_heads_iff (plan : Plan) {g : EntityGraph} (proper : g.IsProper) (columnsOf : Placed → List String)
    (r : Placed) (h : ClassHead) :
    (∃ depth, (depth, h) ∈ (plan.block g columnsOf r).heads 0) ↔
      ∃ p, Relation.ReflTransGen g.Leads r p ∧ ClassHead.ofEntity plan.naming columnsOf p = h := by
  have reached (p : Placed) : (∃ depth, (depth, p) ∈ (g.treeFrom r).levels 0) ↔ Relation.ReflTransGen g.Leads r p := by
    simpa [Rose.values, Rose.levelsAll] using ((Digraph.depthFirst_treeFrom proper r).explores proper).reached p
  rw [block, Block.heads_ofTree]
  constructor
  · rintro ⟨depth, mem⟩
    obtain ⟨⟨depth', p⟩, level, same⟩ := List.mem_map.mp mem
    exact ⟨p, (reached p).mp ⟨depth', level⟩, congrArg Prod.snd same⟩
  · rintro ⟨p, below, rfl⟩
    obtain ⟨depth, level⟩ := (reached p).mpr below
    exact ⟨depth, List.mem_map.mpr ⟨_, level, rfl⟩⟩

/-- In the file of a root a name is captured by an import, or by the class of an entity below the root. -/
theorem Plan.captures_iff (plan : Plan) {g : EntityGraph} (proper : g.IsProper) (columnsOf : Placed → List String)
    (r : Placed) (name : String) :
    (plan.block g columnsOf r).Captures name ↔
      name ∈ [Holder.name, "Column", "Table"] ∨
        ∃ q, Relation.ReflTransGen g.Leads r q ∧ plan.naming q.decl.name = name := by
  have heads := plan.mem_heads_iff proper columnsOf r
  rw [Block.Captures, simpleNames_importedTypes]
  refine or_congr Iff.rfl ⟨?_, ?_⟩
  · rintro ⟨depth, h, mem, named⟩
    obtain ⟨q, below, rfl⟩ := (heads h).mp ⟨depth, mem⟩
    exact ⟨q, below, named⟩
  · rintro ⟨q, below, named⟩
    obtain ⟨depth, mem⟩ := (heads _).mpr ⟨q, below, rfl⟩
    exact ⟨depth, _, mem, named⟩

namespace ClassHead

/-- The expression for the class of the entity. -/
def classLiteral (h : ClassHead) : String :=
  h.entity ++ ".class"

/-- The lines of a block that hold the class literal of its own entity. -/
def literalLines (depth : Nat) (h : ClassHead) : List String :=
  [Block.indent (depth + 1) ++ "private static final Table TABLE_ = " ++ Holder.name ++ ".getTable(" ++
      h.classLiteral ++ ");",
    Block.indent (depth + 2) ++ "return Column.create(" ++ Holder.name ++ ".getPersistentEntity(" ++ h.classLiteral ++
      ")"]

theorem literalLines_subset (h : ClassHead) (depth : Nat) : h.literalLines depth ⊆ h.lines depth := by
  have literal (rest : String) : h.classLiteral ++ rest = h.entity ++ (".class" ++ rest) := String.append_assoc
  intro line mem
  rcases List.mem_cons.mp mem with rfl | mem
  · refine List.mem_append_left _ (List.mem_append_left _ ?_)
    simp [Block.opening, literal, String.append_assoc]
  · refine List.mem_append_right _ ?_
    simp [List.mem_singleton.mp mem, Block.methods, literal, String.append_assoc]

/-- A class literal starts with the name of the outermost declaration. -/
theorem firstPiece_classLiteral {p : Placed} (dotless : ∀ name ∈ p.decl.path, '.' ∉ name.toList)
    (naming : String → String) (columnsOf : Placed → List String) :
    Text.firstPiece '.' (ofEntity naming columnsOf p).classLiteral = p.decl.outermost := by
  obtain ⟨inner, path⟩ := p.decl.exists_path
  have pieces : Text.pieces '.' p.decl.nestedName = p.decl.path :=
    Text.pieces_intercalate rfl (by simp) dotless
  have literal : (ofEntity naming columnsOf p).classLiteral = p.decl.nestedName ++ "." ++ "class" := by
    rw [String.append_assoc]
    rfl
  rw [Text.firstPiece, literal, Text.pieces_append rfl, pieces, path]
  rfl

end ClassHead

end Generate

namespace Nesting

variable {n : Nesting} {s : Store} {r p : Placed}

/-- Down from an entity the paths get longer. -/
theorem path_prefix_of_below {scan : Scan} {entities : List Placed}
    (scans : (n.collector.entities s n.package).value = .ok entities) (sound : s.Sound)
    (holds : scan.graph.Holds n.collector.entitiesIn entities) (below : Relation.ReflTransGen scan.graph.Leads r p) :
    r.decl.path <+: p.decl.path := by
  have forest := n.collector.isForest sound scans
  induction below with
  | refl => exact List.prefix_rfl
  | @tail q p _ arc ih =>
    obtain ⟨mem, inside⟩ := (holds.leads_iff forest q p).mp arc
    obtain ⟨-, inside⟩ := (n.collector.mem_entitiesIn scans mem p).mp inside
    rw [Collector.value_entities_eq_ok _ scans] at mem
    refine ih.trans ?_
    rw [← Collector.enclosing_of_mem_children (List.mem_filter.mp mem).1 inside]
    exact List.prefix_append _ _

end Nesting

namespace Run

open Generate

/-- In the file of a root all class literals start with the name of one declaration, the outermost one around the root.
They are captured if that is the name of an imported type, or the name of the class of an entity at or below the root;
and then all of them are. -/
theorem classLiterals_captured_iff (settings : Settings) (date : String) {s : Store} (sound : s.Sound)
    {scan : Nesting.Scan} (found : (settings.scan s).value = .ok scan) (r : Placed) (root : r ∈ scan.graph.roots) :
    let plan := plan settings s date
    let block := plan.block scan.graph scan.columnsOf r
    plan.entityText scan.graph scan.columnsOf r = textOf (header plan.date ++
        (packageLines r.decl.head.package ++ importedTypes.map importLine ++ [""]) ++ block.lines 0) ∧
      ∀ depth h, (depth, h) ∈ block.heads 0 → h.literalLines depth ⊆ block.lines 0 ∧
        (∃ p, Relation.ReflTransGen scan.graph.Leads r p ∧ h = .ofEntity plan.naming scan.columnsOf p ∧
          Text.firstPiece '.' h.classLiteral = p.decl.outermost ∧ p.decl.outermost = r.decl.outermost) ∧
        (block.Captures (Text.firstPiece '.' h.classLiteral) ↔
          r.decl.outermost ∈ ["StaticR2dbcEntityTemplateAccessor_", "Column", "Table"] ∨
            ∃ q, Relation.ReflTransGen scan.graph.Leads r q ∧ q.decl.name ++ "_" = r.decl.outermost) := by
  intro plan block
  have contained := Supertype.Chain.contained_standard settings.nesting.collector settings.nesting.package s
  obtain ⟨entities, scans, holds, -⟩ := Nesting.holds_of_scan (n := settings.nesting) contained sound found
  have forest := settings.nesting.collector.isForest sound scans
  have start {p : Placed} (below : Relation.ReflTransGen scan.graph.Leads r p) :
      Text.firstPiece '.' (ClassHead.ofEntity plan.naming scan.columnsOf p).classLiteral = p.decl.outermost := by
    have mem := holds.mem_of_below forest ((holds.mem_roots r).mp root).1 below
    rw [Collector.value_entities_eq_ok _ scans] at mem
    exact ClassHead.firstPiece_classLiteral (fun name => Collector.dotless_of_mem_path (List.mem_filter.mp mem).1) _ _
  refine ⟨by rw [Plan.entityText_eq, preamble_eq], fun depth h mem => ⟨?_, ?_⟩⟩
  · exact List.Subset.trans (h.literalLines_subset depth) (Block.headLines_within mem).subset
  obtain ⟨p, below, rfl⟩ := (plan.mem_heads_iff holds.isProper scan.columnsOf r h).mp ⟨depth, mem⟩
  have around := Decl.outermost_eq_of_prefix (Nesting.path_prefix_of_below scans sound holds below)
  refine ⟨⟨p, below, rfl, start below, around⟩, ?_⟩
  rw [start below, around]
  exact plan.captures_iff holds.isProper scan.columnsOf r r.decl.outermost

/-- Three roots: one called as an imported type, one called as the class of the entity inside it, and one called as
nothing else. -/
def lendingSources : Store where
  root := .dir [("A.java", .file (Text.Utf8.encode
    ("@Table class Column { } @Table class A_ { @Table class A { } } @Table class B { @Table class C { } }").toList))]
  cwd := []

theorem sound_lendingSources : lendingSources.Sound where
  tree := .dir (by decide) (by simpa using by decide) (by simpa using .file _)
  isDir := rfl

/-- The heads of the class blocks in the files of the roots, each with its depth. -/
def headRows (scan : Nesting.Scan) : List (List (Nat × ClassHead)) :=
  scan.graph.roots.map fun r =>
    ((plan twinSettings lendingSources "2024-01-01").block scan.graph scan.columnsOf r).heads 0

theorem headRows_lendingSources : ∃ scan, (twinSettings.scan lendingSources).value = .ok scan ∧ headRows scan =
    [[(0, ⟨"Column_", "Column", []⟩)], [(0, ⟨"A__", "A_", []⟩), (1, ⟨"A_", "A_.A", []⟩)],
      [(0, ⟨"B_", "B", []⟩), (1, ⟨"C_", "B.C", []⟩)]] := by
  have rows : (twinSettings.scan lendingSources).value.map headRows = .ok
      [[(0, ⟨"Column_", "Column", []⟩)], [(0, ⟨"A__", "A_", []⟩), (1, ⟨"A_", "A_.A", []⟩)],
        [(0, ⟨"B_", "B", []⟩), (1, ⟨"C_", "B.C", []⟩)]] := by
    decide +kernel
  cases found : (twinSettings.scan lendingSources).value with
  | error f =>
    rw [found] at rows
    cases rows
  | ok scan =>
    rw [found] at rows
    exact ⟨scan, rfl, Except.ok.inj rows⟩

theorem classLiterals_captured_iff_lending :
    let plan := plan twinSettings lendingSources "2024-01-01"
    lendingSources.Sound ∧ ∃ scan, (twinSettings.scan lendingSources).value = .ok scan ∧ ∃ r ∈ scan.graph.roots,
      let block := plan.block scan.graph scan.columnsOf r
      (1, ⟨"C_", "B.C", []⟩) ∈ block.heads 0 ∧
        ∀ depth h, (depth, h) ∈ block.heads 0 → ¬ block.Captures (Text.firstPiece '.' h.classLiteral) := by
  obtain ⟨scan, found, rows⟩ := headRows_lendingSources
  obtain ⟨r, root, heads⟩ := List.mem_map.mp
    (show [(0, ⟨"B_", "B", []⟩), (1, ⟨"C_", "B.C", []⟩)] ∈ headRows scan by simp [rows])
  obtain ⟨-, literals⟩ := classLiterals_captured_iff twinSettings "2024-01-01" sound_lendingSources found r root
  have outermost : r.decl.outermost = "B" := by
    obtain ⟨-, ⟨p, -, -, first, around⟩, -⟩ := literals 0 ⟨"B_", "B", []⟩ (by rw [heads]; decide)
    exact around.symm.trans (first.symm.trans (by decide))
  refine ⟨sound_lendingSources, scan, found, r, root, by rw [heads]; decide, fun depth h mem captured => ?_⟩
  rcases (literals depth h mem).2.2.mp captured with imported | ⟨q, -, named⟩
  · exact absurd (outermost ▸ imported) (by decide)
  · -- the name of a class ends with an underscore, and `B` does not
    have last := congrArg (fun name => name.toList.getLast?) (named.trans outermost)
    simp at last

/-- An import captures the class literal of one root, and the class of an entity captures those in the file of
another. -/
theorem classLiterals_captured :
    let plan := plan twinSettings lendingSources "2024-01-01"
    lendingSources.Sound ∧ ∃ scan, (twinSettings.scan lendingSources).value = .ok scan ∧
      ∀ name ∈ ["Column", "A_"], ∃ r ∈ scan.graph.roots,
        let block := plan.block scan.graph scan.columnsOf r
        ∃ h, (0, h) ∈ block.heads 0 ∧ h.classLiteral = name ++ ".class" ∧ Text.firstPiece '.' h.classLiteral = name ∧
          block.Captures name := by
  obtain ⟨scan, found, rows⟩ := headRows_lendingSources
  obtain ⟨r, root, heads⟩ := List.mem_map.mp
    (show [(0, ⟨"Column_", "Column", []⟩)] ∈ headRows scan by simp [rows])
  obtain ⟨r', root', heads'⟩ := List.mem_map.mp
    (show [(0, ⟨"A__", "A_", []⟩), (1, ⟨"A_", "A_.A", []⟩)] ∈ headRows scan by simp [rows])
  refine ⟨sound_lendingSources, scan, found, fun name among => ?_⟩
  rcases List.mem_cons.mp among with rfl | among
  · refine ⟨r, root, ⟨"Column_", "Column", []⟩, by rw [heads]; decide, rfl, by decide, .inl ?_⟩
    rw [simpleNames_importedTypes]
    decide
  · obtain rfl := List.mem_singleton.mp among
    refine ⟨r', root', ⟨"A__", "A_", []⟩, by rw [heads']; decide, rfl, by decide, .inr ?_⟩
    exact ⟨1, ⟨"A_", "A_.A", []⟩, by rw [heads']; decide, rfl⟩

end Run

end EntityAtlas
