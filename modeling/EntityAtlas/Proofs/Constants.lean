import EntityAtlas.Proofs.Traversals

/-!
# Constants of a class block

Two columns may have names that make the same constant. A class block has the constant once, for the first of them, so
a later one has no constant. The table of the entity is kept in a static field of a name of its own, `TABLE_`, which is
not among the names that the constants are compared with.
-/

namespace EntityAtlas.Generate

/-- The constants of one name: the first column that makes it has it, unless it is there already. -/
theorem filter_constantsFrom (seen columns : List String) (name : String) :
    (constantsFrom seen columns).filter (·.1 == name) =
      if seen.contains name then []
      else ((columns.find? fun f => Naming.constant f == name).map fun f => (name, f)).toList := by
  induction columns generalizing seen with
  | nil => simp [constantsFrom]
  | cons f columns ih =>
    rw [constantsFrom]
    by_cases met : seen.contains (Naming.constant f) = true
    · rw [if_pos met, ih]
      by_cases named : Naming.constant f = name
      · rw [← named, if_pos met, if_pos met]
      · rw [List.find?_cons_of_neg (by simpa using named)]
    · rw [if_neg met]
      by_cases named : Naming.constant f = name
      · subst named
        rw [List.filter_cons_of_pos (by simp), ih, if_pos (by simp), if_neg met, List.find?_cons_of_pos (by simp)]
        rfl
      · have others : (Naming.constant f :: seen).contains name = seen.contains name := by
          simp [Ne.symm named]
        rw [List.filter_cons_of_neg (by simpa using named), ih, others, List.find?_cons_of_neg (by simpa using named)]

/-- The constants of one name: the first column that makes it has it. -/
theorem filter_constants (columns : List String) (name : String) :
    (constants columns).filter (·.1 == name) =
      ((columns.find? fun f => Naming.constant f == name).map fun f => (name, f)).toList :=
  filter_constantsFrom [] columns name

/-- A constant stands for a column and is named after it. -/
theorem of_mem_constants {columns : List String} {name f : String} (mem : (name, f) ∈ constants columns) :
    f ∈ columns ∧ Naming.constant f = name := by
  have named : (name, f) ∈ (constants columns).filter (·.1 == name) := by simpa using mem
  rw [filter_constants, Option.mem_toList, Option.map_eq_some_iff] at named
  obtain ⟨first, found, same⟩ := named
  obtain rfl : first = f := congrArg Prod.snd same
  exact ⟨List.mem_of_find?_eq_some found, by simpa using List.find?_some found⟩

theorem nodup_constants (columns : List String) : ((constants columns).map (·.1)).Nodup := by
  rw [List.nodup_iff_count_le_one]
  intro name
  have named : List.count name ((constants columns).map (·.1)) = ((constants columns).filter (·.1 == name)).length := by
    rw [List.count, List.countP_map, List.countP_eq_length_filter]
    rfl
  rw [named, filter_constants]
  cases columns.find? fun f => Naming.constant f == name <;> simp

/-- The constants that a block has are those that the columns make. -/
theorem mem_map_constants {columns : List String} {name : String} :
    name ∈ (constants columns).map (·.1) ↔ ∃ f ∈ columns, Naming.constant f = name := by
  constructor
  · intro mem
    obtain ⟨c, there, rfl⟩ := List.mem_map.mp mem
    exact ⟨c.2, of_mem_constants there⟩
  · rintro ⟨f, mem, named⟩
    obtain ⟨first, found⟩ := Option.isSome_iff_exists.mp
      (List.find?_isSome.mpr ⟨f, mem, beq_iff_eq.mpr named⟩ : (columns.find? (Naming.constant · == name)).isSome)
    have there : (name, first) ∈ (constants columns).filter (·.1 == name) := by
      rw [filter_constants, found]
      simp
    exact List.mem_map.mpr ⟨_, (List.mem_filter.mp there).1, rfl⟩

/-- A column has a constant if it is the first one that makes it. -/
theorem countP_constants {columns : List String} {f first : String}
    (found : (columns.find? fun f' => Naming.constant f' == Naming.constant f) = some first) :
    (constants columns).countP (·.2 == f) = if f = first then 1 else 0 := by
  have named : (constants columns).filter (·.2 == f) =
      ((constants columns).filter (·.1 == Naming.constant f)).filter (·.2 == f) := by
    rw [List.filter_filter]
    refine List.filter_congr fun c mem => ?_
    rw [← (of_mem_constants mem).2, Bool.eq_iff_iff, Bool.and_eq_true]
    refine (and_iff_left_of_imp fun same => ?_).symm
    rw [beq_iff_eq.mp same, beq_self_eq_true]
  rw [List.countP_eq_length_filter, named, filter_constants, found]
  by_cases same : f = first
  · simp [same]
  · simp [same, Ne.symm same]

namespace ClassHead

open EntityGraph (namedEntity)

/-- The block of an entity in the file of a root starts with the head of the entity, line by line. -/
theorem ofEntity_rendered (plan : Plan) (g : EntityGraph) (columnsOf : Placed → List String) {r p : Placed}
    {depth : Nat} (rendered : (depth, p) ∈ (g.treeFrom r).levels 0) :
    (depth, ofEntity plan.naming columnsOf p) ∈ (plan.block g columnsOf r).heads 0 ∧
      (ofEntity plan.naming columnsOf p).lines depth <:+: (plan.block g columnsOf r).lines 0 := by
  have mem : (depth, ofEntity plan.naming columnsOf p) ∈ (plan.block g columnsOf r).heads 0 := by
    rw [Plan.block, Block.heads_ofTree]
    exact List.mem_map_of_mem rendered
  exact ⟨mem, Block.headLines_within mem⟩

/-- The block of an entity has the constant of each of its columns once, for the first of the columns that make it: a
column has a constant of its own if no earlier column makes the same one, and none otherwise. -/
theorem constants_spec (plan : Plan) (g : EntityGraph) (columnsOf : Placed → List String) {r p : Placed}
    {depth : Nat} (rendered : (depth, p) ∈ (g.treeFrom r).levels 0) :
    let head := ofEntity plan.naming columnsOf p
    (depth, head) ∈ (plan.block g columnsOf r).heads 0 ∧
      head.lines depth <:+: (plan.block g columnsOf r).lines 0 ∧
      ∀ f ∈ columnsOf p, ∃ first,
        ((columnsOf p).find? fun f' => Naming.constant f' == Naming.constant f) = some first ∧
        head.constants.filter (·.1 == Naming.constant f) = [(Naming.constant f, first)] ∧
        head.constants.countP (·.2 == f) = if f = first then 1 else 0 := by
  obtain ⟨mem, written⟩ := ofEntity_rendered plan g columnsOf rendered
  refine ⟨mem, written, fun f column => ?_⟩
  obtain ⟨first, found⟩ := Option.isSome_iff_exists.mp (List.find?_isSome.mpr ⟨f, column, beq_self_eq_true _⟩ :
    ((columnsOf p).find? (Naming.constant · == Naming.constant f)).isSome)
  refine ⟨first, found, ?_, countP_constants found⟩
  rw [ofEntity, filter_constants, found]
  rfl

/-- A graph of one entity. -/
def lone : EntityGraph := .build [namedEntity "A"] []

theorem constants_spec_lone :
    let plan : Plan := ⟨.here, Naming.standard, "2024-01-01"⟩
    let columnsOf := fun _ : Placed => ["id", "fooBar", "id", "foo_bar"]
    let head := ofEntity plan.naming columnsOf (namedEntity "A")
    (0, namedEntity "A") ∈ (lone.treeFrom (namedEntity "A")).levels 0 ∧
      head.lines 0 <:+: (plan.block lone columnsOf (namedEntity "A")).lines 0 ∧
      head.constants.countP (·.2 == "id") = 1 := by
  intro plan columnsOf head
  have rendered : (0, namedEntity "A") ∈ (lone.treeFrom (namedEntity "A")).levels 0 := by
    decide +kernel
  obtain ⟨-, written, each⟩ := constants_spec plan lone columnsOf rendered
  obtain ⟨first, found, -, one⟩ := each "id" (by decide)
  obtain rfl : "id" = first := Option.some.inj found
  exact ⟨rendered, written, one⟩

/-- Of two columns that make the same constant the second one has none. -/
theorem no_constant_of_second :
    let plan : Plan := ⟨.here, Naming.standard, "2024-01-01"⟩
    let columnsOf := fun _ : Placed => ["fooBar", "foo_bar"]
    namedEntity "A" ∈ lone.roots ∧
      (plan.block lone columnsOf (namedEntity "A")).heads 0 = [(0, ⟨"A_", "A", [("FOO_BAR", "fooBar")]⟩)] := by
  decide +kernel

end ClassHead

/-- A static field that a class block declares. -/
structure StaticField where
  access : String
  type : String
  name : String
  value : String
  deriving DecidableEq, Repr

def StaticField.line (body : String) (f : StaticField) : String :=
  body ++ f.access ++ " static final " ++ f.type ++ " " ++ f.name ++ " = " ++ f.value ++ ";"

namespace ClassHead

open EntityGraph (namedEntity)

/-- The field that keeps the table. -/
def table (h : ClassHead) : StaticField :=
  ⟨"private", "Table", "TABLE_", Holder.name ++ ".getTable(" ++ h.entity ++ ".class)"⟩

/-- The field of a constant. -/
def column (c : String × String) : StaticField :=
  ⟨"public", "Column", c.1, "column(\"" ++ c.2 ++ "\")"⟩

/-- The static fields that the block declares itself, in their order. -/
def fields (h : ClassHead) : List StaticField :=
  h.table :: h.constants.map column

/-- The fields are written between the line that opens the class and the methods. -/
theorem lines_eq (h : ClassHead) (depth : Nat) :
    h.lines depth = (Block.opening depth h.name h.entity).take 2 ++
      h.table.line (Block.indent (depth + 1)) :: "" ::
        (h.constants.map fun c => (column c).line (Block.indent (depth + 1))) ++
      Block.methods depth h.name h.entity := by
  have own : Block.constantLine (Block.indent (depth + 1)) =
      fun c => (column c).line (Block.indent (depth + 1)) := by
    funext c
    have assign (value : String) : " = " ++ ("column(\"" ++ value) = " = column(\"" ++ value :=
      String.append_assoc.symm
    simp [Block.constantLine, StaticField.line, column, String.append_assoc, assign]
  simp [lines, own, Block.opening, StaticField.line, table, String.append_assoc]

/-- The static fields of a block, which stand between the line that opens the class and the methods, have names of their
own, if no column makes a constant that is named as the field of the table is. -/
theorem nodup_fields_iff (plan : Plan) (g : EntityGraph) (columnsOf : Placed → List String) {r p : Placed}
    {depth : Nat} (rendered : (depth, p) ∈ (g.treeFrom r).levels 0) :
    let head := ofEntity plan.naming columnsOf p
    (depth, head) ∈ (plan.block g columnsOf r).heads 0 ∧
      head.lines depth <:+: (plan.block g columnsOf r).lines 0 ∧
      head.lines depth = (Block.opening depth head.name head.entity).take 2 ++
        head.table.line (Block.indent (depth + 1)) :: "" ::
          (head.constants.map fun c => (column c).line (Block.indent (depth + 1))) ++
        Block.methods depth head.name head.entity ∧
      ((head.fields.map (·.name)).Nodup ↔ ∀ f ∈ columnsOf p, Naming.constant f ≠ "TABLE_") := by
  obtain ⟨mem, written⟩ := ofEntity_rendered plan g columnsOf rendered
  refine ⟨mem, written, lines_eq _ depth, ?_⟩
  have names : (ofEntity plan.naming columnsOf p).fields.map (·.name) =
      "TABLE_" :: (Generate.constants (columnsOf p)).map (·.1) := by
    rw [fields, List.map_cons, List.map_map]
    rfl
  rw [names, List.nodup_cons, and_iff_left (nodup_constants _), mem_map_constants]
  push Not
  rfl

theorem nodup_fields_iff_lone :
    let plan : Plan := ⟨.here, Naming.standard, "2024-01-01"⟩
    let columnsOf := fun _ : Placed => ["id", "table", "id"]
    let head := ofEntity plan.naming columnsOf (namedEntity "A")
    (0, namedEntity "A") ∈ (lone.treeFrom (namedEntity "A")).levels 0 ∧
      head.lines 0 <:+: (plan.block lone columnsOf (namedEntity "A")).lines 0 ∧
      (head.fields.map (·.name)).Nodup := by
  intro plan columnsOf head
  have rendered : (0, namedEntity "A") ∈ (lone.treeFrom (namedEntity "A")).levels 0 := by
    decide +kernel
  obtain ⟨-, written, -, apart⟩ := nodup_fields_iff plan lone columnsOf rendered
  exact ⟨rendered, written, apart.mpr (by decide +kernel)⟩

/-- A column may make the constant `TABLE_`; then a class has two fields of that name. -/
theorem fields_named_alike :
    let plan : Plan := ⟨.here, Naming.standard, "2024-01-01"⟩
    let columnsOf := fun _ : Placed => ["table_"]
    let head : ClassHead := ⟨"A_", "A", [("TABLE_", "table_")]⟩
    namedEntity "A" ∈ lone.roots ∧ (plan.block lone columnsOf (namedEntity "A")).heads 0 = [(0, head)] ∧
      ¬ (head.fields.map (·.name)).Nodup := by
  decide +kernel

end ClassHead

end EntityAtlas.Generate
