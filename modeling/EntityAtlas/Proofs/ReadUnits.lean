import EntityAtlas.Java.Source
import EntityAtlas.Proofs.Places
import EntityAtlas.Proofs.Records

/-!
# Units that are read

Both readers go down a syntax tree from the types on the outermost level. What the source shares and the names of the
declarations around are handed down to every declaration, and the declarations are made in the order of the nodes that
they are read off. A walk over the unit finds each of them once, in that order.
-/

namespace EntityAtlas

/-! ## Where declarations stand -/

namespace CompilationUnit

/-- A declaration stands in a unit inside some others, which are told from the outermost one on, at the numbers that
these and it have among the declarations beside them. -/
inductive Stands (u : CompilationUnit) : (around : List Decl) → (trail : List Nat) → Decl → Prop where
  | outermost {i : Nat} {d : Decl} (listed : u.types[i]? = some d) : Stands u [] [i] d
  | inside {around : List Decl} {trail : List Nat} {p : Decl} (stands : Stands u around trail p) {i : Nat} {d : Decl}
    (listed : p.nestedTypes[i]? = some d) : Stands u (around ++ [p]) (trail ++ [i]) d

end CompilationUnit

namespace Placed

/-- What holds of declarations at their numbers and is kept on the way down holds of what a walk finds. -/
theorem holds_of_mem_ofItems {motive : List Nat → Decl → Prop}
    (down : ∀ {trail p i d}, motive trail p → p.nestedTypes[i]? = some d → motive (trail ++ [i]) d) {file : String}
    {trail : List Nat} {k : Nat} (h : Head) {items : List Item}
    (top : ∀ i d, (Decl.mk h items).nestedTypes[i]? = some d → motive (trail ++ [k + i]) d) {p : Placed}
    (mem : p ∈ ofItems file trail k items) : motive p.trail p.decl := by
  induction items using Item.list_induction generalizing trail k h with
  | nil => simp at mem
  | field f rest ih => exact ih h top mem
  | type head is rest ihInside ihAfter =>
    have first : motive (trail ++ [k]) ⟨head, is⟩ := top 0 _ rfl
    rcases List.mem_cons.mp mem with rfl | mem
    · exact first
    rcases List.mem_append.mp mem with mem | mem
    · exact ihInside head (fun i d listed => by simpa using down first listed) mem
    · refine ihAfter h (fun i d listed => ?_) mem
      have later := top (i + 1) d (by simpa [Decl.nestedTypes] using listed)
      rwa [Nat.add_comm i 1, ← Nat.add_assoc] at later

end Placed

namespace CompilationUnit

variable {u : CompilationUnit}

theorem nestedTypes_types (u : CompilationUnit) (head : Head) :
    (Decl.mk head (u.types.map Decl.toItem)).nestedTypes = u.types := by
  simp only [Decl.nestedTypes, List.filterMap_map]
  exact List.filterMap_some

theorem Stands.mem_walk {around : List Decl} {trail : List Nat} {d : Decl} (stands : u.Stands around trail d)
    (file : String) : ⟨file, trail, d⟩ ∈ u.walk file := by
  induction stands with
  | @outermost i d listed =>
    have numbered : (d, i) ∈ (Decl.mk default (u.types.map Decl.toItem)).nestedTypes.zipIdx := by
      rw [nestedTypes_types]
      exact List.mk_mem_zipIdx_iff_getElem?.mpr listed
    exact Placed.mem_ofItems_of_mem_zipIdx numbered
  | @inside around trail p _ i d listed ih =>
    refine Placed.mem_ofItems_of_mem_children ih ?_
    exact List.mem_map.mpr ⟨(d, i), List.mk_mem_zipIdx_iff_getElem?.mpr listed, rfl⟩

/-- A walk finds what stands in the unit, each declaration at its place. -/
theorem mem_walk_iff (u : CompilationUnit) (file : String) (p : Placed) :
    p ∈ u.walk file ↔ p.file = file ∧ ∃ around, u.Stands around p.trail p.decl := by
  constructor
  · intro mem
    refine ⟨(Placed.trail_of_mem_ofItems mem).1, ?_⟩
    refine Placed.holds_of_mem_ofItems (motive := fun trail d => ∃ around, u.Stands around trail d) ?_ default ?_ mem
    · rintro trail p i d ⟨around, stands⟩ listed
      exact ⟨_, stands.inside listed⟩
    · intro i d listed
      rw [nestedTypes_types] at listed
      simpa using ⟨[], Stands.outermost listed⟩
  · rintro ⟨rfl, around, stands⟩
    exact stands.mem_walk p.file

end CompilationUnit

/-! ## What is handed down -/

namespace Item

/-- Every declaration among members, at any depth, is told the package and the names around it, of which `around` are
the first. -/
inductive Within (package : Option String) : (around : List String) → List Item → Prop where
  | nil {around} : Within package around []
  | field {around rest} (f : Field) (others : Within package around rest) : Within package around (.field f :: rest)
  | type {around h is rest} (told : h.package = package ∧ h.enclosing = around)
    (inside : Within package (around ++ [h.name]) is) (others : Within package around rest) :
    Within package around (.type h is :: rest)

namespace Within

variable {package : Option String} {around : List String} {items items' : List Item}

theorem append (within : Within package around items) (within' : Within package around items') :
    Within package around (items ++ items') := by
  induction within with
  | nil => exact within'
  | field f others ih => exact .field f (ih within')
  | type told inside others _ ih => exact .type told inside (ih within')

theorem fields (fs : List Field) : Within package around (fs.map .field) := by
  induction fs with
  | nil => exact .nil
  | cons f fs ih => exact .field f ih

/-- Without its fields a list of members tells the same names. -/
theorem declarations (within : Within package around items) (toDecl? : Item → Option Decl)
    (isField : ∀ f, toDecl? (.field f) = none) (isType : ∀ h is, toDecl? (.type h is) = some ⟨h, is⟩) :
    Within package around ((items.filterMap toDecl?).map Decl.toItem) := by
  induction within with
  | nil => exact .nil
  | field f others ih => simpa [isField] using ih
  | type told inside others _ ih => simpa [isType, Decl.toItem] using .type told inside ih

/-- What stands among members is told the names around it, and hands them down together with its own. -/
theorem of_mem_nestedTypes (within : Within package around items) {h : Head} {d : Decl}
    (mem : d ∈ (Decl.mk h items).nestedTypes) :
    d.head.package = package ∧ d.head.enclosing = around ∧ Within package (around ++ [d.name]) d.items := by
  induction within with
  | nil => cases mem
  | field f others ih => exact ih mem
  | type told inside others _ ih =>
    rcases List.mem_cons.mp mem with rfl | mem
    · exact ⟨told.1, told.2, inside⟩
    · exact ih mem

end Within

/-- The heads of the declarations among members, at any depth, in the order of a walk. -/
def heads (items : List Item) : List Head :=
  (Placed.ofItems "" [] 0 items).map (·.decl.head)

theorem map_head_ofItems (file : String) (trail : List Nat) (k : Nat) (items : List Item) :
    (Placed.ofItems file trail k items).map (·.decl.head) = heads items := by
  rw [heads]
  generalize "" = file', ([] : List Nat) = trail', 0 = k'
  induction items using Item.list_induction generalizing trail trail' k k' with
  | nil => rfl
  | field f rest ih => exact ih ..
  | type h is rest ihInside ihAfter =>
    simp only [Placed.ofItems_type, List.map_cons, List.map_append]
    rw [ihInside _ _ (trail' ++ [k']) 0, ihAfter _ _ trail' (k' + 1)]

@[simp] theorem heads_nil : heads [] = [] := rfl

@[simp] theorem heads_field (f : Field) (rest : List Item) : heads (.field f :: rest) = heads rest := rfl

@[simp] theorem heads_type (h : Head) (is rest : List Item) :
    heads (.type h is :: rest) = h :: (heads is ++ heads rest) := by
  rw [heads, Placed.ofItems_type, List.map_cons, List.map_append, map_head_ofItems, map_head_ofItems]

@[simp] theorem heads_append (items items' : List Item) : heads (items ++ items') = heads items ++ heads items' := by
  induction items using Item.list_induction with
  | nil => rfl
  | field f rest ih => exact ih
  | type h is rest ihInside ihAfter => simp [ihAfter]

theorem heads_fields (fs : List Field) : heads (fs.map .field) = [] := by
  induction fs with
  | nil => rfl
  | cons f fs ih => exact ih

/-- Without its fields a list of members declares what it declared before. -/
theorem heads_declarations (items : List Item) (toDecl? : Item → Option Decl)
    (isField : ∀ f, toDecl? (.field f) = none) (isType : ∀ h is, toDecl? (.type h is) = some ⟨h, is⟩) :
    heads ((items.filterMap toDecl?).map Decl.toItem) = heads items := by
  induction items using Item.list_induction with
  | nil => rfl
  | field f rest ih => rw [List.filterMap_cons_none (isField f), ih, heads_field]
  | type h is rest ihInside ihAfter =>
    rw [List.filterMap_cons_some (isType h is), List.map_cons, Decl.toItem, heads_type, ihAfter, heads_type]

/-- What a reader makes of nodes for a unit: the package, the imports and the path of the unit and the names around are
handed down, and the declarations are some of those that the nodes tell of, in their order. -/
structure HandsDown (u : CompilationUnit) (around : List String) (types : List (TypeKind × String))
    (items : List Item) : Prop where
  within : Within u.package around items
  shared : ∀ h ∈ heads items, h.imports = u.imports ∧ h.sourceFile = u.path
  order : ((heads items).map fun h => (h.kind, h.name)).Sublist types

namespace HandsDown

variable {u : CompilationUnit} {around : List String} {types types' : List (TypeKind × String)}
  {items items' : List Item}

theorem nil : HandsDown u around types [] :=
  ⟨.nil, by simp, List.nil_sublist _⟩

theorem fields (fs : List Field) : HandsDown u around types (fs.map .field) where
  within := .fields fs
  shared := by simp [heads_fields]
  order := by simp [heads_fields]

theorem mono (down : HandsDown u around types items) (more : types.Sublist types') :
    HandsDown u around types' items :=
  ⟨down.within, down.shared, down.order.trans more⟩

theorem type {h : Head} {row : TypeKind × String} (tells : row = (h.kind, h.name))
    (told : h.package = u.package ∧ h.enclosing = around) (shares : h.imports = u.imports ∧ h.sourceFile = u.path)
    (inside : HandsDown u (around ++ [h.name]) types items) :
    HandsDown u around (row :: types) [.type h items] where
  within := .type told inside.within .nil
  shared := by simpa [shares] using inside.shared
  order := by simpa [tells] using inside.order

theorem append (down : HandsDown u around types items) (down' : HandsDown u around types' items') :
    HandsDown u around (types ++ types') (items ++ items') where
  within := down.within.append down'.within
  shared h mem := by
    rw [heads_append] at mem
    exact (List.mem_append.mp mem).elim (down.shared h) (down'.shared h)
  order := by
    rw [heads_append, List.map_append]
    exact down.order.append down'.order

theorem declarations (down : HandsDown u around types items) (toDecl? : Item → Option Decl)
    (isField : ∀ f, toDecl? (.field f) = none) (isType : ∀ h is, toDecl? (.type h is) = some ⟨h, is⟩) :
    HandsDown u around types ((items.filterMap toDecl?).map Decl.toItem) where
  within := down.within.declarations toDecl? isField isType
  shared := heads_declarations items toDecl? isField isType ▸ down.shared
  order := heads_declarations items toDecl? isField isType ▸ down.order

end HandsDown

end Item

/-! ## Leniently read sources -/

namespace Java.Tree

/-- The kind and the name of the type that a node declares. -/
def declaredType? (t : Tree) : Option (TypeKind × String) :=
  match declaredKind? t.kind, t.child? .name with
  | some kind, some n => some (kind, n.text)
  | _, _ => none

/-- The unit of a source before its types are read. -/
def Setting.unit (setting : Setting) : CompilationUnit :=
  ⟨setting.sourceFile, setting.package, setting.imports, []⟩

mutual

theorem handsDown_members (setting : Setting) (around : List String) : ∀ t : Tree,
    Item.HandsDown setting.unit around (t.subtrees.filterMap declaredType?) (members setting around t).1
  | .leaf .. => .nil
  | .node r k f cs => by
    simp only [members]
    split
    · exact .fields _
    split
    · rename_i kind n declares named
      split
      -- a record that is no part of the language leaves nothing, which is in order as well
      · exact .nil
      · have own : (Tree.node r k f cs).declaredType? = some (kind, n.text) := by
          simp [declaredType?, Tree.kind, declares, named]
        rw [subtrees, List.filterMap_cons_some own]
        exact .type rfl ⟨rfl, rfl⟩ ⟨rfl, rfl⟩ (handsDown_bodyMembers setting _ cs)
    · exact .nil

theorem handsDown_bodyMembers (setting : Setting) (around : List String) : ∀ ts : List Tree,
    Item.HandsDown setting.unit around ((subtreesAll ts).filterMap declaredType?) (bodyMembers setting around ts).1
  | [] => .nil
  | t :: ts => by
    rw [subtreesAll, List.filterMap_append]
    unfold bodyMembers
    split
    · exact .nil
    · rename_i k f cs _ same
      cases same
      refine (handsDown_partMembers setting around cs).mono ?_
      exact ((subtreesAll_children_sublist (.node .body k f cs)).filterMap _).trans (List.sublist_append_left _ _)
    · rename_i same
      cases same
      exact (handsDown_bodyMembers setting around ts).mono (List.sublist_append_right _ _)

theorem handsDown_partMembers (setting : Setting) (around : List String) : ∀ ts : List Tree,
    Item.HandsDown setting.unit around ((subtreesAll ts).filterMap declaredType?) (partMembers setting around ts).1
  | [] => .nil
  | t :: ts => by
    have rest := handsDown_partMembers setting around ts
    rw [subtreesAll, List.filterMap_append]
    unfold partMembers
    split
    · exact .nil
    · rename_i r f cs _ same
      cases same
      -- the members of an enum lie one level deeper in the tree, but inside the same declaration
      refine ((handsDown_allMembers setting around cs).mono ?_).append rest
      exact (subtreesAll_children_sublist (.node r .enumBodyDeclarations f cs)).filterMap _
    · rename_i same
      cases same
      exact (handsDown_members setting around t).append rest

theorem handsDown_allMembers (setting : Setting) (around : List String) : ∀ ts : List Tree,
    Item.HandsDown setting.unit around ((subtreesAll ts).filterMap declaredType?) (allMembers setting around ts).1
  | [] => .nil
  | t :: ts => by
    rw [subtreesAll, List.filterMap_append]
    exact (handsDown_members setting around t).append (handsDown_allMembers setting around ts)

end

end Java.Tree

/-! ## Strictly read sources -/

namespace Java.Strict.Node

mutual

/-- The node and all nodes in it, a node before its parts and the items of a list in their order. -/
def subnodes : Node → List Node
  | .list ns => .list ns :: subnodesAll ns
  | .node k ps => .node k ps :: subnodesOfParts ps
  | n => [n]

/-- Several nodes and all nodes in them. -/
def subnodesAll : List Node → List Node
  | [] => []
  | n :: ns => subnodes n ++ subnodesAll ns

/-- The parts of a node and all nodes in them. -/
def subnodesOfParts : List (String × Node) → List Node
  | [] => []
  | (_, n) :: ps => subnodes n ++ subnodesOfParts ps

end

/-- The kind and the name of the type that a node declares. -/
def declaredType? (n : Node) : Option (TypeKind × String) :=
  n.declared?.map fun (kind, _) => (kind, n.declaredName)

/-- The unit of a source before its types are read. -/
def Setting.unit (setting : Setting) : CompilationUnit :=
  ⟨setting.sourceFile, setting.package, setting.imports, []⟩

mutual

theorem handsDown_members (setting : Setting) (around : List String) : ∀ n : Node,
    Item.HandsDown setting.unit around (n.subnodes.filterMap declaredType?) (members setting around n)
  | .node k ps => by
    simp only [members]
    split
    · exact .fields _
    split
    · rename_i kind shape declares
      have own : (Node.node k ps).declaredType? = some (kind, (Node.node k ps).declaredName) := by
        simp [declaredType?, declares]
      rw [subnodes, List.filterMap_cons_some own]
      exact .type rfl ⟨rfl, rfl⟩ ⟨rfl, rfl⟩ (handsDown_bodyMembers setting _ ps)
    · exact .nil
  | .absent | .flag _ | .text _ | .list _ | .words _ | .keyword _ => .nil

theorem handsDown_bodyMembers (setting : Setting) (around : List String) : ∀ ps : List (String × Node),
    Item.HandsDown setting.unit around ((subnodesOfParts ps).filterMap declaredType?) (bodyMembers setting around ps)
  | [] => .nil
  | (part, n) :: ps => by
    simp only [bodyMembers]
    rw [subnodesOfParts, List.filterMap_append]
    split
    · exact (handsDown_heldMembers setting around n).mono (List.sublist_append_left _ _)
    · exact (handsDown_bodyMembers setting around ps).mono (List.sublist_append_right _ _)

theorem handsDown_heldMembers (setting : Setting) (around : List String) : ∀ n : Node,
    Item.HandsDown setting.unit around (n.subnodes.filterMap declaredType?) (heldMembers setting around n)
  | .list ns => (handsDown_allMembers setting around ns).mono ((List.sublist_cons_self _ _).filterMap _)
  | .node _ ps => (handsDown_declaredMembers setting around ps).mono ((List.sublist_cons_self _ _).filterMap _)
  | .absent | .flag _ | .text _ | .words _ | .keyword _ => .nil

theorem handsDown_declaredMembers (setting : Setting) (around : List String) : ∀ ps : List (String × Node),
    Item.HandsDown setting.unit around ((subnodesOfParts ps).filterMap declaredType?)
      (declaredMembers setting around ps)
  | [] => .nil
  | (part, n) :: ps => by
    simp only [declaredMembers]
    rw [subnodesOfParts, List.filterMap_append]
    split
    · exact (handsDown_heldMembers setting around n).mono (List.sublist_append_left _ _)
    · exact (handsDown_declaredMembers setting around ps).mono (List.sublist_append_right _ _)

theorem handsDown_allMembers (setting : Setting) (around : List String) : ∀ ns : List Node,
    Item.HandsDown setting.unit around ((subnodesAll ns).filterMap declaredType?) (allMembers setting around ns)
  | [] => .nil
  | n :: ns => by
    rw [subnodesAll, List.filterMap_append]
    exact (handsDown_members setting around n).append (handsDown_allMembers setting around ns)

end

end Java.Strict.Node

/-! ## Whole units -/

/-- The names around a declaration that stands in a unit are those of the declarations around it. -/
theorem CompilationUnit.Stands.within {u : CompilationUnit} {package : Option String}
    (within : Item.Within package [] (u.types.map Decl.toItem)) {around : List Decl} {trail : List Nat} {d : Decl}
    (stands : u.Stands around trail d) :
    d.head.package = package ∧ d.head.enclosing = around.map Decl.name ∧
      Item.Within package (around.map Decl.name ++ [d.name]) d.items := by
  induction stands with
  | @outermost i d listed =>
    refine within.of_mem_nestedTypes (h := default) ?_
    rw [nestedTypes_types]
    exact List.mem_of_getElem? listed
  | @inside around trail p _ i d listed ih =>
    rw [List.map_append]
    exact ih.2.2.of_mem_nestedTypes (h := p.head) (List.mem_of_getElem? listed)

theorem Decl.nestedName_of_enclosing {p d : Decl} (inside : d.head.enclosing = p.head.enclosing ++ [p.name]) :
    d.nestedName = p.nestedName ++ "." ++ d.name := by
  rw [nestedName, inside, String.intercalate_append_of_ne_nil (by simp) (by simp), String.intercalate_singleton,
    nestedName]

namespace Java.Outline

/-- The kinds and the names of the types that the nodes of a syntax tree declare, a node coming before its parts and
these in their order. -/
def declaredTypes (parser : Parser) (level : Level) (cs : List Char) : List (TypeKind × String) :=
  match level.reader with
  | .strict =>
    match Strict.Source.ofChars cs with
    | .ok source => (Strict.Node.subnodesAll source.types).filterMap Strict.Node.declaredType?
    | .error _ => []
  | .lenient _ => (parser.tree cs).subtrees.filterMap Tree.declaredType?

variable {parser : Parser} {level : Level} {path : Option String} {cs : List Char} {outline : Outline}

theorem path_of_ofSource (reads : ofSource parser level path cs = .ok outline) : outline.unit.path = path := by
  rw [ofSource] at reads
  split at reads
  · cases parsed : Strict.Source.ofChars cs with
    | error f => simp [parsed, Except.map] at reads
    | ok source =>
      obtain rfl : ⟨source.toUnit path, []⟩ = outline := by simpa [parsed, Except.map] using reads
      rfl
  · cases reads
    rfl

theorem handsDown_ofSource (reads : ofSource parser level path cs = .ok outline) :
    Item.HandsDown outline.unit [] (declaredTypes parser level cs) (outline.unit.types.map Decl.toItem) := by
  rw [ofSource] at reads
  rw [declaredTypes]
  cases reader : level.reader with
  | strict =>
    cases parsed : Strict.Source.ofChars cs with
    | error f => simp [reader, parsed, Except.map] at reads
    | ok source =>
      obtain rfl : ⟨source.toUnit path, []⟩ = outline := by simpa [reader, parsed, Except.map] using reads
      refine .declarations ?_ _ (fun _ => rfl) (fun _ _ => rfl)
      let setting : Strict.Node.Setting := ⟨source.package, source.importNames, path⟩
      obtain ⟨within, shared, order⟩ := Strict.Node.handsDown_allMembers setting [] source.types
      exact ⟨within, shared, order⟩
  | lenient records =>
    obtain rfl : ofTree records path (parser.tree cs) = outline := by simpa [reader] using reads
    refine .declarations ?_ _ (fun _ => rfl) (fun _ _ => rfl)
    let root := parser.tree cs
    let setting : Tree.Setting := ⟨root.package?, root.children.filterMap Tree.import?, path, records⟩
    obtain ⟨within, shared, order⟩ := Tree.handsDown_allMembers setting [] _
    refine ⟨within, shared, order.trans (List.Sublist.filterMap _ ?_)⟩
    exact (Tree.subtreesAll_filter_sublist _ _).trans (Tree.subtreesAll_children_sublist root)

/-- In the unit of a source every declaration, however deep it stands, has the package and the imports of the unit and
the path that the source was read with, and the names around it are those of the declarations around it, outermost
first. So the nested name of what stands directly inside a declaration is the declaration's nested name, a dot and a
name. A walk finds what stands in the unit, in the strict order of the places: each declaration once, before all that is
inside it, and after what is beside it with a lower number. This is the order in which the nodes of the syntax tree
declare the types, as the source has them. -/
theorem ofSource_hands_down (reads : ofSource parser level path cs = .ok outline) :
    let u := outline.unit
    u.path = path ∧
      (∀ around trail d, u.Stands around trail d →
        d.head.package = u.package ∧ d.head.imports = u.imports ∧ d.head.sourceFile = u.path ∧
          d.head.enclosing = around.map Decl.name) ∧
      (∀ around trail p, u.Stands around trail p → ∀ d ∈ p.nestedTypes,
        d.nestedName = p.nestedName ++ "." ++ d.name) ∧
      ∀ file, (∀ p, p ∈ u.walk file ↔ p.file = file ∧ ∃ around, u.Stands around p.trail p.decl) ∧
        (u.walk file).Pairwise (fun p q => p.trail < q.trail) ∧
        ((u.walk file).map fun p => (p.decl.head.kind, p.decl.name)).Sublist (declaredTypes parser level cs) := by
  intro u
  have down := handsDown_ofSource reads
  refine ⟨path_of_ofSource reads, fun around trail d stands => ?_, fun around trail p stands d mem => ?_,
    fun file => ⟨u.mem_walk_iff file, ?_, ?_⟩⟩
  · obtain ⟨package, enclosing, -⟩ := stands.within down.within
    have walked : d.head ∈ Item.heads (u.types.map Decl.toItem) := List.mem_map_of_mem (stands.mem_walk "")
    obtain ⟨imports, sourceFile⟩ := down.shared d.head walked
    exact ⟨package, imports, sourceFile, enclosing⟩
  · obtain ⟨-, enclosing, inside⟩ := stands.within down.within
    have below := (inside.of_mem_nestedTypes (h := p.head) mem).2.1
    exact Decl.nestedName_of_enclosing (enclosing ▸ below)
  · exact List.pairwise_map.mp (Placed.ascending_trails file [] 0 _)
  · have rows : (u.walk file).map (fun p => (p.decl.head.kind, p.decl.name)) =
        (Item.heads (u.types.map Decl.toItem)).map fun h => (h.kind, h.name) := by
      rw [← Item.map_head_ofItems file [] 0, List.map_map]
      rfl
    rw [rows]
    exact down.order

/-- A class with an enum and an interface inside, the enum with a class inside, and a class beside it. -/
def nestedSource : String :=
  "package p; import q.R; class A { int a; enum E { X; class C { } } interface I { } } class B { }"

theorem ofSource_hands_down_nested :
    ∃ outline, ofSource .standard .java8 (some "A.java") nestedSource.toList = .ok outline ∧
      let u := outline.unit
      (u.walk "A.java").map (fun p => (p.trail, p.decl.nestedName)) =
          [([0], "A"), ([0, 0], "A.E"), ([0, 0, 0], "A.E.C"), ([0, 1], "A.I"), ([1], "B")] ∧
        u.package = some "p" ∧ u.imports = ["q.R"] ∧
        (∀ around trail d, u.Stands around trail d →
          d.head.package = u.package ∧ d.head.imports = u.imports ∧ d.head.sourceFile = u.path ∧
            d.head.enclosing = around.map Decl.name) ∧
        (u.walk "A.java").Pairwise (fun p q => p.trail < q.trail) ∧
        ((u.walk "A.java").map fun p => (p.decl.head.kind, p.decl.name)).Sublist
          (declaredTypes .standard .java8 nestedSource.toList) := by
  have runs : (ofSource .standard .java8 (some "A.java") nestedSource.toList).toOption.any (fun outline =>
      let u := outline.unit
      decide ((u.walk "A.java").map (fun p => (p.trail, p.decl.nestedName)) =
          [([0], "A"), ([0, 0], "A.E"), ([0, 0, 0], "A.E.C"), ([0, 1], "A.I"), ([1], "B")] ∧
        u.package = some "p" ∧ u.imports = ["q.R"])) = true := by
    decide +kernel
  cases reads : ofSource .standard .java8 (some "A.java") nestedSource.toList with
  | error f =>
    rw [reads] at runs
    cases runs
  | ok outline =>
    rw [reads] at runs
    obtain ⟨found, package, imports⟩ := of_decide_eq_true runs
    obtain ⟨-, told, -, walks⟩ := ofSource_hands_down reads
    obtain ⟨-, ascends, order⟩ := walks "A.java"
    exact ⟨outline, rfl, found, package, imports, told, ascends, order⟩

end Java.Outline

end EntityAtlas
