import EntityAtlas.Decl.Walk
import EntityAtlas.Java.Outline
import EntityAtlas.Java.Repair

/-!
# Levels without records

Where records are no part of the language, a source declares what it declares elsewhere, less its records and all that
lies inside them. Each record that lies in no other one is told, in the order of the source, after the problems of
syntax.
-/

namespace EntityAtlas

namespace Item

mutual

/-- A member without the records inside it; a record is left out itself. -/
def withoutRecords? : Item → Option Item
  | .field f => some (.field f)
  | .type h is => if h.kind = .recordKind then none else some (.type h (withoutRecords is))

/-- The members without the records among them and inside them. -/
def withoutRecords : List Item → List Item
  | [] => []
  | item :: rest => (withoutRecords? item).toList ++ withoutRecords rest

end

mutual

/-- The records at and inside a member that lie in no other record. -/
def outerRecordsAt : Item → List Decl
  | .field _ => []
  | .type h is => if h.kind = .recordKind then [⟨h, is⟩] else outerRecords is

/-- The records among members and inside them that lie in no other record. -/
def outerRecords : List Item → List Decl
  | [] => []
  | item :: rest => outerRecordsAt item ++ outerRecords rest

end

theorem withoutRecords_append (items items' : List Item) :
    withoutRecords (items ++ items') = withoutRecords items ++ withoutRecords items' := by
  induction items with
  | nil => rfl
  | cons item items ih => simp [withoutRecords, ih]

theorem outerRecords_append (items items' : List Item) :
    outerRecords (items ++ items') = outerRecords items ++ outerRecords items' := by
  induction items with
  | nil => rfl
  | cons item items ih => simp [outerRecords, ih]

theorem withoutRecords_fields (fs : List Field) : withoutRecords (fs.map .field) = fs.map .field := by
  induction fs with
  | nil => rfl
  | cons f fs ih => simp [withoutRecords, withoutRecords?, ih]

theorem outerRecords_fields (fs : List Field) : outerRecords (fs.map .field) = [] := by
  induction fs with
  | nil => rfl
  | cons f fs ih => simp [outerRecords, outerRecordsAt, ih]

end Item

/-- The declaration without the records inside it. -/
def Decl.withoutRecords (d : Decl) : Decl :=
  ⟨d.head, Item.withoutRecords d.items⟩

namespace CompilationUnit

/-- The unit without its records, wherever they are declared. -/
def withoutRecords (u : CompilationUnit) : CompilationUnit :=
  { u with types := (u.types.filter fun d => d.head.kind ≠ .recordKind).map Decl.withoutRecords }

/-- The records of a unit that lie in no other record. -/
def outerRecords (u : CompilationUnit) : List Decl :=
  Item.outerRecords (u.types.map Decl.toItem)

end CompilationUnit

namespace Java.Tree

mutual

/-- The tree and all its parts, in the order of the source. -/
def subtrees : Tree → List Tree
  | .leaf r k t => [.leaf r k t]
  | .node r k f cs => .node r k f cs :: subtreesAll cs

/-- Several trees and all their parts. -/
def subtreesAll : List Tree → List Tree
  | [] => []
  | t :: ts => subtrees t ++ subtreesAll ts

end

theorem self_mem_subtrees (t : Tree) : t ∈ t.subtrees := by
  cases t <;> simp [subtrees]

theorem subtreesAll_eq (ts : List Tree) : subtreesAll ts = ts.flatMap subtrees := by
  induction ts with
  | nil => rfl
  | cons t ts ih => rw [subtreesAll, ih, List.flatMap_cons]

theorem subtreesAll_children_sublist (t : Tree) : (subtreesAll t.children).Sublist t.subtrees := by
  cases t with
  | leaf r k t => exact List.nil_sublist _
  | node r k f cs => exact List.sublist_cons_self _ _

theorem subtreesAll_filter_sublist (p : Tree → Bool) (ts : List Tree) :
    (subtreesAll (ts.filter p)).Sublist (subtreesAll ts) := by
  induction ts with
  | nil => exact List.Sublist.refl _
  | cons t ts ih =>
    cases keeps : p t with
    | true =>
      rw [List.filter_cons_of_pos keeps]
      exact (List.Sublist.refl _).append ih
    | false =>
      rw [List.filter_cons_of_neg (by simp [keeps])]
      exact ih.trans (List.sublist_append_right _ _)

/-- The problem that tells of a record which is left out. -/
def recordProblem (t : Tree) (d : Decl) : Problem :=
  ⟨t.start, .unsupportedRecord d.name⟩

/-- A node that declares a record, and the record where records are part of the language. -/
def DeclaresRecord (setting : Setting) (t : Tree) (d : Decl) : Prop :=
  t.kind = .recordDeclaration ∧ (members setting d.head.enclosing t).1 = [d.toItem]

/-- What trees stand for without records: what they stand for with records, less these. The problems tell of the records
that lie in no other one, each with the node that declares it. -/
structure LeavesOut (setting : Setting) (trees : List Tree) (full short : List Item × List Problem) : Prop where
  sound : full.2 = []
  items : short.1 = Item.withoutRecords full.1
  told : ∃ rows : List (Tree × Decl), (rows.map Prod.fst).Sublist trees ∧
    rows.map Prod.snd = Item.outerRecords full.1 ∧ (∀ row ∈ rows, DeclaresRecord setting row.1 row.2) ∧
    short.2 = rows.map fun row => recordProblem row.1 row.2

namespace LeavesOut

variable {setting : Setting} {trees trees' : List Tree} {full short full' short' : List Item × List Problem}

theorem nil (setting : Setting) (trees : List Tree) : LeavesOut setting trees ([], []) ([], []) :=
  ⟨rfl, rfl, [], List.nil_sublist _, rfl, by simp, rfl⟩

theorem fields (setting : Setting) (trees : List Tree) (fs : List Field) :
    LeavesOut setting trees (fs.map .field, []) (fs.map .field, []) :=
  ⟨rfl, (Item.withoutRecords_fields fs).symm, [], List.nil_sublist _, (Item.outerRecords_fields fs).symm, by simp, rfl⟩

theorem append (first : LeavesOut setting trees full short) (second : LeavesOut setting trees' full' short') :
    LeavesOut setting (trees ++ trees') (full.1 ++ full'.1, full.2 ++ full'.2)
      (short.1 ++ short'.1, short.2 ++ short'.2) := by
  obtain ⟨rows, among, records, each, told⟩ := first.told
  obtain ⟨rows', among', records', each', told'⟩ := second.told
  refine ⟨by simp [first.sound, second.sound], ?_, rows ++ rows', ?_, ?_, ?_, by simp [told, told']⟩
  · rw [first.items, second.items, Item.withoutRecords_append]
  · rw [List.map_append]
    exact among.append among'
  · rw [List.map_append, records, records', Item.outerRecords_append]
  · intro row mem
    exact (List.mem_append.mp mem).elim (each row) (each' row)

theorem record {t : Tree} {d : Decl} (kind : d.head.kind = .recordKind) (declares : DeclaresRecord setting t d) :
    LeavesOut setting t.subtrees ([d.toItem], []) ([], [recordProblem t d]) := by
  refine ⟨rfl, ?_, [(t, d)], ?_, ?_, ?_, rfl⟩
  · simp [Decl.toItem, Item.withoutRecords, Item.withoutRecords?, kind]
  · cases t <;> simp [subtrees]
  · simp [Decl.toItem, Item.outerRecords, Item.outerRecordsAt, kind]
  · simpa using declares

theorem declaration {h : Head} {is is' : List Item} {left left' : List Problem} (other : h.kind ≠ .recordKind)
    (inside : LeavesOut setting trees (is, left) (is', left')) :
    LeavesOut setting trees ([.type h is], left) ([.type h is'], left') := by
  obtain ⟨sound, rfl, rows, among, records, rest⟩ := inside
  refine ⟨sound, ?_, rows, among, ?_, rest⟩
  · simp [Item.withoutRecords, Item.withoutRecords?, other]
  · simp [Item.outerRecords, Item.outerRecordsAt, other, records]

theorem mono (leavesOut : LeavesOut setting trees full short) (more : trees.Sublist trees') :
    LeavesOut setting trees' full short := by
  obtain ⟨rows, among, rest⟩ := leavesOut.told
  exact ⟨leavesOut.sound, leavesOut.items, rows, among.trans more, rest⟩

end LeavesOut

/-- The setting with records as part of the language, or without them. -/
def Setting.withRecords (setting : Setting) (allowed : Bool) : Setting :=
  { setting with allowsRecords := allowed }

theorem recordDeclaration_of_declaredKind? {k : NodeKind} (is : declaredKind? k = some .recordKind) :
    k = .recordDeclaration := by
  cases k <;> simp [declaredKind?] at is ⊢

/-- A node that declares a type stands for this declaration, or for a problem if it is a record and must not be. -/
theorem members_of_declares (setting : Setting) (enclosing : List String) {r : Role} {k : NodeKind} {f : Bool}
    {cs : List Tree} {kind : TypeKind} {n : Tree} (declares : declaredKind? k = some kind)
    (named : (Tree.node r k f cs).child? .name = some n) :
    members setting enclosing (.node r k f cs) =
      if kind = .recordKind ∧ setting.allowsRecords = false then
        ([], [⟨(Tree.node r k f cs).start, .unsupportedRecord n.text⟩])
      else
        ([.type ((Tree.node r k f cs).head setting enclosing kind n.text)
          (bodyMembers setting (enclosing ++ [n.text]) cs).1], (bodyMembers setting (enclosing ++ [n.text]) cs).2) := by
  have noField : (k == .fieldDeclaration || k == .constantDeclaration) = false := by
    cases k <;> simp [declaredKind?] at declares ⊢
  simp only [members, noField, declares, named, Bool.false_eq_true, if_false, Bool.and_eq_true, beq_iff_eq,
    Bool.not_eq_true']

/-- Other nodes stand for the same in every setting, and for no declaration. -/
theorem members_of_not_declares (enclosing : List String) {r : Role} {k : NodeKind} {f : Bool} {cs : List Tree}
    (other : declaredKind? k = none ∨ (Tree.node r k f cs).child? .name = none) :
    ∃ fs : List Field, ∀ setting, members setting enclosing (.node r k f cs) = (fs.map .field, []) := by
  by_cases field : (k == .fieldDeclaration || k == .constantDeclaration) = true
  · exact ⟨(Tree.node r k f cs).fields, fun setting => by simp only [members, field, if_true]⟩
  · refine ⟨[], fun setting => ?_⟩
    rcases other with undeclared | unnamed
    · simp [members, field, undeclared]
    · cases declared : declaredKind? k <;> simp [members, field, declared, unnamed]

mutual

theorem leavesOut_members (setting : Setting) (enclosing : List String) : ∀ t : Tree,
    LeavesOut (setting.withRecords true) t.subtrees (members (setting.withRecords true) enclosing t)
      (members (setting.withRecords false) enclosing t)
  | .leaf .. => .nil _ _
  | .node r k f cs => by
    have aside (other : declaredKind? k = none ∨ (Tree.node r k f cs).child? .name = none) :
        LeavesOut (setting.withRecords true) (Tree.node r k f cs).subtrees
          (members (setting.withRecords true) enclosing (.node r k f cs))
          (members (setting.withRecords false) enclosing (.node r k f cs)) := by
      obtain ⟨fs, is⟩ := members_of_not_declares enclosing other
      rw [is, is]
      exact .fields _ _ fs
    cases declares : declaredKind? k with
    | none => exact aside (.inl declares)
    | some kind =>
      cases named : (Tree.node r k f cs).child? .name with
      | none => exact aside (.inr named)
      | some n =>
        have stands (allowed : Bool) := members_of_declares (setting.withRecords allowed) enclosing declares named
        have inside := leavesOut_bodyMembers setting (enclosing ++ [n.text]) cs
        by_cases record : kind = .recordKind
        · subst record
          -- whatever is told inside the record goes with it
          have full := (stands true).trans (if_neg fun is => Bool.noConfusion is.2)
          have short := (stands false).trans (if_pos ⟨rfl, rfl⟩)
          rw [full, short, inside.sound]
          exact .record (d := ⟨_, _⟩) rfl ⟨recordDeclaration_of_declaredKind? declares, congrArg Prod.fst full⟩
        · have both (allowed : Bool) := (stands allowed).trans (if_neg fun is => record is.1)
          rw [both, both]
          exact .declaration record (inside.mono (List.sublist_cons_self _ _))

theorem leavesOut_bodyMembers (setting : Setting) (enclosing : List String) : ∀ ts : List Tree,
    LeavesOut (setting.withRecords true) (subtreesAll ts) (bodyMembers (setting.withRecords true) enclosing ts)
      (bodyMembers (setting.withRecords false) enclosing ts)
  | [] => .nil _ _
  | t :: ts => by
    unfold bodyMembers
    split
    · exact .nil _ _
    · rename_i same
      cases same
      exact (leavesOut_partMembers setting enclosing _).mono
        ((List.sublist_cons_self _ _).trans (List.sublist_append_left _ _))
    · rename_i same
      cases same
      exact (leavesOut_bodyMembers setting enclosing ts).mono (List.sublist_append_right _ _)

theorem leavesOut_partMembers (setting : Setting) (enclosing : List String) : ∀ ts : List Tree,
    LeavesOut (setting.withRecords true) (subtreesAll ts) (partMembers (setting.withRecords true) enclosing ts)
      (partMembers (setting.withRecords false) enclosing ts)
  | [] => .nil _ _
  | t :: ts => by
    have rest := leavesOut_partMembers setting enclosing ts
    unfold partMembers
    split
    · exact .nil _ _
    · rename_i same
      cases same
      exact ((leavesOut_allMembers setting enclosing _).mono (List.sublist_cons_self _ _)).append rest
    · rename_i same
      cases same
      exact (leavesOut_members setting enclosing t).append rest

theorem leavesOut_allMembers (setting : Setting) (enclosing : List String) : ∀ ts : List Tree,
    LeavesOut (setting.withRecords true) (subtreesAll ts) (allMembers (setting.withRecords true) enclosing ts)
      (allMembers (setting.withRecords false) enclosing ts)
  | [] => .nil _ _
  | t :: ts => (leavesOut_members setting enclosing t).append (leavesOut_allMembers setting enclosing ts)

end

theorem declsOf_withoutRecords (items : List Item) :
    declsOf (Item.withoutRecords items) =
      ((declsOf items).filter fun d => d.head.kind ≠ .recordKind).map Decl.withoutRecords := by
  induction items with
  | nil => rfl
  | cons item items ih =>
    cases item with
    | field f => simpa [declsOf, Item.withoutRecords, Item.withoutRecords?] using ih
    | type h is =>
      by_cases record : h.kind = .recordKind
      · simpa [declsOf, Item.withoutRecords, Item.withoutRecords?, record] using ih
      · simpa [declsOf, Item.withoutRecords, Item.withoutRecords?, record, Decl.withoutRecords] using ih

theorem outerRecords_declsOf (items : List Item) :
    Item.outerRecords ((declsOf items).map Decl.toItem) = Item.outerRecords items := by
  induction items with
  | nil => rfl
  | cons item items ih =>
    cases item with
    | field f => simpa [declsOf, Item.outerRecords, Item.outerRecordsAt] using ih
    | type h is => simpa [declsOf, Item.outerRecords, Decl.toItem] using ih

end Java.Tree

namespace Java.Outline

open Java.Tree

/-- Without records a source declares what it declares with them, less every record and all that lies inside it. Told
are the same problems, and after them one for each record that lies in no other one: where its declaration starts, and
its name. -/
theorem ofTree_withoutRecords (sourceFile : Option String) (root : Tree) :
    let full := ofTree true sourceFile root
    let short := ofTree false sourceFile root
    short.unit = full.unit.withoutRecords ∧
      ∃ rows : List (Tree × Decl), (rows.map Prod.fst).Sublist root.subtrees ∧
        rows.map Prod.snd = full.unit.outerRecords ∧
        (∀ row ∈ rows, DeclaresRecord ⟨full.unit.package, full.unit.imports, sourceFile, true⟩ row.1 row.2) ∧
        short.problems = full.problems ++ rows.map fun row => ⟨row.1.start, .unsupportedRecord row.2.name⟩ := by
  intro full short
  let setting : Setting := ⟨root.package?, root.children.filterMap import?, sourceFile, true⟩
  let declared := root.children.filter fun t => (declaredKind? t.kind).isSome
  obtain ⟨sound, items, rows, among, records, each, told⟩ := leavesOut_allMembers setting [] declared
  have within : (rows.map Prod.fst).Sublist root.subtrees :=
    (among.trans (subtreesAll_filter_sublist _ _)).trans (subtreesAll_children_sublist root)
  refine ⟨?_, rows, within, ?_, each, ?_⟩
  · have types : short.unit.types = full.unit.withoutRecords.types :=
      (congrArg declsOf items).trans (declsOf_withoutRecords _)
    change CompilationUnit.mk _ _ _ short.unit.types = _
    rw [types]
    rfl
  · exact records.trans (outerRecords_declsOf _).symm
  · have syntaxOnly : full.problems = root.problems := (congrArg (root.problems ++ ·) sound).trans (List.append_nil _)
    rw [syntaxOnly]
    exact congrArg (root.problems ++ ·) told

/-- A class with a record and an enum inside it, each of which holds a record. -/
example :
    let root := Tree.ofSource
      "class A { record R(int a) { record S() { } } enum E { X; record T() { } int t; } }".toList
    let short := ofTree false none root
    (short.unit.walk "").map (·.decl.name) = ["A", "E"] ∧
      short.problems.map (fun p => (p.place.column, p.kind)) =
        [(10, .unsupportedRecord "R"), (57, .unsupportedRecord "T")] := by
  decide +kernel

end Java.Outline

end EntityAtlas
