import EntityAtlas.Proofs.DottedNames

/-!
# Names that the declaring file states

A file can lead to a declaration by names alone: by its full name, or by an import of the declaration or of a type
around it. Each of them spells out the package and some of the types around the declaration, and what is looked up
leaves the types out. Where the package ends is told by capitals.
-/

namespace EntityAtlas

/-- Pieces joined to those of a text come after the text. -/
theorem Text.intercalate_pieces_append {sep : Char} {j : String} (one : j.toList = [sep]) (s : String)
    {names : List String} (nonempty : names ≠ []) :
    j.intercalate (pieces sep s ++ names) = s ++ j ++ j.intercalate names := by
  rw [String.intercalate_append_of_ne_nil (pieces_ne_nil sep s) nonempty, intercalate_pieces one]

namespace Decl

/-- The names from the outermost enclosing declaration down to the declaration. -/
def path (d : Decl) : List String :=
  d.head.enclosing ++ [d.name]

/-- The name with the package and all enclosing declarations. -/
def fullName (d : Decl) : String :=
  match d.head.package with
  | some p => if p == "" then d.nestedName else p ++ "." ++ d.nestedName
  | none => d.nestedName

/-- The pieces of the package; an empty package has none. -/
def packagePieces (d : Decl) : List String :=
  match d.head.package with
  | some p => if p == "" then [] else Text.pieces '.' p
  | none => []

/-- Names joined to the pieces of the package come after the package, if there is one. -/
theorem intercalate_packagePieces (d : Decl) {names : List String} (nonempty : names ≠ []) :
    ".".intercalate (d.packagePieces ++ names) = match d.head.package with
      | some p => if p == "" then ".".intercalate names else p ++ "." ++ ".".intercalate names
      | none => ".".intercalate names := by
  unfold packagePieces
  cases d.head.package with
  | none => rfl
  | some p =>
    by_cases empty : p = ""
    · simp [empty]
    · have dot : ".".toList = ['.'] := rfl
      simp [empty, Text.intercalate_pieces_append dot p nonempty]

theorem fullName_eq (d : Decl) : d.fullName = ".".intercalate (d.packagePieces ++ d.path) := by
  rw [intercalate_packagePieces d (by simp [path])]
  rfl

theorem qualifiedName_eq (d : Decl) : d.qualifiedName = ".".intercalate (d.packagePieces ++ [d.name]) := by
  rw [intercalate_packagePieces d (by simp), String.intercalate_singleton]
  rfl

theorem not_mem_of_mem_packagePieces {d : Decl} {piece : String} (mem : piece ∈ d.packagePieces) :
    '.' ∉ piece.toList := by
  unfold packagePieces at mem
  split at mem
  · split at mem
    · cases mem
    · exact Text.not_mem_of_mem_pieces mem
  · cases mem

end Decl

namespace Supertype

/-- A dotted name whose pieces are a package, types and a last one stands for the last one in the package. -/
theorem modelName_of_pieces {path name : String} {package outer : List String}
    (cut : Text.pieces '.' path = package ++ outer ++ [name]) (lower : ∀ piece ∈ package, isTypeSegment piece = false)
    (upper : ∀ type ∈ outer, isTypeSegment type = true) : modelName path = ".".intercalate (package ++ [name]) := by
  have stop : outer.takeWhile (fun s => !isTypeSegment s) = [] := by
    cases outer with
    | nil => rfl
    | cons type _ => simp [upper type List.mem_cons_self]
  have through : ∀ piece ∈ package, (!isTypeSegment piece) = true := by simpa using lower
  rw [modelName, cut, List.dropLast_concat, List.getLast?_concat, Option.toList_some,
    List.takeWhile_append_of_pos through, stop, List.append_nil]

/-- Capitals tell where the package of a declaration ends: the names around the declaration start with one, and the
pieces of the package do not. No name has a dot. -/
structure Legible (d : Decl) : Prop where
  package : ∀ piece ∈ d.packagePieces, isTypeSegment piece = false
  around : ∀ type ∈ d.head.enclosing, isTypeSegment type = true
  dotless : ∀ name ∈ d.path, '.' ∉ name.toList

variable {d owner : Decl} {ref : TypeRef}

/-- Whatever types around it are told, a name with the package and the simple name of a declaration stands for its
qualified name. -/
theorem Legible.modelName_eq (legible : Legible d) {outer : List String}
    (around : ∀ type ∈ outer, type ∈ d.head.enclosing) :
    modelName (".".intercalate (d.packagePieces ++ outer ++ [d.name])) = d.qualifiedName := by
  have free : ∀ piece ∈ d.packagePieces ++ outer ++ [d.name], '.' ∉ piece.toList := by
    intro piece mem
    rw [List.append_assoc] at mem
    rcases List.mem_append.mp mem with mem | mem
    · exact Decl.not_mem_of_mem_packagePieces mem
    · refine legible.dotless piece ?_
      rcases List.mem_append.mp mem with mem | mem
      · exact List.mem_append_left _ (around piece mem)
      · exact List.mem_append_right _ mem
  rw [modelName_of_pieces (Text.pieces_intercalate rfl (by simp) free) legible.package
    fun type mem => legible.around type (around type mem), Decl.qualifiedName_eq]

theorem Legible.modelName_fullName (legible : Legible d) : modelName d.fullName = d.qualifiedName := by
  rw [Decl.fullName_eq, Decl.path, ← List.append_assoc]
  exact legible.modelName_eq fun _ mem => mem

/-- The pieces of the full name are those of the package and the path. -/
theorem Legible.pieces_fullName (legible : Legible d) :
    Text.pieces '.' d.fullName = d.packagePieces ++ d.path := by
  rw [Decl.fullName_eq]
  refine Text.pieces_intercalate rfl (by simp [Decl.path]) fun piece mem => ?_
  rcases List.mem_append.mp mem with mem | mem
  · exact Decl.not_mem_of_mem_packagePieces mem
  · exact legible.dotless piece mem

/-- For a simple name the file states what its first import of that name says. -/
theorem stated?_of_single {name : String} (cut : Text.pieces '.' ref.name = [name]) :
    Stage.stated? ref owner = (Stage.importOf? owner.head.imports name).map modelName := by
  have simple : ref.simpleName = name := by simp [TypeRef.simpleName, Text.lastPiece, cut]
  simp [Stage.stated?, TypeRef.isQualified_eq cut, simple]

/-- A dotted name that starts with a package is taken as it is. -/
theorem stated?_of_package {first second : String} {more : List String}
    (cut : Text.pieces '.' ref.name = first :: second :: more) (lower : isTypeSegment first = false) :
    Stage.stated? ref owner = some (modelName ref.name) := by
  have head : Text.firstPiece '.' ref.name = first := by simp [Text.firstPiece, cut]
  simp [Stage.stated?, TypeRef.isQualified_eq cut, head, lower]

/-- For a dotted name that starts with a type the file states what its first import of the type says. -/
theorem stated?_of_type {first second : String} {more : List String}
    (cut : Text.pieces '.' ref.name = first :: second :: more) (upper : isTypeSegment first = true) :
    Stage.stated? ref owner =
      (Stage.importOf? owner.head.imports first).map fun i => modelName (i ++ "." ++ ref.simpleName) := by
  have head : Text.firstPiece '.' ref.name = first := by simp [Text.firstPiece, cut]
  simp [Stage.stated?, TypeRef.isQualified_eq cut, head, upper]

theorem Legible.stated?_of_fullName (legible : Legible d) (packaged : d.packagePieces ≠ [])
    (written : ref.name = d.fullName) : Stage.stated? ref owner = some d.qualifiedName := by
  obtain ⟨first, rest, pieces⟩ := List.exists_cons_of_ne_nil packaged
  obtain ⟨second, more, others⟩ := List.exists_cons_of_ne_nil (show rest ++ d.path ≠ [] by simp [Decl.path])
  have cut : Text.pieces '.' ref.name = first :: second :: more := by
    rw [written, legible.pieces_fullName, pieces, List.cons_append, others]
  rw [stated?_of_package cut (legible.package first (pieces ▸ List.mem_cons_self)), written, legible.modelName_fullName]

theorem Legible.stated?_of_name (legible : Legible d) (written : ref.name = d.name)
    (imported : Stage.importOf? owner.head.imports d.name = some d.fullName) :
    Stage.stated? ref owner = some d.qualifiedName := by
  have cut : Text.pieces '.' ref.name = [d.name] := by
    rw [written]
    exact Text.pieces_of_not_mem (legible.dotless d.name (List.mem_append_right _ List.mem_cons_self))
  rw [stated?_of_single cut, imported, Option.map_some, legible.modelName_fullName]

theorem Legible.stated?_of_inner (legible : Legible d) {first : String} {outer inner : List String}
    (around : d.head.enclosing = outer ++ first :: inner)
    (written : ref.name = ".".intercalate (first :: inner ++ [d.name]))
    (imported : Stage.importOf? owner.head.imports first =
      some (".".intercalate (d.packagePieces ++ outer ++ [first]))) :
    Stage.stated? ref owner = some d.qualifiedName := by
  have free : ∀ piece ∈ first :: inner ++ [d.name], '.' ∉ piece.toList := fun piece mem => by
    refine legible.dotless piece ?_
    rw [Decl.path, around, List.append_assoc]
    exact List.mem_append_right _ mem
  have cut : Text.pieces '.' ref.name = first :: inner ++ [d.name] := by
    rw [written, Text.pieces_intercalate rfl (by simp) free]
  have simple : ref.simpleName = d.name := by
    rw [TypeRef.simpleName, Text.lastPiece, cut, List.getLast?_concat, Option.getD_some]
  obtain ⟨second, more, others⟩ := List.exists_cons_of_ne_nil (show inner ++ [d.name] ≠ [] by simp)
  rw [List.cons_append, others] at cut
  have within : ∀ type ∈ outer ++ [first], type ∈ d.head.enclosing := by
    intro type mem
    rw [around, List.append_cons]
    exact List.mem_append_left _ mem
  have longer : ".".intercalate (d.packagePieces ++ outer ++ [first]) ++ "." ++ d.name =
      ".".intercalate (d.packagePieces ++ (outer ++ [first]) ++ [d.name]) := by
    rw [← List.append_assoc, String.intercalate_append_of_ne_nil (m := [d.name]) (by simp) (by simp),
      String.intercalate_singleton]
  rw [stated?_of_type cut (legible.around first (within first (by simp))), imported, Option.map_some, simple, longer,
    legible.modelName_eq within]

/-- The stage of imports answers the qualified name of a declaration when names in the file lead to the declaration: for
its full name, if it has a package; for its simple name, if the full name is the first import that ends with it; and
for the names from a type around it inwards, if the first import that ends with the name of this type spells out the
way to the type. Imports of other names, and later ones, are of no account. -/
theorem imports_propose_qualifiedName (s : Store) {d : Decl} (legible : Legible d) (owner : Decl) :
    (d.packagePieces ≠ [] → (Stage.imports.propose s ⟨d.fullName⟩ owner).value = .ok (some d.qualifiedName)) ∧
      (Stage.importOf? owner.head.imports d.name = some d.fullName →
        (Stage.imports.propose s ⟨d.name⟩ owner).value = .ok (some d.qualifiedName)) ∧
      ∀ outer first inner, d.head.enclosing = outer ++ first :: inner →
        Stage.importOf? owner.head.imports first = some (".".intercalate (d.packagePieces ++ outer ++ [first])) →
        (Stage.imports.propose s ⟨".".intercalate (first :: inner ++ [d.name])⟩ owner).value =
          .ok (some d.qualifiedName) := by
  have answers {ref : TypeRef} (states : Stage.stated? ref owner = some d.qualifiedName) :
      (Stage.imports.propose s ref owner).value = .ok (some d.qualifiedName) := by
    rw [← states]
    rfl
  refine ⟨fun packaged => ?_, fun imported => ?_, fun outer first inner around imported => ?_⟩
  · exact answers (legible.stated?_of_fullName packaged rfl)
  · exact answers (legible.stated?_of_name rfl imported)
  · exact answers (legible.stated?_of_inner around rfl imported)

/-- A class two classes deep. -/
def deepClass : Decl :=
  ⟨⟨"inner", .classKind, .extensible none, some "q.r", [], [], none, ["Outer", "Middle"]⟩, []⟩

/-- A class in a file with imports of the class, of the types around it, and of other types of these names. -/
def importingOwner : Decl :=
  ⟨⟨"C", .classKind, .extensible none, some "p", [],
    ["q.r.Outer", "p.NotOuter", "q.r.Outer.Middle", "x.Middle", "q.r.Outer.Middle.inner", "x.inner"], none, []⟩, []⟩

theorem imports_propose_qualifiedName_deep :
    let answer (name : String) := (Stage.imports.propose (.fresh []) ⟨name⟩ importingOwner).value
    Legible deepClass ∧ deepClass.qualifiedName = "q.r.inner" ∧
      (deepClass.packagePieces ≠ [] ∧ answer "q.r.Outer.Middle.inner" = .ok (some "q.r.inner")) ∧
      (Stage.importOf? importingOwner.head.imports "inner" = some deepClass.fullName ∧
        answer "inner" = .ok (some "q.r.inner")) ∧
      (Stage.importOf? importingOwner.head.imports "Outer" = some "q.r.Outer" ∧
        answer "Outer.Middle.inner" = .ok (some "q.r.inner")) ∧
      (Stage.importOf? importingOwner.head.imports "Middle" = some "q.r.Outer.Middle" ∧
        answer "Middle.inner" = .ok (some "q.r.inner")) := by
  have legible : Legible deepClass := ⟨by decide +kernel, by decide +kernel, by decide +kernel⟩
  have imported : Stage.importOf? importingOwner.head.imports "inner" = some deepClass.fullName := by decide +kernel
  have outer : Stage.importOf? importingOwner.head.imports "Outer" = some "q.r.Outer" := by decide +kernel
  have middle : Stage.importOf? importingOwner.head.imports "Middle" = some "q.r.Outer.Middle" := by decide +kernel
  obtain ⟨full, simple, inner⟩ := imports_propose_qualifiedName (.fresh []) legible importingOwner
  exact ⟨legible, by decide +kernel, ⟨by decide +kernel, full (by decide +kernel)⟩, ⟨imported, simple imported⟩,
    ⟨outer, inner [] _ _ rfl outer⟩, ⟨middle, inner ["Outer"] _ _ rfl middle⟩⟩

end Supertype

end EntityAtlas
