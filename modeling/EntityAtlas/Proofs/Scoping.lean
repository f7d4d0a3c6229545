import EntityAtlas.Proofs.StatedNames
import EntityAtlas.Proofs.SupertypeChoice
import EntityAtlas.Proofs.Surroundings

/-!
# Supertypes as the language scopes them

A reference can be written in several ways for the declaration that it denotes. Whichever way is used, the usual chain
ends at the package and the simple name of that declaration, and finds the first declaration that has both: enclosing
declarations are no part of what is looked up. Declarations of other packages are of no account, with one exception:
imports are asked before the declarations around a reference.
-/

namespace EntityAtlas

/-- Every name in the path of a declaration is the name of a declaration that the same scan finds. -/
theorem Collector.exists_name_of_mem_path {c : Collector} {s : Store} {package : String} {p : Placed}
    (mem : p ∈ c.declaredBelow s package) {name : String} (among : name ∈ p.decl.path) :
    ∃ q ∈ c.declaredBelow s package, q.decl.name = name := by
  rcases List.mem_append.mp among with around | own
  · exact exists_name_of_mem_enclosing mem around
  · exact ⟨p, mem, (List.mem_singleton.mp own).symm⟩

namespace Supertype

/-- The names in a path name types, and those in the package do not. -/
structure Capitalized (d : Decl) : Prop where
  types : ∀ name ∈ d.path, Text.IsSegment name ∧ isTypeSegment name = true
  package : ∀ p, d.head.package = some p → ∀ piece ∈ Text.pieces '.' p, isTypeSegment piece = false

variable {d : Decl}

theorem Capitalized.legible (capital : Capitalized d) : Legible d where
  package piece mem := by
    unfold Decl.packagePieces at mem
    split at mem
    · rename_i p package
      split at mem
      · cases mem
      · exact capital.package p package piece mem
    · cases mem
  around type mem := (capital.types type (List.mem_append_left _ mem)).2
  dotless name mem := (capital.types name mem).1.dotless

theorem packagePieces_of_package {p : String} (package : d.head.package = some p) (named : p ≠ "") :
    d.packagePieces = Text.pieces '.' p := by
  simp [Decl.packagePieces, package, named]

/-- A declaration is a member of one of the declarations around an owner. -/
structure IsMemberAround (owner d : Decl) : Prop where
  package : d.head.package.getD "" = owner.head.package.getD ""
  inside : d.head.enclosing ≠ []
  around : d.head.enclosing <+: owner.head.enclosing

/-- The ways to write a reference in an owner for a declaration: by its full name; inwards from a type that the file
imports, and no other of that name; as a member of a declaration around the owner; inwards from a type of the owner's
package, unless the file imports one of that name. -/
inductive Denotes (owner d : Decl) : String → Prop where
  | full {p : String} (package : d.head.package = some p) (named : p ≠ "") : Denotes owner d d.fullName
  | imported {p first : String} {outer inner : List String} (package : d.head.package = some p) (named : p ≠ "")
    (path : d.path = outer ++ first :: inner)
    (states : p ++ "." ++ ".".intercalate (outer ++ [first]) ∈ owner.head.imports)
    (alone : ∀ i ∈ owner.head.imports, Text.endsWith i ("." ++ first) = true →
      i = p ++ "." ++ ".".intercalate (outer ++ [first])) : Denotes owner d (".".intercalate (first :: inner))
  | member (within : IsMemberAround owner d) : Denotes owner d d.name
  | beside {first : String} {inner : List String} (package : d.head.package.getD "" = owner.head.package.getD "")
    (path : d.path = first :: inner) (unimported : Stage.importOf? owner.head.imports first = none) :
    Denotes owner d (".".intercalate (first :: inner))

/-- A reference to a member of a declaration around the owner, where the file imports another type of that name. -/
structure OverruledBy (owner d : Decl) (name i : String) : Prop where
  written : name = d.name
  within : IsMemberAround owner d
  imported : Stage.importOf? owner.head.imports d.name = some i
  other : i ≠ d.fullName

/-- For a reference that starts with a type the file states what its imports say of that type. -/
theorem stated?_of_pieces {ref : TypeRef} {owner : Decl} {first : String} {inner : List String}
    (cut : Text.pieces '.' ref.name = first :: inner) (type : isTypeSegment first = true) :
    Stage.stated? ref owner = (Stage.importOf? owner.head.imports first).map fun i =>
      modelName (if inner.isEmpty then i else i ++ "." ++ ref.simpleName) := by
  cases inner with
  | nil => exact stated?_of_single cut
  | cons second more => exact stated?_of_type cut type

/-- The import that ends with a name, if there is no other. -/
theorem importOf?_of_alone {imports : List String} {name i : String} (mem : i ∈ imports)
    (ends : Text.endsWith i ("." ++ name) = true)
    (alone : ∀ i' ∈ imports, Text.endsWith i' ("." ++ name) = true → i' = i) :
    Stage.importOf? imports name = some i := by
  cases found : Stage.importOf? imports name with
  | none => exact absurd ends (by simpa using List.find?_eq_none.mp found i mem)
  | some i' => rw [alone i' (List.mem_of_find?_eq_some found) (by simpa using List.find?_some found)]

/-- The import of a type ends with its name. -/
theorem endsWith_import (package : String) (outer : List String) (name : String) :
    Text.endsWith (package ++ "." ++ ".".intercalate (outer ++ [name])) ("." ++ name) = true := by
  obtain ⟨start, whole⟩ : ∃ start, package ++ "." ++ ".".intercalate (outer ++ [name]) = start ++ ("." ++ name) := by
    cases outer with
    | nil => exact ⟨package, by simp [String.append_assoc]⟩
    | cons first more =>
      refine ⟨package ++ "." ++ ".".intercalate (first :: more), ?_⟩
      rw [String.intercalate_append_of_ne_nil (by simp) (by simp), String.intercalate_singleton]
      simp only [String.append_assoc]
  rw [whole]
  exact Text.endsWith_append start _

variable {owner : Decl} {ref : TypeRef}

/-- A reference that is written as the end of a path has its pieces, and its simple name is the last of them. -/
theorem pieces_of_path (capital : Capitalized d) {first : String} {outer inner : List String}
    (path : d.path = outer ++ first :: inner) (written : ref.name = ".".intercalate (first :: inner)) :
    Text.pieces '.' ref.name = first :: inner ∧ ref.simpleName = d.name := by
  have cut : Text.pieces '.' ref.name = first :: inner := by
    rw [written]
    refine Text.pieces_intercalate rfl (by simp) fun name mem => (capital.types name ?_).1.dotless
    rw [path]
    exact List.mem_append_right _ mem
  have last : (first :: inner).getLast? = some d.name := by
    have whole : d.path.getLast? = some d.name := List.getLast?_concat
    rw [path, List.getLast?_append_of_ne_nil _ (by simp)] at whole
    exact whole
  exact ⟨cut, by rw [TypeRef.simpleName, Text.lastPiece, cut, last, Option.getD_some]⟩

theorem simpleName_of_fullName (capital : Capitalized d) (written : ref.name = d.fullName) :
    ref.simpleName = d.name := by
  rw [TypeRef.simpleName, Text.lastPiece, written, capital.legible.pieces_fullName, Decl.path, ← List.append_assoc,
    List.getLast?_concat, Option.getD_some]

/-- For a reference by way of an import of the type or of one around it the file states the qualified name. -/
theorem stated?_of_import (capital : Capitalized d) {p first : String} {outer inner : List String}
    (package : d.head.package = some p) (named : p ≠ "") (path : d.path = outer ++ first :: inner)
    (written : ref.name = ".".intercalate (first :: inner))
    (imported : Stage.importOf? owner.head.imports first = some (p ++ "." ++ ".".intercalate (outer ++ [first]))) :
    Stage.stated? ref owner = some d.qualifiedName := by
  have spelled : p ++ "." ++ ".".intercalate (outer ++ [first]) =
      ".".intercalate (d.packagePieces ++ outer ++ [first]) := by
    rw [List.append_assoc, packagePieces_of_package package named, Text.intercalate_pieces_append rfl p (by simp)]
  rw [spelled] at imported
  rcases List.eq_nil_or_concat' inner with rfl | ⟨inner, last, rfl⟩
  · obtain ⟨rfl, rfl⟩ : outer = d.head.enclosing ∧ first = d.name := by
      simpa [Decl.path, eq_comm] using path
    refine capital.legible.stated?_of_name (by simpa using written) ?_
    rw [imported, Decl.fullName_eq, Decl.path, List.append_assoc]
  · rw [← List.cons_append, ← List.append_assoc] at path
    obtain ⟨around, rfl⟩ : d.head.enclosing = outer ++ first :: inner ∧ d.name = last := by
      simpa using List.append_inj' path rfl
    exact capital.legible.stated?_of_inner around written imported

/-- For a member's simple name the file states what the import of that name says, if there is one. -/
theorem stated?_of_name (capital : Capitalized d) (written : ref.name = d.name) :
    Stage.stated? ref owner = (Stage.importOf? owner.head.imports d.name).map modelName := by
  obtain ⟨segment, type⟩ := capital.types d.name (List.mem_append_right _ List.mem_cons_self)
  have cut : Text.pieces '.' ref.name = [d.name] := by rw [written, Text.pieces_of_not_mem segment.dotless]
  simpa using stated?_of_pieces cut type

theorem simpleName_of_denotes (capital : Capitalized d) (denotes : Denotes owner d ref.name) :
    ref.simpleName = d.name := by
  -- the name becomes a variable, so that the cases can say how it is written
  generalize written : ref.name = name at denotes
  cases denotes with
  | full => exact simpleName_of_fullName capital written
  | imported package named path => exact (pieces_of_path capital path written).2
  | member =>
    have path : d.path = d.head.enclosing ++ d.name :: [] := rfl
    exact (pieces_of_path capital path (by simpa using written)).2
  | beside package path =>
    exact (pieces_of_path capital (path.trans (List.nil_append _).symm) written).2

/-- For a reference that denotes a declaration the file states the qualified name, or it states nothing and the
declaration is in the owner's package. -/
theorem stated?_of_denotes (capital : Capitalized d) (denotes : Denotes owner d ref.name)
    (free : ∀ i, ¬ OverruledBy owner d ref.name i) :
    Stage.stated? ref owner = some d.qualifiedName ∨
      Stage.stated? ref owner = none ∧ d.head.package.getD "" = owner.head.package.getD "" := by
  generalize written : ref.name = name at denotes free
  cases denotes with
  | @full p package named =>
    have packaged : d.packagePieces ≠ [] := packagePieces_of_package package named ▸ Text.pieces_ne_nil '.' p
    exact .inl (capital.legible.stated?_of_fullName packaged written)
  | imported package named path states alone =>
    exact .inl (stated?_of_import capital package named path written
      (importOf?_of_alone states (endsWith_import _ _ _) alone))
  | member within =>
    rw [stated?_of_name capital written]
    cases imported : Stage.importOf? owner.head.imports d.name with
    | none => exact .inr ⟨rfl, within.package⟩
    | some i =>
      -- the import was asked before the declarations around the owner, so it has to be of the member itself
      obtain rfl : i = d.fullName := by
        by_contra other
        exact free i ⟨rfl, within, imported, other⟩
      exact .inl (congrArg some (capital.legible.modelName_fullName))
  | beside package path unimported =>
    obtain ⟨cut, -⟩ := pieces_of_path capital (path.trans (List.nil_append _).symm) written
    have type := (capital.types _ (path ▸ List.mem_cons_self)).2
    rw [stated?_of_pieces cut type, unimported]
    exact .inr ⟨rfl, package⟩

/-- The names of declared types start with capitals, those of packages do not. -/
structure Conventional (all : List Placed) : Prop where
  types : ∀ q ∈ all, isTypeSegment q.decl.name = true
  packages : ∀ q ∈ all, ∀ p, q.decl.head.package = some p → ∀ piece ∈ Text.pieces '.' p, isTypeSegment piece = false

variable {c : Collector} {s : Store} {target : Placed}

theorem Conventional.capitalized (usual : Conventional (c.declared s)) (mem : target ∈ c.declared s) :
    Capitalized target.decl := by
  refine ⟨fun name among => ?_, usual.packages target mem⟩
  obtain ⟨q, declared, rfl⟩ := Collector.exists_name_of_mem_path mem among
  exact ⟨c.isSegment_of_mem_declaredBelow s declared, usual.types q declared⟩

/-- A declaration has its own package and simple name, so some declaration has them. -/
theorem isSome_find?_isBeside {all : List Placed} (mem : target ∈ all) :
    (all.find? (isBeside target.decl target.decl.name)).isSome = true :=
  List.find?_isSome.mpr ⟨target, mem, by simp [isBeside]⟩

/-- The declarations with the qualified name of a declaration are those with its package and its simple name. -/
theorem find?_qualifiedName (mem : target ∈ c.declared s) :
    ((c.declared s).find? fun q => q.decl.qualifiedName == target.decl.qualifiedName) =
      (c.declared s).find? (isBeside target.decl target.decl.name) := by
  refine List.find?_congr fun q declared => ?_
  rw [Bool.eq_iff_iff, beq_iff_eq, Decl.qualifiedName_eq_iff (c.isSegment_of_mem_declaredBelow s declared).dotless
    (c.isSegment_of_mem_declaredBelow s mem).dotless]
  simp [isBeside]

/-- Where the file states nothing for a reference, the owner's package decides. -/
theorem besideOrFirst_of_package (mem : target ∈ c.declared s)
    (package : target.decl.head.package.getD "" = owner.head.package.getD "") :
    besideOrFirst (c.declared s) owner target.decl.name =
      (c.declared s).find? (isBeside target.decl target.decl.name) := by
  have same : isBeside owner target.decl.name = isBeside target.decl target.decl.name := by
    funext q
    simp only [isBeside, package]
  rw [besideOrFirst, same]
  exact Option.or_of_isSome (isSome_find?_isBeside mem)

/-- What the usual chain finds, told from the list of all declarations. -/
theorem supertype_of_scan (package : String) {all : List Placed}
    (scans : (c.extract s "" fun _ => true).value = .ok all) (extended : owner.supertype? = some ref) :
    ((Chain.standard c package).supertype s owner).value =
      .ok (((Stage.stated? ref owner).bind fun name => all.find? fun q => q.decl.qualifiedName == name).or
        (besideOrFirst all owner ref.simpleName)) := by
  rw [value_extract_all] at scans
  cases listed : (c.listing s "").fault with
  | some f => simp [listed] at scans
  | none =>
    obtain rfl : c.declared s = all := by simpa [listed] using scans
    have named : c.named? s = fun name => (c.declared s).find? fun q => q.decl.qualifiedName == name := by
      funext name
      simp [Collector.named?, listed]
    rw [Chain.value_supertype (Chain.contained_standard c package s), found_standard_eq package extended,
      found_of_stages listed extended [] (by simp), named]

/-- What the usual chain finds for a reference that denotes a declaration: the first declaration with its package and
its simple name, which is the declaration itself if none before it has both. Only where the reference is to a member of
a declaration around it and the file imports another type of that name, what the import stands for comes first. -/
theorem supertype_of_denotes (c : Collector) (package : String) (s : Store) {all : List Placed}
    (scans : (c.extract s "" fun _ => true).value = .ok all) (usual : Conventional all) {owner : Decl} {ref : TypeRef}
    (extended : owner.supertype? = some ref) {target : Placed} (mem : target ∈ all)
    (denotes : Denotes owner target.decl ref.name) :
    ((∀ i, ¬ OverruledBy owner target.decl ref.name i) →
      ((Chain.standard c package).supertype s owner).value =
        .ok (all.find? (isBeside target.decl target.decl.name))) ∧
    (∀ i, OverruledBy owner target.decl ref.name i →
      ((Chain.standard c package).supertype s owner).value =
        .ok ((all.find? fun q => q.decl.qualifiedName == modelName i).or
          (all.find? (isBeside target.decl target.decl.name)))) ∧
    (∀ before after, all = before ++ target :: after →
      (∀ q ∈ before, isBeside target.decl target.decl.name q = false) →
      all.find? (isBeside target.decl target.decl.name) = some target) := by
  have finds := supertype_of_scan package scans extended
  obtain rfl : c.declared s = all := by
    rw [value_extract_all] at scans
    split at scans
    · exact Except.ok.inj scans
    · cases scans
  have capital := usual.capitalized mem
  rw [finds, simpleName_of_denotes capital denotes]
  refine ⟨fun free => ?_, fun i overruled => ?_, fun before after is lacking => ?_⟩
  · rcases stated?_of_denotes capital denotes free with states | ⟨nothing, same⟩
    · rw [states, Option.bind_some, find?_qualifiedName mem, Option.or_of_isSome (isSome_find?_isBeside mem)]
    · rw [nothing, Option.bind_none, Option.none_or, besideOrFirst_of_package mem same]
  · have states := (stated?_of_name capital overruled.written).trans (congrArg _ overruled.imported)
    rw [states, Option.map_some, Option.bind_some, besideOrFirst_of_package mem overruled.within.package]
  · rw [is, List.find?_append, List.find?_eq_none.mpr (by simpa using lacking), Option.none_or]
    simp [isBeside]

/-- Two files: the first has two classes of one name inside others, the second one more class of that name. -/
def namesakeSources : Store where
  root := .dir
    [("p", .dir [("A.java", .file (Text.Utf8.encode ("package p; import q.D; class O { class D { } } " ++
      "class P { class D { } class E extends D { } } class C extends p.P.D { }").toList))]),
     ("q", .dir [("D.java", .file (Text.Utf8.encode "package q; class D { }".toList))])]
  cwd := []

/-- A class of the first file. -/
def namesake (name : String) (enclosing : List String) (extended : Option String) (items : List Item) : Decl :=
  ⟨⟨name, .classKind, .extensible (extended.map .mk), some "p", [], ["q.D"], some "p/A.java", enclosing⟩, items⟩

/-- The classes of one name. -/
def namesakeInO : Placed := ⟨"p/A.java", [0, 0], namesake "D" ["O"] none []⟩

def namesakeInP : Placed := ⟨"p/A.java", [1, 0], namesake "D" ["P"] none []⟩

def namesakeInQ : Placed :=
  ⟨"q/D.java", [0], ⟨⟨"D", .classKind, .extensible none, some "q", [], [], some "q/D.java", []⟩, []⟩⟩

/-- The classes that extend a class by that name, in another class and outside. -/
def innerHeir : Placed := ⟨"p/A.java", [1, 1], namesake "E" ["P"] (some "D") []⟩

def outerHeir : Placed := ⟨"p/A.java", [2], namesake "C" [] (some "p.P.D") []⟩

/-- All classes of the two files. -/
def namesakes : List Placed :=
  [⟨"p/A.java", [0], namesake "O" [] none [namesakeInO.decl.toItem]⟩, namesakeInO,
    ⟨"p/A.java", [1], namesake "P" [] none [namesakeInP.decl.toItem, innerHeir.decl.toItem]⟩, namesakeInP, innerHeir,
    outerHeir, namesakeInQ]

theorem findFiles_namesakes :
    namesakeSources.findFiles ".java" .here = ⟨[.ofString "p/A.java", .ofString "q/D.java"], none⟩ := by
  have sorted : Store.inNameOrder (namesakeSources.walkEach ".java" .here namesakeSources.root.entries) =
      namesakeSources.walkEach ".java" .here namesakeSources.root.entries :=
    List.mergeSort_of_pairwise (by decide +kernel)
  have directory : namesakeSources.isDirectory .here = .ok true := by decide +kernel
  have entry : namesakeSources.entry? .here = .ok (some (.dir namesakeSources.root.entries)) := rfl
  rw [Store.findFiles, directory, entry]
  dsimp only
  rw [sorted]
  decide +kernel

theorem declared_namesakes : (Collector.standard .here .java17).declared namesakeSources = namesakes := by
  have files : ((Collector.standard .here .java17).listing namesakeSources "").files =
      [.ofString "p/A.java", .ofString "q/D.java"] := congrArg Store.Listing.files findFiles_namesakes
  rw [Collector.declared, Collector.declaredBelow, files]
  decide +kernel

theorem scan_namesakes :
    ((Collector.standard .here .java17).extract namesakeSources "" fun _ => true).value = .ok namesakes := by
  have listed : ((Collector.standard .here .java17).listing namesakeSources "").fault = none :=
    congrArg Store.Listing.fault findFiles_namesakes
  rw [value_extract_all, listed, declared_namesakes]

theorem conventional_namesakes : Conventional namesakes := by
  constructor <;> decide +kernel

/-- A class of another package that extends one of the namesakes, the one that is found. -/
def strangerOfNamesakes : Decl :=
  ⟨⟨"F", .classKind, .extensible (some ⟨"p.O.D"⟩), some "q", [], [], none, []⟩, []⟩

theorem supertype_of_denotes_namesakes :
    Denotes strangerOfNamesakes namesakeInO.decl "p.O.D" ∧
      ((Chain.standard (.standard .here .java17) "p").supertype namesakeSources strangerOfNamesakes).value =
        .ok (some namesakeInO) := by
  have denotes : Denotes strangerOfNamesakes namesakeInO.decl "p.O.D" := .full rfl (by decide)
  have mem : namesakeInO ∈ namesakes := List.mem_cons_of_mem _ List.mem_cons_self
  obtain ⟨finds, -, first⟩ := supertype_of_denotes (.standard .here .java17) "p" namesakeSources scan_namesakes
    conventional_namesakes rfl mem denotes
  refine ⟨denotes, ?_⟩
  rw [finds fun i overruled => absurd overruled.written (by decide)]
  exact congrArg _ (first [_] _ rfl (by decide +kernel))

/-- A reference by the full name of a class inside another finds the namesake that is declared before it, and one to a
member of the class around it finds the namesake that the file imports. -/
theorem supertype_namesakes :
    let c := Collector.standard .here .java17
    let found (owner : Placed) := ((Chain.standard c "p").supertype namesakeSources owner.decl).value
    (c.extract namesakeSources "" fun _ => true).value = .ok namesakes ∧ Conventional namesakes ∧
      (namesakes.map fun q => (q.decl.head.package, q.decl.nestedName)).Nodup ∧
      namesakeInP ∈ namesakes ∧
      (outerHeir ∈ namesakes ∧ outerHeir.decl.supertype? = some ⟨"p.P.D"⟩ ∧
        Denotes outerHeir.decl namesakeInP.decl "p.P.D" ∧ found outerHeir = .ok (some namesakeInO)) ∧
      (innerHeir ∈ namesakes ∧ innerHeir.decl.supertype? = some ⟨"D"⟩ ∧
        Denotes innerHeir.decl namesakeInP.decl "D" ∧ found innerHeir = .ok (some namesakeInQ)) ∧
      namesakeInO ≠ namesakeInP ∧ namesakeInQ ≠ namesakeInP := by
  intro c found
  have member : IsMemberAround innerHeir.decl namesakeInP.decl := ⟨rfl, by decide, by decide⟩
  have outer : found outerHeir = .ok (some namesakeInO) := by
    rw [show found outerHeir = _ from supertype_of_scan "p" scan_namesakes rfl]
    decide +kernel
  have inner : found innerHeir = .ok (some namesakeInQ) := by
    rw [show found innerHeir = _ from supertype_of_scan "p" scan_namesakes rfl]
    decide +kernel
  exact ⟨scan_namesakes, conventional_namesakes, by decide +kernel, by simp [namesakes],
    ⟨by simp [namesakes], rfl, .full rfl (by decide), outer⟩,
    ⟨by simp [namesakes], rfl, .member member, inner⟩, by decide, by decide⟩

end Supertype

end EntityAtlas
