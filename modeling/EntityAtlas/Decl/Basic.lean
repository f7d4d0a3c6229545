import EntityAtlas.Text.Pieces

/-!
# Declarations

The model of a Java source: type declarations with their markers (annotations), fields and nested declarations, in the
order of the source.
-/

namespace EntityAtlas

/-- An annotation. Arguments are ordered; a lone argument without a key has the key `value`. -/
structure Marker where
  name : String
  arguments : List (String × String)
  deriving DecidableEq, Repr, Inhabited

namespace Marker

/-- Whether an annotation called `name` counts as `wanted`: it may be written with a package in front. -/
def nameMatches (name wanted : String) : Bool :=
  name == wanted || Text.endsWith name ("." ++ wanted)

/-- Whether the marker counts as `wanted`. -/
def isCalled (m : Marker) (wanted : String) : Bool :=
  nameMatches m.name wanted

/-- The name without what stands before its last dot. -/
def simpleName (m : Marker) : String :=
  Text.lastPiece '.' m.name

/-- The first argument whose key is `value` or `name`. -/
def value? (m : Marker) : Option String :=
  (m.arguments.find? fun a => a.1 == "value" || a.1 == "name").map (·.2)

/-- The first of several markers that counts as `wanted`. -/
def find? (markers : List Marker) (wanted : String) : Option Marker :=
  markers.find? (·.isCalled wanted)

/-- Whether one of several markers counts as `wanted`. -/
def anyCalled (markers : List Marker) (wanted : String) : Bool :=
  markers.any (·.isCalled wanted)

end Marker

/-- A field, or a component of a record. -/
structure Field where
  name : String
  markers : List Marker
  deriving DecidableEq, Repr, Inhabited

/-- A reference to a type as written, without type arguments. -/
structure TypeRef where
  name : String
  deriving DecidableEq, Repr, Inhabited

namespace TypeRef

/-- The name without what stands before its last dot. -/
def simpleName (r : TypeRef) : String :=
  Text.lastPiece '.' r.name

/-- Whether the reference is written with a dot. -/
def isQualified (r : TypeRef) : Bool :=
  r.name.toList.contains '.'

end TypeRef

/-- The keyword that declares a type. -/
inductive TypeKind where
  | classKind
  | interfaceKind
  | enumKind
  | recordKind
  | annotationKind
  deriving DecidableEq, Repr, Inhabited

def TypeKind.label : TypeKind → String
  | .classKind => "class"
  | .interfaceKind => "interface"
  | .enumKind => "enum"
  | .recordKind => "record"
  | .annotationKind => "annotation"

/-- What a declaration has beyond the common parts: classes and interfaces may extend a type (of several the first
counts), records have components. -/
inductive Shape where
  | extensible (supertype : Option TypeRef)
  | record (components : List Field)
  | plain
  deriving DecidableEq, Repr, Inhabited

/-- A declaration without its members. `enclosing` holds the names of the declarations around it, outermost first. -/
structure Head where
  name : String
  kind : TypeKind
  shape : Shape
  package : Option String
  markers : List Marker
  imports : List String
  sourceFile : Option String
  enclosing : List String
  deriving DecidableEq, Repr, Inhabited

/-- A member of a declaration: a field or a nested declaration. -/
inductive Item where
  | field (f : Field)
  | type (head : Head) (items : List Item)
  deriving Repr, Inhabited

/-- Induction over members, with those inside a nested declaration before those after it. -/
theorem Item.list_induction {motive : List Item → Prop} (nil : motive [])
    (field : ∀ f rest, motive rest → motive (.field f :: rest))
    (type : ∀ h is rest, motive is → motive rest → motive (.type h is :: rest)) : ∀ items, motive items
  | [] => nil
  | .field f :: rest => field f rest (list_induction nil field type rest)
  | .type h is :: rest => type h is rest (list_induction nil field type is) (list_induction nil field type rest)

/-- A type declaration with its members in source order. -/
structure Decl where
  head : Head
  items : List Item
  deriving Repr, Inhabited

/-- What a source file declares. -/
structure CompilationUnit where
  path : Option String
  package : Option String
  imports : List String
  types : List Decl
  deriving Repr, Inhabited

mutual

/-- Equality of members is decidable. -/
def Item.decEq : (a b : Item) → Decidable (a = b)
  | .field f, .field g =>
    if h : f = g then isTrue (by rw [h]) else isFalse (by intro e; injection e; contradiction)
  | .field _, .type _ _ => isFalse (by intro e; cases e)
  | .type _ _, .field _ => isFalse (by intro e; cases e)
  | .type h is, .type k js =>
    if e : h = k then
      match Item.decEqList is js with
      | isTrue e' => isTrue (by rw [e, e'])
      | isFalse n => isFalse (by intro e'; injection e'; contradiction)
    else isFalse (by intro e'; injection e'; contradiction)

/-- Equality of lists of members is decidable. -/
def Item.decEqList : (a b : List Item) → Decidable (a = b)
  | [], [] => isTrue rfl
  | [], _ :: _ => isFalse (by intro e; cases e)
  | _ :: _, [] => isFalse (by intro e; cases e)
  | i :: is, j :: js =>
    match Item.decEq i j, Item.decEqList is js with
    | isTrue e, isTrue e' => isTrue (by rw [e, e'])
    | isFalse n, _ => isFalse (by intro e; injection e; contradiction)
    | _, isFalse n => isFalse (by intro e; injection e; contradiction)

end

instance : DecidableEq Item := Item.decEq

deriving instance DecidableEq for Decl

namespace Decl

def name (d : Decl) : String := d.head.name

/-- The package and the simple name; enclosing declarations are left out. -/
def qualifiedName (d : Decl) : String :=
  match d.head.package with
  | some p => if p == "" then d.name else p ++ "." ++ d.name
  | none => d.name

/-- The name as written from the outermost enclosing declaration on. -/
def nestedName (d : Decl) : String :=
  ".".intercalate (d.head.enclosing ++ [d.name])

/-- The fields among the members. -/
def fields (d : Decl) : List Field :=
  d.items.filterMap fun
    | .field f => some f
    | .type _ _ => none

/-- The declarations among the members. -/
def nestedTypes (d : Decl) : List Decl :=
  d.items.filterMap fun
    | .field _ => none
    | .type h is => some ⟨h, is⟩

/-- The type that the declaration extends. -/
def supertype? (d : Decl) : Option TypeRef :=
  match d.head.shape with
  | .extensible r => r
  | _ => none

/-- Whether the declaration has a marker that counts as `wanted`. -/
def hasMarker (d : Decl) (wanted : String) : Bool :=
  Marker.anyCalled d.head.markers wanted

/-- The first marker that counts as `wanted`. -/
def marker? (d : Decl) (wanted : String) : Option Marker :=
  Marker.find? d.head.markers wanted

/-- The fields that may be columns: the components of a record, the fields of a class or interface, no others. -/
def columnCandidates (d : Decl) : List Field :=
  match d.head.shape with
  | .extensible _ => d.fields
  | .record cs => cs
  | .plain => []

/-- The names of the declaration's own columns: its candidates with the column marker, in source order. -/
def columns (d : Decl) (columnMarker : String) : List String :=
  (d.columnCandidates.filter fun f => Marker.anyCalled f.markers columnMarker).map (·.name)

/-- The declaration as a member of another one. -/
def toItem (d : Decl) : Item := .type d.head d.items

end Decl

end EntityAtlas
