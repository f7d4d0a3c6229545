import EntityAtlas.Decl.Basic
import EntityAtlas.Java.Strict.Source

/-!
# From strict nodes to declarations

The declarations of a source that the strict reader has read. Types keep their names and lose their arguments; values of
annotations are shown as the nodes they are, unless they are literals, names or arrays.
-/

namespace EntityAtlas.Java.Strict.Node

mutual

/-- The names of the parts of a type, outermost first. -/
def typeNames : Node → List String
  | .node _ ps =>
    let name := match (ps.find? (·.1 == "name")).map (·.2) with
      | some (.text s) => s
      | _ => ""
    (if name == "" then [] else [name]) ++ innerNames ps
  | _ => []

/-- The names of the parts of the type that is nested in another. -/
def innerNames : List (String × Node) → List String
  | [] => []
  | (part, n) :: ps => if part == "sub_type" then typeNames n else innerNames ps

end

def typeName (n : Node) : String :=
  ".".intercalate n.typeNames

/-- A literal without its quotes. -/
def unquote (s : String) : String :=
  match s.toList with
  | q :: rest => if (q == '"' || q == '\'') && rest.getLast? == some q then .ofList rest.dropLast else s
  | [] => s

mutual

def valueText : Node → String
  | .node k ps =>
    let n := Node.node k ps
    match k with
    | .literal => unquote ((n.part "value").text?.getD "")
    | .memberReference =>
      let member := (n.part "member").text?.getD ""
      match (n.part "qualifier").text? with
      | some "" => member
      | some q => q ++ "." ++ member
      | none => member
    | .elementArrayValue => ",".intercalate (valuesTexts ps)
    | _ => n.shown
  | n => n.shown

/-- The texts of the values among the parts of an array. -/
def valuesTexts : List (String × Node) → List String
  | [] => []
  | (_, .list ns) :: _ => allTexts ns
  | _ :: ps => valuesTexts ps

/-- The texts of several values. -/
def allTexts : List Node → List String
  | [] => []
  | n :: ns => valueText n :: allTexts ns

end

/-- The marker that an annotation stands for. -/
def toMarker (n : Node) : Marker :=
  ⟨(n.part "name").text?.getD "",
    match n.part "element" with
    | .absent => []
    | .list pairs => pairs.map fun p => ((p.part "name").text?.getD "", (p.part "value").valueText)
    | element => [("value", element.valueText)]⟩

def markers (n : Node) : List Marker :=
  (n.part "annotations").items.map toMarker

/-- What all declarations of a source share. -/
structure Setting where
  package : Option String
  imports : List String
  sourceFile : Option String
  deriving Repr

/-- The type that a class extends, or the first one that an interface extends. -/
def supertype? (n : Node) : Option TypeRef :=
  match n.part "extends" with
  | .node k ps => some ⟨(Node.node k ps).typeName⟩
  | .list (t :: _) => some ⟨t.typeName⟩
  | _ => none

/-- The kind of type that a node declares, and its shape. -/
def declared? (n : Node) : Option (TypeKind × Shape) :=
  match n.kind? with
  | some .classDeclaration => some (.classKind, .extensible n.supertype?)
  | some .interfaceDeclaration => some (.interfaceKind, .extensible n.supertype?)
  | some .enumDeclaration => some (.enumKind, .plain)
  | some .annotationDeclaration => some (.annotationKind, .plain)
  | _ => none

def declaredName (n : Node) : String :=
  (n.part "name").text?.getD ""

/-- The fields of a declaration, all with the same markers. -/
def fields (n : Node) : List Field :=
  (n.part "declarators").items.map fun d => ⟨d.declaredName, n.markers⟩

mutual

/-- The members that a node in a body stands for. -/
def members (setting : Setting) (enclosing : List String) : Node → List Item
  | .node k ps =>
    let n := Node.node k ps
    if k.isFieldDeclaration then n.fields.map .field
    else match n.declared? with
      | some (kind, shape) =>
        [.type
          { name := n.declaredName, kind, shape, package := setting.package, markers := n.markers,
            imports := setting.imports, sourceFile := setting.sourceFile, enclosing }
          (bodyMembers setting (enclosing ++ [n.declaredName]) ps)]
      | none => []
  | _ => []

/-- The members in the body among the parts of a declaration. -/
def bodyMembers (setting : Setting) (enclosing : List String) : List (String × Node) → List Item
  | [] => []
  | (part, n) :: ps => if part == "body" then heldMembers setting enclosing n else bodyMembers setting enclosing ps

/-- The members that a body holds; an enum has them apart from its constants. -/
def heldMembers (setting : Setting) (enclosing : List String) : Node → List Item
  | .list ns => allMembers setting enclosing ns
  | .node _ ps => declaredMembers setting enclosing ps
  | _ => []

/-- The members among the parts of the body of an enum. -/
def declaredMembers (setting : Setting) (enclosing : List String) : List (String × Node) → List Item
  | [] => []
  | (part, n) :: ps =>
    if part == "declarations" then heldMembers setting enclosing n else declaredMembers setting enclosing ps

/-- The members that several nodes stand for. -/
def allMembers (setting : Setting) (enclosing : List String) : List Node → List Item
  | [] => []
  | n :: ns => members setting enclosing n ++ allMembers setting enclosing ns

end

end EntityAtlas.Java.Strict.Node

namespace EntityAtlas.Java.Strict.Source

def importNames (s : Source) : List String :=
  (s.imports.filter (!·.isStatic)).map fun i => if i.isWildcard then i.path ++ ".*" else i.path

/-- The declarations of a source. -/
def toUnit (s : Source) (sourceFile : Option String) : CompilationUnit :=
  let setting : Node.Setting := ⟨s.package, s.importNames, sourceFile⟩
  ⟨sourceFile, s.package, s.importNames, (Node.allMembers setting [] s.types).filterMap fun
    | .type h is => some ⟨h, is⟩
    | .field _ => none⟩

end EntityAtlas.Java.Strict.Source
