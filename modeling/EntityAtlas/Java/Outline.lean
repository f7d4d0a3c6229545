import EntityAtlas.Decl.Basic
import EntityAtlas.Java.Tree

/-!
# From syntax trees to declarations

The declarations of a syntax tree: its package, its imports and its types with their markers and members. What lies in
faulty parts is left out, and so are records where they are no part of the language.
-/

namespace EntityAtlas.Java.Tree

/-- The kinds that name a type, or a part of its name. -/
def typeNameKinds : List NodeKind := [.typeIdentifier, .scopedTypeIdentifier, .genericType]

mutual

/-- The name of a type without its arguments and without annotations between its parts. -/
def typeName : Tree → String
  | .leaf r k t => (Tree.leaf r k t).text
  | .node r k f cs =>
    if k == .genericType then (genericBase cs).getD (Tree.node r k f cs).text
    else if k == .scopedTypeIdentifier then ".".intercalate (scopedParts cs)
    else (Tree.node r k f cs).text

/-- The name of the type that arguments are given to. -/
def genericBase : List Tree → Option String
  | [] => none
  | t :: ts =>
    if t.kind == .typeIdentifier || t.kind == .scopedTypeIdentifier then some (typeName t) else genericBase ts

/-- The names of the parts of a dotted type. -/
def scopedParts : List Tree → List String
  | [] => []
  | t :: ts => if typeNameKinds.contains t.kind then typeName t :: scopedParts ts else scopedParts ts

end

/-- A text without its first and last character, if it has two. -/
def unquote (s : String) : String :=
  if 2 ≤ s.toList.length then String.ofList (s.toList.drop 1).dropLast else s

mutual

/-- The text of an annotation's value: literals lose their quotes, the elements of an array are joined by commas, all
else stands as written. -/
def valueText : Tree → String
  | .leaf r k t =>
    let written := (Tree.leaf r k t).text
    if k == .stringLiteral || k == .characterLiteral then unquote written else written
  | .node r k f cs =>
    if k == .elementValueArray then ",".intercalate (elementTexts cs) else (Tree.node r k f cs).text

def elementTexts : List Tree → List String
  | [] => []
  | t :: ts => if t.isNamed then valueText t :: elementTexts ts else elementTexts ts

end

/-- The argument that a part of an argument list stands for, if it stands for one. -/
def argument? (t : Tree) : Option (String × String) :=
  if t.kind == .elementValuePair then
    match t.child? .key, t.child? .value with
    | some k, some v => some (k.text, v.valueText)
    | _, _ => none
  else if t.kind == .comment then none
  else some ("value", t.valueText)

/-- The marker that an annotation stands for. -/
def marker? (t : Tree) : Option Marker :=
  if t.kind == .marker || t.kind == .bareMarker then
    (t.child? .name).map fun n =>
      ⟨n.text, match t.child? .arguments with
        | some list => list.namedChildren.filterMap argument?
        | none => []⟩
  else none

/-- The markers of a declaration: the annotations among its modifiers. -/
def markers (t : Tree) : List Marker :=
  match t.childOfKind? [.modifiers] with
  | some m => m.namedChildren.filterMap marker?
  | none => []

/-- The fields of a field declaration, all with the same markers. -/
def fields (t : Tree) : List Field :=
  (t.childrenPlaying .declarator).filterMap fun d => (d.child? .name).map fun n => ⟨n.text, t.markers⟩

/-- The components of a record; one that takes any number of values has no name of its own and is left out. -/
def components (t : Tree) : List Field :=
  match t.child? .parameters with
  | some ps => ps.namedChildren.filterMap fun p =>
      if p.kind == .formalParameter || p.kind == .spreadParameter
      then (p.child? .name).map fun n => ⟨n.text, p.markers⟩ else none
  | none => []

/-- The type that a class extends, or the first one that an interface extends: what comes first in the clause. -/
def supertype? (t : Tree) : Option TypeRef :=
  let clause := (t.child? .superclass).or
    ((t.childOfKind? [.extendsInterfaces]).bind fun c => c.childOfKind? [.typeList])
  clause.bind fun c => (c.namedChildren.find? (·.kind != .marker)).map fun n => ⟨n.typeName⟩

def declaredKind? : NodeKind → Option TypeKind
  | .classDeclaration => some .classKind
  | .interfaceDeclaration => some .interfaceKind
  | .enumDeclaration => some .enumKind
  | .recordDeclaration => some .recordKind
  | .annotationTypeDeclaration => some .annotationKind
  | _ => none

/-- What all declarations of a source share. -/
structure Setting where
  package : Option String
  imports : List String
  sourceFile : Option String
  allowsRecords : Bool
  deriving Repr

/-- The declaration without its members that a node stands for. -/
def head (setting : Setting) (enclosing : List String) (kind : TypeKind) (name : String) (t : Tree) : Head :=
  { name, kind, package := setting.package, markers := t.markers, imports := setting.imports,
    sourceFile := setting.sourceFile, enclosing
    shape := match kind with
      | .classKind => .extensible t.supertype?
      | .interfaceKind => .extensible t.supertype?
      | .recordKind => .record t.components
      | _ => .plain }

mutual

/-- The members that a node in a body stands for, and the records that had to be left out. -/
def members (setting : Setting) (enclosing : List String) : Tree → List Item × List Problem
  | .leaf .. => ([], [])
  | .node r k f cs =>
    let t := Tree.node r k f cs
    if k == .fieldDeclaration || k == .constantDeclaration then (t.fields.map .field, [])
    else match declaredKind? k, t.child? .name with
      | some kind, some n =>
        if kind == .recordKind && !setting.allowsRecords then ([], [⟨t.start, .unsupportedRecord n.text⟩])
        else
          let (items, left) := bodyMembers setting (enclosing ++ [n.text]) cs
          ([.type (t.head setting enclosing kind n.text) items], left)
      | _, _ => ([], [])

/-- The members in the body among the parts of a declaration. -/
def bodyMembers (setting : Setting) (enclosing : List String) : List Tree → List Item × List Problem
  | [] => ([], [])
  | .node .body _ _ cs :: _ => partMembers setting enclosing cs
  | _ :: ts => bodyMembers setting enclosing ts

/-- The members that the parts of a body stand for; an enum has its members one level deeper. -/
def partMembers (setting : Setting) (enclosing : List String) : List Tree → List Item × List Problem
  | [] => ([], [])
  | .node _ .enumBodyDeclarations _ cs :: ts =>
    let (items, left) := allMembers setting enclosing cs
    let (items', left') := partMembers setting enclosing ts
    (items ++ items', left ++ left')
  | t :: ts =>
    let (items, left) := members setting enclosing t
    let (items', left') := partMembers setting enclosing ts
    (items ++ items', left ++ left')

/-- The members that several nodes stand for. -/
def allMembers (setting : Setting) (enclosing : List String) : List Tree → List Item × List Problem
  | [] => ([], [])
  | t :: ts =>
    let (items, left) := members setting enclosing t
    let (items', left') := allMembers setting enclosing ts
    (items ++ items', left ++ left')

end

/-- The dotted name in a package or import declaration. -/
def dottedName? (t : Tree) : Option String :=
  (t.childOfKind? [.scopedIdentifier, .identifier]).map text

/-- Whether a symbol is among the direct parts. -/
def hasSymbol (t : Tree) (symbol : String) : Bool :=
  t.children.any fun
    | .leaf _ .symbol token => token.text == symbol
    | _ => false

/-- The package of a source; the last declaration counts. -/
def package? (root : Tree) : Option String :=
  ((root.children.filter (·.kind == .packageDeclaration)).filterMap dottedName?).getLast?

/-- The import that a declaration stands for; imports of static members stand for none. -/
def import? (t : Tree) : Option String :=
  if t.kind == .importDeclaration && !t.hasSymbol "static" then
    t.dottedName?.map fun n => if (t.childOfKind? [.asterisk]).isSome then n ++ ".*" else n
  else none

/-- The declarations among items. -/
def declsOf (items : List Item) : List Decl :=
  items.filterMap fun
    | .type h is => some ⟨h, is⟩
    | .field _ => none

end EntityAtlas.Java.Tree

namespace EntityAtlas.Java

/-- What a source declares, and the problems met. -/
structure Outline where
  unit : CompilationUnit
  problems : List Problem
  deriving Repr

namespace Outline

/-- The outline of a syntax tree. Problems of syntax come first, records left out after them. -/
def ofTree (allowsRecords : Bool) (sourceFile : Option String) (root : Tree) : Outline :=
  let imports := root.children.filterMap Tree.import?
  let setting : Tree.Setting := ⟨root.package?, imports, sourceFile, allowsRecords⟩
  let declared := root.children.filter fun t => (Tree.declaredKind? t.kind).isSome
  let (items, left) := Tree.allMembers setting [] declared
  ⟨⟨sourceFile, setting.package, imports, Tree.declsOf items⟩, root.problems ++ left⟩

end Outline

end EntityAtlas.Java
