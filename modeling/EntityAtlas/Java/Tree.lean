import EntityAtlas.Java.Token

/-!
# Syntax trees

The tree of a source keeps every token, comments and faulty parts included. Each node has a kind, the part that it plays
in its parent, and a flag that tells whether something in it is at fault.
-/

namespace EntityAtlas.Java

/-- What a node is. Kinds that nothing asks for are all `phrase`; `symbol` is a token that stands for itself, a keyword
or a mark. -/
inductive NodeKind where
  | program
  | packageDeclaration
  | importDeclaration
  | asterisk
  | classDeclaration
  | interfaceDeclaration
  | enumDeclaration
  | recordDeclaration
  | annotationTypeDeclaration
  | classBody
  | enumBodyDeclarations
  | modifiers
  | bareMarker
  | marker
  | argumentList
  | elementValuePair
  | elementValueArray
  | superclass
  | extendsInterfaces
  | typeList
  | fieldDeclaration
  | constantDeclaration
  | variableDeclarator
  | formalParameters
  | formalParameter
  | spreadParameter
  | identifier
  | scopedIdentifier
  | typeIdentifier
  | scopedTypeIdentifier
  | genericType
  | stringLiteral
  | characterLiteral
  | comment
  | fault
  | phrase
  | symbol
  deriving DecidableEq, Repr, Inhabited

/-- The part that a node plays in its parent. -/
inductive Role where
  | plain
  | name
  | body
  | superclass
  | declarator
  | parameters
  | key
  | value
  | arguments
  deriving DecidableEq, Repr, Inhabited

inductive Tree where
  | leaf (role : Role) (kind : NodeKind) (token : Token)
  | node (role : Role) (kind : NodeKind) (isFaulty : Bool) (children : List Tree)
  deriving Inhabited, Repr

namespace Tree

/-- The part played in the parent. -/
def role : Tree → Role
  | .leaf r _ _ => r
  | .node r _ _ _ => r

def kind : Tree → NodeKind
  | .leaf _ k _ => k
  | .node _ k _ _ => k

/-- The same tree in another part. -/
def playing (r : Role) : Tree → Tree
  | .leaf _ k t => .leaf r k t
  | .node _ k f cs => .node r k f cs

/-- The direct parts. -/
def children : Tree → List Tree
  | .leaf _ _ _ => []
  | .node _ _ _ cs => cs

/-- What the source lacks here, if the tree is a token that it lacks. -/
def missing? : Tree → Option String
  | .leaf _ _ t => t.missing?
  | .node .. => none

/-- Whether something in the tree is at fault, as its flag says. -/
def isFaulty : Tree → Bool
  | .leaf _ k t => k == .fault || t.missing?.isSome
  | .node _ _ f _ => f

/-- A node; it is at fault if its kind says so or a part is. -/
def ofChildren (kind : NodeKind) (children : List Tree) : Tree :=
  .node .plain kind (kind == .fault || children.any isFaulty) children

/-- Whether the node has a name of its own, as all have but symbols. -/
def isNamed (t : Tree) : Bool :=
  t.kind != .symbol

/-- The direct parts with a name of their own. -/
def namedChildren (t : Tree) : List Tree :=
  t.children.filter isNamed

/-- The first direct part of one of some kinds. -/
def childOfKind? (t : Tree) (kinds : List NodeKind) : Option Tree :=
  t.children.find? fun c => kinds.contains c.kind

/-- The first direct part that plays a role. -/
def child? (t : Tree) (r : Role) : Option Tree :=
  t.children.find? (·.role == r)

/-- The direct parts that play a role. -/
def childrenPlaying (t : Tree) (r : Role) : List Tree :=
  t.children.filter (·.role == r)

mutual

/-- The tokens, in the order of the source. -/
def tokens : Tree → List Token
  | .leaf _ _ t => [t]
  | .node _ _ _ cs => tokensAll cs

/-- The tokens of several trees. -/
def tokensAll : List Tree → List Token
  | [] => []
  | t :: ts => tokens t ++ tokensAll ts

end

/-- The source text of tokens, from the first character of the first token on. -/
def textOf : List Token → String
  | [] => ""
  | t :: ts => t.text ++ String.join (ts.map fun u => u.before ++ u.text)

/-- The source text, without the white space before it. -/
def text (t : Tree) : String :=
  textOf t.tokens

/-- Where the tree starts. -/
def start (t : Tree) : Position :=
  (t.tokens.head?.map (·.start)).getD ⟨0, 0, 0⟩

end Tree

/-- What is wrong at a place of a source. -/
inductive ProblemKind where
  | unexpected
  | missing (what : String)
  | unsupportedRecord (name : String)
  deriving DecidableEq, Repr

/-- A problem and its place; the message counts lines and columns from one. -/
structure Problem where
  place : Position
  kind : ProblemKind
  deriving DecidableEq, Repr

namespace Problem

/-- The wording of a problem. -/
def message (p : Problem) : String :=
  "line " ++ toString (p.place.line + 1) ++ ", column " ++ toString (p.place.column + 1) ++ ": " ++
    match p.kind with
    | .unexpected => "unexpected syntax"
    | .missing what => "missing '" ++ what ++ "'"
    | .unsupportedRecord name => "record '" ++ name ++ "' is not supported at this language level"

end Problem

namespace Tree

/-- The problem that a tree is by itself: a token that the source lacks, or a part that could not be read. -/
def problem? (t : Tree) : Option Problem :=
  match t.missing? with
  | some what => some ⟨t.start, .missing what⟩
  | none => if t.kind == .fault then some ⟨t.start, .unexpected⟩ else none

/-- Put trees on a stack, the last one first, so that the first one comes to lie on top. -/
def pushAll (stack ts : List Tree) : List Tree :=
  ts.reverse.foldl (fun stack t => t :: stack) stack

theorem pushAll_eq (stack ts : List Tree) : pushAll stack ts = ts ++ stack := by
  simp [pushAll]

mutual

/-- The number of nodes. -/
def size : Tree → Nat
  | .leaf .. => 1
  | .node _ _ _ cs => sizeAll cs + 1

/-- The number of nodes of several trees. -/
def sizeAll : List Tree → Nat
  | [] => 0
  | t :: ts => size t + sizeAll ts

end

theorem sizeAll_append (ts us : List Tree) : sizeAll (ts ++ us) = sizeAll ts + sizeAll us := by
  induction ts with
  | nil => simp [sizeAll]
  | cons t ts ih => simp only [List.cons_append, sizeAll, ih, Nat.add_assoc]

theorem sizeAll_children_lt (t : Tree) : sizeAll t.children < t.size := by
  cases t <;> simp [children, size, sizeAll]

/-- The problems in the trees on a stack, the topmost one first. What lies inside a problem is not looked at; other
trees give way to their parts if something in them is at fault, and are passed over if not. -/
def problemsFrom : (stack : List Tree) → List Problem
  | [] => []
  | t :: stack =>
    match t.problem? with
    | some p => p :: problemsFrom stack
    | none => if t.isFaulty then problemsFrom (pushAll stack t.children) else problemsFrom stack
termination_by stack => sizeAll stack
decreasing_by
  all_goals have fewer := sizeAll_children_lt t
  all_goals simp only [pushAll_eq, sizeAll_append, sizeAll]
  all_goals omega

/-- The problems in a tree. -/
def problems (root : Tree) : List Problem :=
  if root.isFaulty then problemsFrom [root] else []

end Tree

end EntityAtlas.Java
