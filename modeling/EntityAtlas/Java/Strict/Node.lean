import EntityAtlas.Java.Strict.Token
import EntityAtlas.Text.Quoted

/-!
# Nodes of the strict reader

What the strict reader makes of tokens: nodes with named parts. A node is shown by the name of its kind and all parts
that its kind has, in the order of their names, those that were left open as `None`.
-/

namespace EntityAtlas.Java.Strict

inductive NodeKind where
  | classDeclaration
  | enumDeclaration
  | interfaceDeclaration
  | annotationDeclaration
  | anyType
  | basicType
  | referenceType
  | typeArgument
  | typeParameter
  | marker
  | elementValuePair
  | elementArrayValue
  | methodDeclaration
  | fieldDeclaration
  | constructorDeclaration
  | constantDeclaration
  | arrayInitializer
  | variableDeclaration
  | localVariableDeclaration
  | variableDeclarator
  | formalParameter
  | inferredFormalParameter
  | emptyStatement
  | ifStatement
  | whileStatement
  | doStatement
  | forStatement
  | assertStatement
  | breakStatement
  | continueStatement
  | returnStatement
  | throwStatement
  | synchronizedStatement
  | tryStatement
  | switchStatement
  | blockStatement
  | statementExpression
  | tryResource
  | catchClause
  | catchClauseParameter
  | switchStatementCase
  | forControl
  | enhancedForControl
  | assignment
  | ternaryExpression
  | binaryOperation
  | cast
  | methodReference
  | lambdaExpression
  | literal
  | selfReference
  | memberReference
  | explicitConstructorInvocation
  | superConstructorInvocation
  | methodInvocation
  | superMethodInvocation
  | superMemberReference
  | arraySelector
  | classReference
  | voidClassReference
  | arrayCreator
  | classCreator
  | innerClassCreator
  | enumBody
  | enumConstantDeclaration
  | annotationMethod
  deriving DecidableEq, Repr, Inhabited

namespace NodeKind

def operandParts : List String := ["postfix_operators", "prefix_operators", "qualifier", "selectors"]

/-- The name of a kind and its parts, in the order of their names. -/
def form : NodeKind → String × List String
  | .classDeclaration =>
    ("ClassDeclaration", ["annotations", "body", "documentation", "extends", "implements", "modifiers", "name",
      "type_parameters"])
  | .enumDeclaration => ("EnumDeclaration", ["annotations", "body", "documentation", "implements", "modifiers", "name"])
  | .interfaceDeclaration =>
    ("InterfaceDeclaration", ["annotations", "body", "documentation", "extends", "modifiers", "name",
      "type_parameters"])
  | .annotationDeclaration => ("AnnotationDeclaration", ["annotations", "body", "documentation", "modifiers", "name"])
  | .anyType => ("Type", ["dimensions", "name"])
  | .basicType => ("BasicType", ["dimensions", "name"])
  | .referenceType => ("ReferenceType", ["arguments", "dimensions", "name", "sub_type"])
  | .typeArgument => ("TypeArgument", ["pattern_type", "type"])
  | .typeParameter => ("TypeParameter", ["extends", "name"])
  | .marker => ("Annotation", ["element", "name"])
  | .elementValuePair => ("ElementValuePair", ["name", "value"])
  | .elementArrayValue => ("ElementArrayValue", ["values"])
  | .methodDeclaration =>
    ("MethodDeclaration", ["annotations", "body", "documentation", "modifiers", "name", "parameters",
      "return_type", "throws", "type_parameters"])
  | .fieldDeclaration => ("FieldDeclaration", ["annotations", "declarators", "documentation", "modifiers", "type"])
  | .constructorDeclaration =>
    ("ConstructorDeclaration", ["annotations", "body", "documentation", "modifiers", "name", "parameters",
      "throws", "type_parameters"])
  | .constantDeclaration =>
    ("ConstantDeclaration", ["annotations", "declarators", "documentation", "modifiers", "type"])
  | .arrayInitializer => ("ArrayInitializer", ["initializers"])
  | .variableDeclaration => ("VariableDeclaration", ["annotations", "declarators", "modifiers", "type"])
  | .localVariableDeclaration => ("LocalVariableDeclaration", ["annotations", "declarators", "modifiers", "type"])
  | .variableDeclarator => ("VariableDeclarator", ["dimensions", "initializer", "name"])
  | .formalParameter => ("FormalParameter", ["annotations", "modifiers", "name", "type", "varargs"])
  | .inferredFormalParameter => ("InferredFormalParameter", ["name"])
  | .emptyStatement => ("Statement", ["label"])
  | .ifStatement => ("IfStatement", ["condition", "else_statement", "label", "then_statement"])
  | .whileStatement => ("WhileStatement", ["body", "condition", "label"])
  | .doStatement => ("DoStatement", ["body", "condition", "label"])
  | .forStatement => ("ForStatement", ["body", "control", "label"])
  | .assertStatement => ("AssertStatement", ["condition", "label", "value"])
  | .breakStatement => ("BreakStatement", ["goto", "label"])
  | .continueStatement => ("ContinueStatement", ["goto", "label"])
  | .returnStatement => ("ReturnStatement", ["expression", "label"])
  | .throwStatement => ("ThrowStatement", ["expression", "label"])
  | .synchronizedStatement => ("SynchronizedStatement", ["block", "label", "lock"])
  | .tryStatement => ("TryStatement", ["block", "catches", "finally_block", "label", "resources"])
  | .switchStatement => ("SwitchStatement", ["cases", "expression", "label"])
  | .blockStatement => ("BlockStatement", ["label", "statements"])
  | .statementExpression => ("StatementExpression", ["expression", "label"])
  | .tryResource => ("TryResource", ["annotations", "modifiers", "name", "type", "value"])
  | .catchClause => ("CatchClause", ["block", "label", "parameter"])
  | .catchClauseParameter => ("CatchClauseParameter", ["annotations", "modifiers", "name", "types"])
  | .switchStatementCase => ("SwitchStatementCase", ["case", "statements"])
  | .forControl => ("ForControl", ["condition", "init", "update"])
  | .enhancedForControl => ("EnhancedForControl", ["iterable", "var"])
  | .assignment => ("Assignment", ["expressionl", "type", "value"])
  | .ternaryExpression => ("TernaryExpression", ["condition", "if_false", "if_true"])
  | .binaryOperation => ("BinaryOperation", ["operandl", "operandr", "operator"])
  | .cast => ("Cast", ["expression", "type"])
  | .methodReference => ("MethodReference", ["expression", "method", "type_arguments"])
  | .lambdaExpression => ("LambdaExpression", ["body", "parameters"])
  | .literal => ("Literal", ["postfix_operators", "prefix_operators", "qualifier", "selectors", "value"])
  | .selfReference => ("This", operandParts)
  | .memberReference =>
    ("MemberReference", ["member", "postfix_operators", "prefix_operators", "qualifier", "selectors"])
  | .explicitConstructorInvocation =>
    ("ExplicitConstructorInvocation", ["arguments", "postfix_operators", "prefix_operators", "qualifier",
      "selectors", "type_arguments"])
  | .superConstructorInvocation =>
    ("SuperConstructorInvocation", ["arguments", "postfix_operators", "prefix_operators", "qualifier",
      "selectors", "type_arguments"])
  | .methodInvocation =>
    ("MethodInvocation", ["arguments", "member", "postfix_operators", "prefix_operators", "qualifier",
      "selectors", "type_arguments"])
  | .superMethodInvocation =>
    ("SuperMethodInvocation", ["arguments", "member", "postfix_operators", "prefix_operators", "qualifier",
      "selectors", "type_arguments"])
  | .superMemberReference =>
    ("SuperMemberReference", ["member", "postfix_operators", "prefix_operators", "qualifier", "selectors"])
  | .arraySelector => ("ArraySelector", ["index"])
  | .classReference => ("ClassReference", ["postfix_operators", "prefix_operators", "qualifier", "selectors", "type"])
  | .voidClassReference =>
    ("VoidClassReference", ["postfix_operators", "prefix_operators", "qualifier", "selectors", "type"])
  | .arrayCreator =>
    ("ArrayCreator", ["dimensions", "initializer", "postfix_operators", "prefix_operators", "qualifier",
      "selectors", "type"])
  | .classCreator =>
    ("ClassCreator", ["arguments", "body", "constructor_type_arguments", "postfix_operators", "prefix_operators",
      "qualifier", "selectors", "type"])
  | .innerClassCreator =>
    ("InnerClassCreator", ["arguments", "body", "constructor_type_arguments", "postfix_operators",
      "prefix_operators", "qualifier", "selectors", "type"])
  | .enumBody => ("EnumBody", ["constants", "declarations"])
  | .enumConstantDeclaration =>
    ("EnumConstantDeclaration", ["annotations", "arguments", "body", "documentation", "modifiers", "name"])
  | .annotationMethod =>
    ("AnnotationMethod", ["annotations", "default", "dimensions", "modifiers", "name", "return_type"])

/-- The name of a kind. -/
def label (k : NodeKind) : String := k.form.1

def parts (k : NodeKind) : List String := k.form.2

def isFieldDeclaration (k : NodeKind) : Bool :=
  k == .fieldDeclaration || k == .constantDeclaration

end NodeKind

/-- What the reader makes: a node, or something smaller that stands for itself. -/
inductive Node where
  /-- Nothing. -/
  | absent
  | flag (b : Bool)
  | text (s : String)
  | list (items : List Node)
  /-- Words of which none occurs twice. -/
  | words (items : List String)
  /-- A keyword that stands for itself. -/
  | keyword (t : Token)
  | node (kind : NodeKind) (parts : List (String × Node))
  deriving Inhabited, Repr

namespace Node

/-- The kind, if it is a node. -/
def kind? : Node → Option NodeKind
  | .node k _ => some k
  | _ => none

def part (n : Node) (name : String) : Node :=
  match n with
  | .node _ ps => ((ps.find? (·.1 == name)).map (·.2)).getD .absent
  | _ => .absent

def set (n : Node) (name : String) (value : Node) : Node :=
  match n with
  | .node k ps => .node k ((name, value) :: ps.filter (·.1 != name))
  | other => other

def items : Node → List Node
  | .list ns => ns
  | _ => []

/-- The text, if it is one. -/
def text? : Node → Option String
  | .text s => some s
  | _ => none

def texts (ss : List String) : Node := .list (ss.map .text)

/-- Something or nothing. -/
def ofOption : Option Node → Node
  | some n => n
  | none => .absent

/-- The text of words that are no list: in curly brackets, none as an empty set. -/
def shownWords (items : List String) : String :=
  if items.isEmpty then "set()" else "\x7b" ++ ", ".intercalate (items.map Text.quoted) ++ "\x7d"

/-- The text of a keyword and its place. -/
def shownKeyword (t : Token) : String :=
  "Keyword \"" ++ t.text ++ "\" line " ++ toString t.line ++ ", position " ++ toString t.column

mutual

/-- How a part of a node is shown: texts stand as they are. -/
def shown : Node → String
  | .absent => "None"
  | .flag b => if b then "True" else "False"
  | .text s => s
  | .list ns => "[" ++ ", ".intercalate (shownItems ns) ++ "]"
  | .words ss => shownWords ss
  | .keyword t => shownKeyword t
  | .node k ps =>
    let shownOnes := shownParts ps
    k.label ++ "(" ++ ", ".intercalate (k.parts.map fun name =>
      name ++ "=" ++ ((shownOnes.find? (·.1 == name)).map (·.2)).getD "None") ++ ")"

/-- How the items of a list are shown: texts are quoted. -/
def shownItems : List Node → List String
  | [] => []
  | .text s :: ns => Text.quoted s :: shownItems ns
  | n :: ns => shown n :: shownItems ns

/-- The parts of a node, each shown. -/
def shownParts : List (String × Node) → List (String × String)
  | [] => []
  | (name, n) :: ps => (name, shown n) :: shownParts ps

end

end Node

end EntityAtlas.Java.Strict
