import EntityAtlas.Java.Grammar

/-!
# The grammar of Java

The rules of the language at its latest level, as far as they decide the shape of declarations. Expressions and
statements are read in full, so that faults in them are found, but their shape is of no interest: they are phrases.
-/

namespace EntityAtlas.Java

/-- The rules of the grammar. -/
inductive Rule where
  | topStatement
  | topDeclaration
  | localDeclaration
  | importDeclaration
  | moduleDeclaration
  | moduleDirective
  | qualifiedName
  | modifiers
  | marker
  | elementValue
  | elementArray
  | classBody
  | classMember
  | enumBody
  | interfaceBody
  | annotationTypeBody
  | typeParameters
  | typeArguments
  | typeList
  | type
  | plainType
  | simpleType
  | dimensions
  | formalParameters
  | throws
  | declarators
  | arrayInitializer
  | block
  | constructorBody
  | receiver
  | statement
  | resources
  | catches
  | parenthesized
  | expression
  | lambda
  | operand
  | selection
  | primary
  | arguments
  | creator
  | switch
  | switchLabel
  | labelValue
  | pattern
  deriving DecidableEq, Repr

namespace Rule

open Grammar (opt atLeastOne)

/-- Grammars over these rules. -/
abbrev G := Grammar Rule

/-- A comma-separated row of one or more. -/
def row (item : G) : G :=
  .seq [item, .many (.seq [.tok ",", item])]

/-- One of several tokens. -/
def oneOf (texts : List String) : G :=
  .alt (texts.map .tok)

/-- A name that is no keyword. -/
def ident : G := .name Reading.keywords .identifier false

/-- A name that is no keyword and ends a phrase. -/
def lastIdent : G := .name Reading.keywords .identifier true

/-- A name where no keyword can stand, so that any word will do. -/
def anyIdent : G := .name [] .identifier false

/-- A name where no keyword can stand, at the end of a phrase. -/
def lastAnyIdent : G := .name [] .identifier true

def typeIdent : G := .name Reading.keywords .typeIdentifier true

def declaredName : G := .playing .name anyIdent

/-- A phrase of which nothing else is asked. -/
def phrase (parts : List G) : G := .node .phrase (.seq parts)

/-- Annotations, none or several. -/
def annotations : G := .many (.rule .marker)

def modifierWords : List String :=
  ["public", "protected", "private", "abstract", "static", "final", "strictfp", "default", "synchronized", "native",
    "transient", "volatile", "sealed", "non-sealed"]

/-- The types with names of their own. -/
def primitives : List String :=
  ["void", "byte", "short", "int", "long", "char", "float", "double", "boolean"]

/-- The declarations of types, after their modifiers. -/
def typeDeclarations : List G :=
  [.adopt .classDeclaration (.seq [.tok "class", declaredName, opt (.rule .typeParameters),
      opt (.playing .superclass (.node .superclass (.seq [.tok "extends", .rule .type]))),
      opt (phrase [.tok "implements", .rule .typeList]), opt (phrase [.tok "permits", .rule .typeList]),
      .playing .body (.rule .classBody)]),
    .adopt .interfaceDeclaration (.seq [.tok "interface", declaredName, opt (.rule .typeParameters),
      opt (.node .extendsInterfaces (.seq [.tok "extends", .rule .typeList])),
      opt (phrase [.tok "permits", .rule .typeList]), .playing .body (.rule .interfaceBody)]),
    .adopt .enumDeclaration (.seq [.tok "enum", declaredName, opt (phrase [.tok "implements", .rule .typeList]),
      .playing .body (.rule .enumBody)]),
    .adopt .annotationTypeDeclaration (.seq [.tok "@interface", declaredName,
      .playing .body (.rule .annotationTypeBody)])]

/-- The declaration of a record, after its modifiers. -/
def recordDeclaration : G :=
  .adopt .recordDeclaration (.seq [.tok "record", declaredName, opt (.rule .typeParameters),
    .playing .parameters (.rule .formalParameters), opt (phrase [.tok "implements", .rule .typeList]),
    .playing .body (.rule .classBody)])

/-- The declaration of a method, after its modifiers. -/
def method : G :=
  .adopt .phrase (.seq [opt (.seq [.rule .typeParameters, annotations]), .rule .plainType, anyIdent,
    .rule .formalParameters, opt (.rule .dimensions), opt (.rule .throws), .alt [.rule .block, .close ";"]])

/-- Variables of one type, after their modifiers. -/
def variableDeclaration (kind : NodeKind) : G :=
  .adopt kind (.seq [.rule .plainType, .rule .declarators, .close ";"])

/-- An element of an annotation type, after its modifiers. -/
def annotationElement : G :=
  .adopt .phrase (.seq [.rule .plainType, anyIdent, .tok "(", .tok ")", opt (.rule .dimensions),
    opt (.seq [.tok "default", .rule .elementValue]), .close ";"])

/-- The operators between two operands. -/
def infixOperators : List G :=
  [.seq [.tok ">", .touching, .tok ">", opt (.seq [.touching, .tok ">"])],
    oneOf ["&&", "||", "==", "!=", "<=", ">=", "<<", "+", "-", "*", "/", "%", "&", "|", "^", "<", ">"]]

/-- The operators that assign. -/
def assignments : List G :=
  [.seq [.tok ">", .touching, .tok ">", .touching, .tok ">="], .seq [.tok ">", .touching, .tok ">="],
    oneOf ["=", "+=", "-=", "*=", "/=", "&=", "|=", "^=", "%=", "<<="]]

/-- What follows `::`. -/
def methodReference : G :=
  .seq [.tok "::", opt (.rule .typeArguments), .alt [.tok "new", lastIdent]]

/-- A resource of a `try` statement: a variable of its own, or one that is there. -/
def resource : G :=
  phrase [.alt [.seq [opt (.rule .modifiers), .rule .plainType, lastAnyIdent, .tok "=", .rule .expression],
    .rule .selection]]

/-- The part of a `try` statement that is run in any case. -/
def finallyClause : G :=
  phrase [.tok "finally", .rule .block]

/-- The arguments of a type, if it is given some; it is given some once only. -/
def givenArguments : G :=
  opt (.adopt .genericType (.rule .typeArguments))

/-- What a rule stands for. -/
def grammar : Rule → G
  | .topStatement => .alt [.rule .importDeclaration, .rule .topDeclaration, .rule .moduleDeclaration, .rule .statement]
  | .topDeclaration => .group (.seq [opt (.rule .modifiers), .alt (typeDeclarations ++ [recordDeclaration,
      .adopt .packageDeclaration (.seq [.tok "package", .rule .qualifiedName, .close ";"]), method,
      variableDeclaration .phrase])])
  | .localDeclaration => .group (.seq [opt (.rule .modifiers), .alt (typeDeclarations ++ [recordDeclaration,
      variableDeclaration .phrase])])
  | .importDeclaration => .node .importDeclaration (.seq [.tok "import", opt (.tok "static"), .rule .qualifiedName,
      opt (.seq [.tok ".", .node .asterisk (.tok "*")]), .close ";"])
  | .moduleDeclaration => phrase [annotations, opt (.tok "open"), .tok "module", .rule .qualifiedName,
      phrase [.tok "\x7b", .many (.rule .moduleDirective), .close "\x7d"]]
  | .moduleDirective => .node .phrase (.alt [
      .seq [.tok "requires", .many (oneOf ["transitive", "static"]), .rule .qualifiedName, .close ";"],
      .seq [oneOf ["exports", "opens"], .rule .qualifiedName, opt (.seq [.tok "to", row (.rule .qualifiedName)]),
        .close ";"],
      .seq [.tok "uses", .rule .qualifiedName, .close ";"],
      .seq [.tok "provides", .rule .qualifiedName, .tok "with", row (.rule .qualifiedName), .close ";"]])
  | .qualifiedName => .group (.seq [anyIdent, .many (.adopt .scopedIdentifier (.seq [.tok ".", lastAnyIdent]))])
  | .modifiers => .node .modifiers (atLeastOne (.alt [.rule .marker, oneOf modifierWords]))
  | .marker => .group (.seq [.tok "@", .playing .name (.rule .qualifiedName), .alt [
      .adopt .marker (.playing .arguments (.node .argumentList (.seq [.tok "(", .alt [
        .seq [row (.node .elementValuePair (.seq [.playing .key ident, .tok "=",
          .playing .value (.rule .elementValue)])), .close ")"],
        .seq [.rule .elementValue, .close ")"],
        .close ")"]]))),
      .adopt .bareMarker (.seq [])]])
  | .elementValue => .alt [.rule .elementArray, .rule .marker, .rule .expression]
  | .elementArray => .node .elementValueArray (.seq [.tok "\x7b", opt (row (.rule .elementValue)), opt (.tok ","),
      .close "\x7d"])
  | .classBody => .node .classBody (.seq [.tok "\x7b", .many (.rule .classMember), .close "\x7d"])
  | .classMember => .alt [.tok ";", .rule .block, phrase [.tok "static", .rule .block],
      .group (.seq [opt (.rule .modifiers), .alt (typeDeclarations ++ [recordDeclaration,
        .adopt .phrase (.seq [ident, .rule .block]),
        .adopt .phrase (.seq [opt (.rule .typeParameters), ident, .rule .formalParameters, opt (.rule .throws),
          .rule .constructorBody]),
        method, variableDeclaration .fieldDeclaration])])]
  | .enumBody => .node .classBody (.seq [.tok "\x7b",
      opt (row (phrase [opt (.rule .modifiers), lastIdent, opt (.rule .arguments), opt (.rule .classBody)])),
      opt (.tok ","), opt (.node .enumBodyDeclarations (.seq [.tok ";", .many (.rule .classMember)])), .close "\x7d"])
  | .interfaceBody => .node .classBody (.seq [.tok "\x7b", .many (.alt [.tok ";",
      .group (.seq [opt (.rule .modifiers), .alt (typeDeclarations ++ [recordDeclaration, method,
        variableDeclaration .constantDeclaration])])]), .close "\x7d"])
  | .annotationTypeBody => .node .classBody (.seq [.tok "\x7b", .many (.alt [.tok ";",
      .group (.seq [opt (.rule .modifiers), .alt (typeDeclarations ++ [annotationElement,
        variableDeclaration .constantDeclaration])])]), .close "\x7d"])
  | .typeParameters => phrase [.tok "<", row (phrase [annotations, typeIdent,
      opt (phrase [.tok "extends", .rule .type, .many (.seq [.tok "&", .rule .type])])]), .close ">"]
  | .typeArguments => phrase [.tok "<", opt (row (.alt [
      phrase [annotations, .tok "?", opt (.seq [oneOf ["extends", "super"], .rule .type])], .rule .type])),
      .close ">"]
  | .typeList => .node .typeList (row (.rule .type))
  | .type => .alt [.rule .plainType, phrase [atLeastOne (.rule .marker), .rule .plainType]]
  | .plainType => .group (.seq [.rule .simpleType, opt (.adopt .phrase (.rule .dimensions))])
  | .simpleType => .alt [.node .phrase (oneOf primitives), .group (.seq [typeIdent, givenArguments, .many (.seq [
      .adopt .scopedTypeIdentifier (.seq [.tok ".", annotations, typeIdent]), givenArguments])])]
  | .dimensions => .node .phrase (atLeastOne (.seq [annotations, .tok "[", .close "]"]))
  | .formalParameters => .node .formalParameters (.seq [.tok "(", .alt [
      .seq [row (.alt [
        .group (.seq [opt (.rule .modifiers), .rule .plainType, .alt [
          .adopt .phrase (.seq [atLeastOne (.seq [ident, .tok "."]), .tok "this"]),
          .adopt .formalParameter (.seq [.playing .name lastAnyIdent, opt (.rule .dimensions)]),
          .adopt .spreadParameter (.seq [.tok "...", annotations,
            .node .variableDeclarator (.seq [.playing .name lastAnyIdent, opt (.rule .dimensions)])])]]),
        phrase [annotations, .rule .plainType, .tok "this"]]), .close ")"],
      .close ")"]])
  | .throws => phrase [.tok "throws", row (.rule .type)]
  | .declarators => row (.playing .declarator (.node .variableDeclarator (.seq [.playing .name lastAnyIdent,
      opt (.rule .dimensions), opt (.seq [.tok "=", .alt [.rule .arrayInitializer, .rule .expression]])])))
  | .arrayInitializer => phrase [.tok "\x7b", opt (row (.alt [.rule .arrayInitializer, .rule .expression])),
      opt (.tok ","), .close "\x7d"]
  | .block => phrase [.tok "\x7b", .many (.rule .statement), .close "\x7d"]
  | .constructorBody => phrase [.tok "\x7b",
      opt (phrase [.alt [.seq [opt (.rule .typeArguments), oneOf ["this", "super"]],
          .seq [.rule .receiver, .tok ".", opt (.rule .typeArguments), .tok "super"]],
        .rule .arguments, .close ";"]),
      .many (.rule .statement), .close "\x7d"]
  | .receiver => .group (.seq [.rule .primary, opt (.adopt .phrase (atLeastOne (.alt [
      .seq [.tok ".", .alt [.rule .creator, .tok "this",
        .seq [opt (.rule .typeArguments), lastIdent, opt (.rule .arguments)]]],
      phrase [.tok "[", .rule .expression, .close "]"]])))])
  | .statement => .alt [.tok ";", .rule .block,
      phrase [.tok "if", .rule .parenthesized, .rule .statement, opt (.seq [.tok "else", .rule .statement])],
      phrase [.tok "while", .rule .parenthesized, .rule .statement],
      phrase [.tok "do", .rule .statement, .tok "while", .rule .parenthesized, .close ";"],
      phrase [.tok "for", .tok "(", .alt [
        .seq [opt (.rule .modifiers), .rule .plainType, lastAnyIdent, opt (.rule .dimensions), .tok ":",
          .rule .expression, .tok ")", .rule .statement],
        .seq [.alt [.rule .localDeclaration, .seq [opt (row (.rule .expression)), .tok ";"]],
          opt (.rule .expression), .tok ";", opt (row (.rule .expression)), .tok ")", .rule .statement]]],
      phrase [.tok "try", .alt [
        .seq [.rule .resources, .rule .block, opt (.rule .catches), opt finallyClause],
        .seq [.rule .block, .alt [.seq [.rule .catches, opt finallyClause], finallyClause]]]],
      .rule .switch,
      phrase [.tok "synchronized", .rule .parenthesized, .rule .block],
      phrase [.tok "return", opt (.rule .expression), .close ";"],
      phrase [.tok "throw", .rule .expression, .close ";"],
      phrase [oneOf ["break", "continue"], opt ident, .close ";"],
      phrase [.tok "yield", .rule .expression, .close ";"],
      phrase [.tok "assert", .rule .expression, opt (.seq [.tok ":", .rule .expression]), .close ";"],
      .rule .importDeclaration,
      phrase [ident, .tok ":", .rule .statement],
      .rule .localDeclaration,
      phrase [.rule .expression, .close ";"]]
  | .resources => phrase [.tok "(", resource, .many (.seq [.tok ";", resource]), opt (.tok ";"), .close ")"]
  | .catches => atLeastOne (phrase [.tok "catch", .tok "(", opt (.rule .modifiers), .rule .plainType,
      .many (.seq [.tok "|", .rule .plainType]), lastAnyIdent, .tok ")", .rule .block])
  | .parenthesized => phrase [.tok "(", .rule .expression, .close ")"]
  | .expression => .alt [.rule .lambda, .group (.seq [.rule .operand, opt (.adopt .phrase (atLeastOne (.alt [
      .seq [.alt assignments, .rule .expression],
      .seq [.tok "?", .rule .expression, .tok ":", .rule .expression],
      .seq [.tok "instanceof", opt (.tok "final"), .alt [.rule .pattern, .rule .type]],
      .seq [.alt infixOperators, .rule .operand]])))])]
  | .lambda => .node .phrase (.seq [.alt [.seq [lastIdent, .tok "->"],
      .seq [.rule .formalParameters, .tok "->"],
      .seq [.tok "(", row lastIdent, .tok ")", .tok "->"]], .alt [.rule .block, .rule .expression]])
  | .operand => .alt [
      phrase [oneOf ["+", "-", "!", "~", "++", "--"], .rule .operand],
      phrase [.tok "(", .rule .type, .many (.seq [.tok "&", .rule .type]), .tok ")",
        .alt [.rule .lambda, .rule .operand]],
      .rule .selection]
  | .selection => .group (.seq [.rule .primary, opt (.adopt .phrase (atLeastOne (.alt [
      .seq [.tok ".", .alt [.rule .creator, oneOf ["this", "super", "class"],
        .ofKind [.string] .stringLiteral,
        .seq [opt (.rule .typeArguments), .name [] .identifier true, opt (.rule .arguments)]]],
      phrase [.tok "[", .rule .expression, .close "]"],
      methodReference,
      oneOf ["++", "--"]])))])
  | .primary => .alt [
      .ofKind [.string] .stringLiteral, .ofKind [.character] .characterLiteral, .ofKind [.number] .phrase,
      .node .phrase (oneOf ["true", "false", "null"]),
      .rule .parenthesized, .node .phrase (oneOf ["this", "super"]), .rule .creator, .rule .switch,
      phrase [.rule .plainType, .alt [.seq [.tok ".", .tok "class"], methodReference]],
      phrase [ident, .rule .arguments],
      lastIdent]
  | .arguments => phrase [.tok "(", opt (row (.rule .expression)), .close ")"]
  | .creator => phrase [.tok "new", annotations, opt (.seq [.rule .typeArguments, annotations]), .rule .simpleType,
      .alt [.seq [.rule .arguments, opt (.rule .classBody)],
        .seq [.rule .dimensions, .rule .arrayInitializer],
        .seq [atLeastOne (phrase [annotations, .tok "[", .rule .expression, .close "]"]),
          opt (.rule .dimensions)]]]
  | .switch => phrase [.tok "switch", .rule .parenthesized, phrase [.tok "\x7b", .alt [
      .seq [atLeastOne (phrase [.rule .switchLabel, .tok "->", .alt [
        .rule .block, phrase [.tok "throw", .rule .expression, .close ";"],
        phrase [.rule .expression, .close ";"]]]), .close "\x7d"],
      .seq [.many (phrase [atLeastOne (.seq [.rule .switchLabel, .tok ":"]), .many (.rule .statement)]),
        .close "\x7d"]]]]
  | .switchLabel => phrase [.alt [
      .seq [.tok "case", row (.alt [.rule .pattern, .tok "default", .rule .labelValue]),
        opt (phrase [.tok "when", .rule .labelValue])],
      .tok "default"]]
  | .labelValue => .group (.seq [.rule .operand, opt (.adopt .phrase (atLeastOne (.alt [
      .seq [.tok "?", .rule .labelValue, .tok ":", .rule .labelValue],
      .seq [.tok "instanceof", opt (.tok "final"), .alt [.rule .pattern, .rule .type]],
      .seq [.alt infixOperators, .rule .operand]])))])
  | .pattern => .node .phrase (.alt [
      .seq [.rule .simpleType, .tok "(", opt (row (.alt [.rule .pattern, .tok "_"])), .close ")"],
      .seq [.rule .plainType, .name ("when" :: Reading.keywords) .identifier false]])

end Rule

end EntityAtlas.Java
