import EntityAtlas.Java.Strict.TypeUse

/-!
# Expressions

How the strict reader reads expressions. Operators of equal rank are taken from left to right, and the ranks are sorted
out after all operands are read.
-/

namespace EntityAtlas.Java.Strict

open Read

/-- The operators between two operands by rank, the weakest first. -/
def operatorRanks : List (List String) :=
  [["||"], ["&&"], ["|"], ["^"], ["&"], ["==", "!="], ["<", ">", ">=", "<=", "instanceof"], ["<<", ">>", ">>>"],
    ["+", "-"], ["*", "/", "%"]]

/-- The operators that stand between two operands, `instanceof` apart. -/
def infixOperators : List String :=
  ["||", "&&", "|", "^", "&", "==", "!=", "<", ">", "<=", ">=", "<<", ">>", ">>>", "+", "-", "*", "/", "%"]

/-- The operators that stand before an operand. -/
def leadingOperators : List String := ["++", "--", "!", "~", "+", "-"]

/-- The operators that stand after an operand. -/
def trailingOperators : List String := ["++", "--"]

def assignmentOperators : List String :=
  ["=", "+=", "-=", "*=", "/=", "&=", "|=", "^=", "%=", "<<=", ">>=", ">>>="]

/-- A row of operators, each with the operand after it. -/
abbrev Operations := List (String × Node)

/-- A row cut at the operators of one rank: what comes before the first of them, and each of them with its operand and
what follows. -/
def cutAt (rank : List String) : Operations → Operations × List (String × Node × Operations)
  | [] => ([], [])
  | (op, n) :: rest =>
    let (head, more) := cutAt rank rest
    if rank.contains op then ([], (op, n, head) :: more) else ((op, n) :: head, more)

/-- The operation that a row stands for. -/
def operation : (ranks : List (List String)) → Node → Operations → Node
  | [], first, _ => first
  | rank :: ranks, first, row =>
    let (head, more) := cutAt rank row
    more.foldl (fun left (op, n, inner) =>
        .node .binaryOperation [("operandl", left), ("operator", .text op), ("operandr", operation ranks n inner)])
      (operation ranks first head)

/-- A parameter, and whether it takes any number of values. -/
def formalParameter (call : Call) : Read (Node × Bool) := do
  let modifiers ← variableModifiers call
  let type ← anyType call
  let isVariable ← skips ["..."]
  let name ← name
  let type := addDimensions type (← dimensions)
  return (.node .formalParameter (modifiers ++ [("type", type), ("name", .text name), ("varargs", .flag isVariable)]),
    isVariable)

/-- Parameters; the one that takes any number of values is the last. -/
def formalParametersFrom (call : Call) : (fuel : Nat) → Read (List Node)
  | 0 => return []
  | fuel + 1 => do
    let (parameter, isVariable) ← formalParameter call
    if isVariable then return [parameter]
    if ← skips [","] then return parameter :: (← formalParametersFrom call fuel) else return [parameter]

def formalParameters (call : Call) : Read Node := do
  let _ ← expect ["("]
  if ← skips [")"] then return .list []
  let parameters ← formalParametersFrom call ((← get).bound + 1)
  let _ ← expect [")"]
  return .list parameters

/-- An array in curly brackets; commas stand between its elements, and one may stand after them. -/
def arrayElements (element : Read Node) : Read Node := do
  let goesOn : Read Bool := do
    if !(← sees ["\x7d"]) then let _ ← expect [","]
    return !(← skips ["\x7d"])
  return .node .arrayInitializer [("initializers", .list (← oneOrMore goesOn element))]

/-- The first value of a variable: an expression, or an array of such values. -/
def variableInitializer (call : Call) : (fuel : Nat) → Read Node
  | 0 => throw .ended
  | fuel + 1 => do
    if ← sees ["\x7b"] then
      let _ ← expect ["\x7b"]
      if ← skips [","] then
        let _ ← expect ["\x7d"]
        return .node .arrayInitializer [("initializers", .list [])]
      if ← skips ["\x7d"] then return .node .arrayInitializer [("initializers", .list [])]
      arrayElements (variableInitializer call fuel)
    else call .expression

/-- The first value of a variable. -/
def initializer (call : Call) : Read Node := do
  variableInitializer call ((← get).bound + 1)

/-- An array in curly brackets. -/
def arrayInitializer (call : Call) : Read Node := do
  if ← sees ["\x7b"] then initializer call else do
    let _ ← expect ["\x7b"]
    return .absent

/-- Expressions in parentheses, with commas between them. -/
def arguments (call : Call) : Read Node := do
  let _ ← expect ["("]
  if ← skips [")"] then return .list []
  let expressions ← row "," (call .expression)
  let _ ← expect [")"]
  return .list expressions

/-- An expression in parentheses. -/
def parenthesized (call : Call) : Read Node := do
  let _ ← expect ["("]
  let expression ← call .expression
  let _ ← expect [")"]
  return expression

/-- What follows the parameters of a lambda. -/
def lambdaBody (call : Call) : Read Node := do
  let _ ← expect ["->"]
  if ← sees ["\x7b"] then call .block else call .expression

/-- A lambda whose parameters stand in parentheses. Names alone may stand there if there are two or more. -/
def lambda (call : Call) : Read Node := do
  let parameters ← if ← sees ["(", .name, ","] then do
      let _ ← expect ["("]
      let parameters ← upTo ")" (do
        let n ← name
        let _ ← skips [","]
        return .node .inferredFormalParameter [("name", .text n)])
      let _ ← expect [")"]
      pure (.list parameters)
    else formalParameters call
  return .node .lambdaExpression [("parameters", parameters), ("body", ← lambdaBody call)]

/-- The arguments of a creation, and the body of an unnamed class. -/
def classCreatorRest (call : Call) : Read (List (String × Node)) := do
  let arguments ← arguments call
  let body ← optional (sees ["\x7b"]) (call .classBody)
  return [("arguments", arguments), ("body", .ofOption body)]

/-- The sizes of an array that is created, or its elements. -/
def arrayCreatorRest (call : Call) : Read Node := do
  if ← sees ["[", "]"] then
    let dimensions ← dimensions
    return .node .arrayCreator [("dimensions", .list dimensions), ("initializer", ← arrayInitializer call)]
  else
    let sizes ← repeatWhile (return (← sees ["["]) && !(← sees ["[", "]"])) (do
      let _ ← expect ["["]
      let size ← call .expression
      let _ ← expect ["]"]
      return size)
    return .node .arrayCreator [("dimensions", .list (sizes ++ (← dimensions)))]

/-- What follows `new`. -/
def creator (call : Call) : Read Node := do
  if ← sees [.kind .basicType] then
    let type ← basicType
    return (← arrayCreatorRest call).set "type" type
  let typeArguments ← optional (sees ["<"]) (callTypeArguments call)
  let type ← createdType call
  if ← sees ["["] then
    if typeArguments.isSome then refuse "Array creator not allowed with generic constructor type arguments"
    return (← arrayCreatorRest call).set "type" type
  let rest ← classCreatorRest call
  return .node .classCreator (("constructor_type_arguments", .ofOption typeArguments) :: ("type", type) :: rest)

/-- What follows `.new`. -/
def innerCreator (call : Call) : Read Node := do
  let constructorArguments ← optional (sees ["<"]) (callTypeArguments call)
  let name ← name
  let typeArguments ← optional (sees ["<"]) (callTypeArgumentsOrDiamond call)
  let type := .node .referenceType [("name", .text name), ("arguments", .ofOption typeArguments)]
  let rest ← classCreatorRest call
  return .node .innerClassCreator
    (("type", type) :: ("constructor_type_arguments", .ofOption constructorArguments) :: rest)

/-- What follows `super`. -/
def superSuffix (call : Call) : Read Node := do
  if ← skips ["."] then
    let typeArguments ← optional (sees ["<"]) (callTypeArguments call)
    let name ← name
    match ← optional (sees ["("]) (arguments call) with
    | some arguments =>
      return .node .superMethodInvocation
        [("member", .text name), ("arguments", arguments), ("type_arguments", .ofOption typeArguments)]
    | none => return .node .superMemberReference [("member", .text name)]
  else return .node .superConstructorInvocation [("arguments", ← arguments call)]

/-- What follows the type arguments of a call. -/
def genericCallSuffix (call : Call) : Read Node := do
  if ← skips ["super"] then superSuffix call
  else
    let name ← name
    return .node .methodInvocation [("member", .text name), ("arguments", ← arguments call)]

/-- A call with type arguments. -/
def genericCall (call : Call) : Read Node := do
  let typeArguments ← callTypeArguments call
  return (← genericCallSuffix call).set "type_arguments" typeArguments

/-- What follows a dotted name. -/
def nameSuffix (call : Call) : Read Node := do
  if ← skips ["[", "]"] then
    let dimensions ← dimensions
    let _ ← expect [".", "class"]
    return .node .classReference [("type", .node .anyType [("dimensions", .list (.absent :: dimensions))])]
  else if ← sees ["("] then return .node .methodInvocation [("arguments", ← arguments call)]
  else if ← skips [".", "class"] then return .node .classReference []
  else if ← skips [".", "this"] then return .node .selfReference []
  else if ← sees [".", "<"] then
    let _ ← take
    genericCall call
  else if ← skips [".", "new"] then innerCreator call
  else if ← sees [".", "super", "("] then
    let _ ← expect [".", "super"]
    return .node .superConstructorInvocation [("arguments", ← arguments call)]
  else return .node .memberReference []

/-- A dotted name and what follows it. Its last part is the member or the type, the others qualify it. -/
def named (call : Call) : Read Node := do
  let names ← oneOrMore (sees [".", .name]) (do
    let _ ← skips ["."]
    name)
  let suffix ← nameSuffix call
  let last := names.getLast?.getD ""
  let qualified (n : Node) (names : List String) := n.set "qualifier" (.text (".".intercalate names))
  return match suffix.kind? with
    | some .memberReference => qualified (suffix.set "member" (.text last)) names.dropLast
    | some .methodInvocation => qualified (suffix.set "member" (.text last)) names.dropLast
    | some .classReference =>
      qualified (suffix.set "type" (.node .referenceType [("name", .text last)])) names.dropLast
    | _ => qualified suffix names

/-- What an operand starts with. -/
def primary (call : Call) : Read Node := do
  let token ← look 0
  let kind := token.map (·.kind)
  if kind == some .literal then return .node .literal [("value", .text (← expect [.kind .literal]))]
  else if ← sees ["("] then parenthesized call
  else if ← skips ["this"] then
    match ← optional (sees ["("]) (arguments call) with
    | some arguments => return .node .explicitConstructorInvocation [("arguments", arguments)]
    | none => return .node .selfReference []
  else if ← sees ["super", "::"] then return .keyword (← take)
  else if ← skips ["super"] then superSuffix call
  else if ← skips ["new"] then creator call
  else if ← sees ["<"] then
    let typeArguments ← callTypeArguments call
    if ← skips ["this"] then
      return .node .explicitConstructorInvocation
        [("type_arguments", typeArguments), ("arguments", ← arguments call)]
    else return (← genericCallSuffix call).set "type_arguments" typeArguments
  else if kind == some .identifier then named call
  else if kind == some .basicType then
    let type ← basicType
    let type := type.set "dimensions" (.list (← dimensions))
    let _ ← expect [".", "class"]
    return .node .classReference [("type", type)]
  else if ← skips ["void"] then
    let _ ← expect [".", "class"]
    return .node .voidClassReference []
  else refuse "Expected expression"

/-- What is selected from an operand. -/
def selector (call : Call) : Read Node := do
  if ← skips ["["] then
    let index ← call .expression
    let _ ← expect ["]"]
    return .node .arraySelector [("index", index)]
  else if ← skips ["."] then
    if ← sees [.name] then
      let name ← name
      match ← optional (sees ["("]) (arguments call) with
      | some arguments => return .node .methodInvocation [("member", .text name), ("arguments", arguments)]
      | none => return .node .memberReference [("member", .text name)]
    else if ← sees ["super", "::"] then return .keyword (← take)
    else if ← sees ["<"] then genericCall call
    else if ← skips ["this"] then return .node .selfReference []
    else if ← skips ["super"] then superSuffix call
    else if ← skips ["new"] then innerCreator call
    else refuse "Expected selector"
  else refuse "Expected selector"

/-- Whether a selector is next. The question cannot be put at the end of a source. -/
def seesSelector : Read Bool := do
  match ← nextText with
  | none => throw .comparedEnd
  | some text => return text == "[" || text == "."

/-- Take operators of a set. -/
def operatorsOf (set : List String) : Read Node := do
  return .texts (← repeatWhile (seesOneOf set) (return (← take).text))

/-- An operand without a lambda or a cast, with the operators before it. -/
def plainOperand (call : Call) (leading : Node) : Read Node := do
  let operand := (← primary call).set "prefix_operators" leading
  let selectors ← repeatWhile seesSelector (selector call)
  let trailing ← operatorsOf trailingOperators
  return (operand.set "selectors" (.list selectors)).set "postfix_operators" trailing

def cast (call : Call) : Read Node := do
  let _ ← expect ["("]
  let type ← anyType call
  let _ ← expect [")"]
  return .node .cast [("type", type), ("expression", ← call .operand)]

/-- An operand. Where it starts with a parenthesis it is a lambda if it can be read as one, or else a cast. -/
def operand (call : Call) : Read Node := do
  let leading ← operatorsOf leadingOperators
  if ← sees ["("] then orElse (lambda call) (orElse (cast call) (plainOperand call leading))
  else plainOperand call leading

/-- An operator between two operands. -/
def infixOperator : Read String := do
  let operator ← expect [.kind .operator]
  if !infixOperators.contains operator then refuse "Expected infix operator"
  if operator == ">" && (← skips [">"]) then
    if ← skips [">"] then return ">>>" else return ">>"
  return operator

/-- Operators and the operands after them. -/
def operations (call : Call) : Read Operations :=
  repeatWhile (seesOneOf ("instanceof" :: infixOperators)) (do
    if ← skips ["instanceof"] then return ("instanceof", ← anyType call)
    else
      let operator ← infixOperator
      return (operator, ← call .operand))

/-- Operands and the operators between them. -/
def operationOf (call : Call) : Read Node := do
  let first ← call .operand
  let row ← operations call
  return operation operatorRanks first row

/-- What follows `::`, and the type arguments before it. -/
def methodReference (call : Call) (expression : Node) : Read Node := do
  let typeArguments ← optional (sees ["<"]) (callTypeArguments call)
  let method ← if ← sees ["new"] then do pure (.node .memberReference [("member", .text (← expect ["new"]))])
    else call .expression
  return .node .methodReference
    [("expression", expression), ("method", method), ("type_arguments", typeArguments.getD (.list []))]

/-- An expression that assigns nothing. -/
def conditional (call : Call) : Read Node := do
  let condition ← operationOf call
  if ← skips ["?"] then
    let ifTrue ← call .expression
    let _ ← expect [":"]
    return .node .ternaryExpression
      [("condition", condition), ("if_true", ifTrue), ("if_false", ← call .conditional)]
  else if ← sees ["->"] then
    return .node .lambdaExpression [("parameters", .list [condition]), ("body", ← lambdaBody call)]
  else if ← skips ["::"] then methodReference call condition
  else return condition

def expression (call : Call) : Read Node := do
  let left ← conditional call
  if ← seesOneOf assignmentOperators then
    let operator ← take
    return .node .assignment [("expressionl", left), ("type", .text operator.text), ("value", ← call .expression)]
  else return left

end EntityAtlas.Java.Strict
