import EntityAtlas.Java.Strict.Expression

/-!
# Statements

How the strict reader reads blocks and statements. A statement that starts with a name is read as the declaration of a
variable if it can be.
-/

namespace EntityAtlas.Java.Strict

open Read

/-- A statement of a kind, which bears no label yet. -/
def statementOf (kind : NodeKind) (parts : List (String × Node)) : Node := .node kind parts

/-- A variable after its name. -/
def variableRest (call : Call) (name : Node) : Read Node := do
  let dimensions ← dimensions
  let value ← optional (skips ["="]) (initializer call)
  return .node .variableDeclarator
    [("name", name), ("dimensions", .list dimensions), ("initializer", .ofOption value)]

def variableDeclarator (call : Call) : Read Node := do
  let name ← name
  variableRest call (.text name)

/-- The declaration of local variables. -/
def localVariables (call : Call) : Read Node := do
  let modifiers ← variableModifiers call
  let type ← anyType call
  let declarators ← row "," (variableDeclarator call)
  let _ ← expect [";"]
  return .node .localVariableDeclaration (modifiers ++ [("type", type), ("declarators", .list declarators)])

/-- Expressions with commas between them. -/
def expressions (call : Call) : Read Node := do
  return .list (← row "," (call .expression))

/-- The parts of a loop after its first variables: what is tested and what is done after each turn. -/
def loopRest (call : Call) : Read (List (String × Node)) := do
  let _ ← expect [";"]
  let condition ← optional (return !(← sees [";"])) (call .expression)
  let _ ← expect [";"]
  let update ← optional (return !(← sees [")"])) (expressions call)
  return [("condition", .ofOption condition), ("update", .ofOption update)]

/-- The control of a loop that has a variable of its own. -/
def variableControl (call : Call) : Read Node := do
  let modifiers ← variableModifiers call
  let type ← anyType call
  let name ← name
  let type := addDimensions type (← dimensions)
  let declaration (declarators : List Node) : Node :=
    .node .variableDeclaration (modifiers ++ [("type", type), ("declarators", .list declarators)])
  if ← skips [":"] then
    let iterable ← call .expression
    return .node .enhancedForControl
      [("var", declaration [.node .variableDeclarator [("name", .text name)]]), ("iterable", iterable)]
  let declarators ← if ← sees [";"] then pure [.node .variableDeclarator [("name", .text name)]]
    else do
      let value ← optional (skips ["="]) (initializer call)
      let others ← repeatWhile (skips [","]) (variableDeclarator call)
      pure (.node .variableDeclarator [("name", .text name), ("initializer", .ofOption value)] :: others)
  return .node .forControl (("init", declaration declarators) :: (← loopRest call))

/-- The control of a loop that has no variable of its own. -/
def plainControl (call : Call) : Read Node := do
  let init ← optional (return !(← sees [";"])) (expressions call)
  return .node .forControl (("init", .ofOption init) :: (← loopRest call))

def loopControl (call : Call) : Read Node :=
  orElse (variableControl call) (plainControl call)

/-- The handling of an exception. -/
def catchClause (call : Call) : Read Node := do
  let _ ← expect ["catch", "("]
  let _ ← variableModifiers call
  let types ← row "|" dottedName
  let name ← name
  let _ ← expect [")"]
  let block ← call .block
  return .node .catchClause
    [("parameter", .node .catchClauseParameter [("types", .texts types), ("name", .text name)]), ("block", block)]

/-- The handling of exceptions, if there is any. -/
def catches (call : Call) : Read (Option Node) :=
  optional (sees ["catch"]) (do return .list (← oneOrMore (sees ["catch"]) (catchClause call)))

/-- What is run in any case, if there is anything. -/
def finallyBlock (call : Call) : Read (Option Node) :=
  optional (skips ["finally"]) (call .block)

/-- A resource. -/
def resource (call : Call) : Read Node := do
  let modifiers ← variableModifiers call
  let type ← call .referenceType
  let before ← dimensions
  let name ← name
  let after ← dimensions
  let _ ← expect ["="]
  let value ← call .expression
  return .node .tryResource
    (modifiers ++ [("type", type.set "dimensions" (.list (before ++ after))), ("name", .text name), ("value", value)])

/-- Resources in parentheses, each but the last one with a semicolon after it. -/
def resources (call : Call) : Read Node := do
  let _ ← expect ["("]
  let goesOn : Read Bool := do
    if !(← sees [")"]) then let _ ← expect [";"]
    return !(← skips [")"])
  return .list (← oneOrMore goesOn (resource call))

/-- What follows `try`. Without resources something must be caught or run in any case. -/
def tryStatement (call : Call) : Read Node := do
  let resources ← optional (return !(← sees ["\x7b"])) (resources call)
  let block ← call .block
  let catches ← catches call
  let finallyBlock ← finallyBlock call
  if resources.isNone && catches.isNone && finallyBlock.isNone then refuse "Expected catch/finally block"
  return statementOf .tryStatement
    [("resources", .ofOption resources), ("block", block), ("catches", .ofOption catches),
      ("finally_block", .ofOption finallyBlock)]

/-- The labels of a group of statements; `default` adds nothing to the list. -/
def switchLabels (call : Call) : (fuel : Nat) → Read (List Node)
  | 0 => return []
  | fuel + 1 => do
    let word ← take
    let label ← if word.text == "case" then
        if ← sees [.name, ":"] then do pure [Node.text (← name)] else do pure [← call .expression]
      else if word.text == "default" then pure []
      else refuse "Expected switch case"
    let _ ← expect [":"]
    if ← seesOneOf ["case", "default"] then return label ++ (← switchLabels call fuel) else return label

/-- A group of statements with its labels. -/
def switchGroup (call : Call) : Read Node := do
  let labels ← switchLabels call ((← get).bound + 1)
  let statements ← repeatWhile (return !(← seesOneOf ["case", "default", "\x7d"])) (call .blockStatement)
  return .node .switchStatementCase [("case", .list labels), ("statements", .list statements)]

/-- What follows `switch`. -/
def switchStatement (call : Call) : Read Node := do
  let expression ← parenthesized call
  let _ ← expect ["\x7b"]
  let cases ← repeatWhile (seesOneOf ["case", "default"]) (switchGroup call)
  let _ ← expect ["\x7d"]
  return statementOf .switchStatement [("expression", expression), ("cases", .list cases)]

/-- A jump to the end of a loop, or out of it. -/
def jump (kind : NodeKind) : Read Node := do
  let label ← optional (sees [.name]) name
  let _ ← expect [";"]
  return statementOf kind [("goto", .ofOption (label.map .text))]

def statement (call : Call) : Read Node := do
  if ← sees ["\x7b"] then return statementOf .blockStatement [("statements", ← call .block)]
  else if ← skips [";"] then return statementOf .emptyStatement []
  else if ← sees [.name, ":"] then
    let label ← name
    let _ ← expect [":"]
    return (← call .statement).set "label" (.text label)
  else if ← skips ["if"] then
    let condition ← parenthesized call
    let thenOne ← call .statement
    let elseOne ← optional (skips ["else"]) (call .statement)
    return statementOf .ifStatement
      [("condition", condition), ("then_statement", thenOne), ("else_statement", .ofOption elseOne)]
  else if ← skips ["assert"] then
    let condition ← call .expression
    let value ← optional (skips [":"]) (call .expression)
    let _ ← expect [";"]
    return statementOf .assertStatement [("condition", condition), ("value", .ofOption value)]
  else if ← skips ["switch"] then switchStatement call
  else if ← skips ["while"] then
    let condition ← parenthesized call
    return statementOf .whileStatement [("condition", condition), ("body", ← call .statement)]
  else if ← skips ["do"] then
    let body ← call .statement
    let _ ← expect ["while"]
    let condition ← parenthesized call
    let _ ← expect [";"]
    return statementOf .doStatement [("condition", condition), ("body", body)]
  else if ← skips ["for"] then
    let _ ← expect ["("]
    let control ← loopControl call
    let _ ← expect [")"]
    return statementOf .forStatement [("control", control), ("body", ← call .statement)]
  else if ← skips ["break"] then jump .breakStatement
  else if ← skips ["continue"] then jump .continueStatement
  else if ← skips ["return"] then
    let value ← optional (return !(← sees [";"])) (call .expression)
    let _ ← expect [";"]
    return statementOf .returnStatement [("expression", .ofOption value)]
  else if ← skips ["throw"] then
    let value ← call .expression
    let _ ← expect [";"]
    return statementOf .throwStatement [("expression", value)]
  else if ← skips ["synchronized"] then
    let lock ← parenthesized call
    return statementOf .synchronizedStatement [("lock", lock), ("block", ← call .block)]
  else if ← skips ["try"] then tryStatement call
  else
    let expression ← call .expression
    let _ ← expect [";"]
    return statementOf .statementExpression [("expression", expression)]

/-- What stands before a statement in a block: whether a modifier shows that a type is declared, or else whether there
are annotations, and the token that comes after all that. -/
inductive Lead where
  | declaration
  | plain (hasMarkers : Bool) (next : Option Token)

/-- The tokens after a closing parenthesis, `depth` of them being open. -/
def afterParentheses : (depth : Nat) → List Token → List Token
  | 0, ts => ts
  | _ + 1, [] => []
  | depth + 1, t :: ts =>
    if t.text == "(" then afterParentheses (depth + 2) ts
    else if t.text == ")" then afterParentheses depth ts
    else afterParentheses (depth + 1) ts

/-- The tokens after the further parts of a dotted name. -/
def afterPoints : List Token → List Token
  | t :: u :: ts => if t.text == "." then afterPoints ts else t :: u :: ts
  | [t] => if t.text == "." then [] else [t]
  | [] => []

/-- What stands before a statement. After an annotation without parentheses one token is passed unseen. -/
def leadOf : (fuel : Nat) → (hasMarkers : Bool) → List Token → Lead
  | 0, hasMarkers, ts => .plain hasMarkers ts.head?
  | fuel + 1, hasMarkers, ts =>
    match ts with
    | [] => .plain hasMarkers none
    | t :: rest =>
      if t.kind == .modifier then if t.text == "final" then leadOf fuel hasMarkers rest else .declaration
      else if t.kind == .at && !rest.head?.any (·.text == "interface") then
        match afterPoints (rest.drop 1) with
        | [] => leadOf fuel true []
        | u :: rest => leadOf fuel true (if u.text == "(" then afterParentheses 1 rest else rest)
      else .plain hasMarkers (some t)

/-- A statement of a block, or a declaration in it. -/
def blockStatement (call : Call) : Read Node := do
  if (← sees [.name, ":"]) || (← sees ["synchronized"]) then call .statement
  else
    let cursor ← get
    match leadOf (cursor.bound + 1) false cursor.rest with
    | .declaration => call .typeDeclaration
    | .plain hasMarkers next =>
      if next.any fun t => ["class", "enum", "interface", "@"].contains t.text then call .typeDeclaration
      else if hasMarkers || next.any (·.kind == .basicType) then localVariables call
      else if next.any (·.kind == .identifier) then orElse (localVariables call) (call .statement)
      else call .statement

/-- Statements in curly brackets. -/
def block (call : Call) : Read Node := do
  let _ ← expect ["\x7b"]
  let statements ← upTo "\x7d" (call .blockStatement)
  let _ ← expect ["\x7d"]
  return .list statements

end EntityAtlas.Java.Strict
