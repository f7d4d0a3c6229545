import EntityAtlas.Java.Strict.Cursor

/-!
# Types and annotations

How the strict reader reads the uses of types, the parameters of types, and annotations with their values. What can hold
itself is read by way of `Call`.
-/

namespace EntityAtlas.Java.Strict

/-- The phrases that can hold themselves. -/
inductive Phrase where
  | referenceType
  | elementValue
  | expression
  | conditional
  | operand
  | block
  | statement
  | blockStatement
  | typeDeclaration
  | classBody
  | enumBody
  | interfaceBody
  | annotationTypeBody
  deriving DecidableEq, Repr

/-- How phrases are read. -/
abbrev Call := Phrase → Read Node

open Read

/-- Pairs of square brackets. -/
def dimensions : Read (List Node) :=
  repeatWhile (skips ["[", "]"]) (return .absent)

def addDimensions (type : Node) (more : List Node) : Node :=
  type.set "dimensions" (.list ((type.part "dimensions").items ++ more))

/-- A type of the language itself. -/
def basicType : Read Node := do
  return .node .basicType [("name", .text (← expect [.kind .basicType]))]

/-- A type that is an argument or stands in a list: one of the language itself only with brackets. -/
def objectType (call : Call) : Read Node := do
  let type ← if ← sees [.kind .basicType] then do
      let type ← basicType
      let _ ← expect ["[", "]"]
      pure (type.set "dimensions" (.list [.absent]))
    else do
      let type ← call .referenceType
      pure (type.set "dimensions" (.list []))
  return addDimensions type (← dimensions)

def typeArgument (call : Call) : Read Node := do
  if ← skips ["?"] then
    if ← seesOneOf ["extends", "super"] then
      let bound ← take
      let type ← objectType call
      return .node .typeArgument [("type", type), ("pattern_type", .text bound.text)]
    else return .node .typeArgument [("pattern_type", .text "?")]
  else return .node .typeArgument [("type", ← objectType call)]

/-- Whether a list in angle brackets goes on; its closing bracket is taken. -/
def anglesGoOn : Read Bool := do
  if ← skips [">"] then return false
  let _ ← expect [","]
  return true

def typeArguments (call : Call) : Read Node := do
  let _ ← expect ["<"]
  return .list (← oneOrMore anglesGoOn (typeArgument call))

/-- The arguments of a type, or `<>`. -/
def typeArgumentsOrDiamond (call : Call) : Read Node := do
  if ← skips ["<", ">"] then return .list [] else typeArguments call

/-- A dotted type, its parts one inside the other, each with its arguments. -/
def typeChain (arguments : Read Node) : (fuel : Nat) → Read Node
  | 0 => throw .ended
  | fuel + 1 => do
    let name ← name
    let arguments' ← optional (sees ["<"]) arguments
    let inner ← optional (skips ["."]) (typeChain arguments fuel)
    return .node .referenceType
      [("name", .text name), ("arguments", .ofOption arguments'), ("sub_type", .ofOption inner)]

/-- A type that is declared somewhere. -/
def referenceType (call : Call) : Read Node := do
  typeChain (typeArguments call) ((← get).bound + 1)

/-- The type that is created, which may leave its arguments to be inferred. -/
def createdType (call : Call) : Read Node := do
  typeChain (typeArgumentsOrDiamond call) ((← get).bound + 1)

def anyType (call : Call) : Read Node := do
  let type ← if ← sees [.kind .basicType] then basicType
    else if ← sees [.name] then call .referenceType
    else refuse "Expected type"
  return type.set "dimensions" (.list (← dimensions))

/-- Types with commas between them. -/
def typeList (call : Call) : Read (List Node) :=
  row "," (objectType call)

/-- The arguments of a call, none of them a wildcard. -/
def callTypeArguments (call : Call) : Read Node := do
  let _ ← expect ["<"]
  let types ← typeList call
  let _ ← expect [">"]
  return .list (types.map fun t => .node .typeArgument [("type", t)])

/-- The arguments of a call, or `<>`. -/
def callTypeArgumentsOrDiamond (call : Call) : Read Node := do
  if ← skips ["<", ">"] then return .list [] else callTypeArguments call

def typeParameter (call : Call) : Read Node := do
  let name ← name
  let bounds ← optional (skips ["extends"]) (row "&" (call .referenceType))
  return .node .typeParameter [("name", .text name), ("extends", .ofOption (bounds.map .list))]

def typeParameters (call : Call) : Read Node := do
  let _ ← expect ["<"]
  return .list (← oneOrMore anglesGoOn (typeParameter call))

def elementValuePair (call : Call) : Read Node := do
  let name ← name
  let _ ← expect ["="]
  return .node .elementValuePair [("name", .text name), ("value", ← call .elementValue)]

/-- An annotation. -/
def marker (call : Call) : Read Node := do
  let _ ← expect ["@"]
  let name ← dottedName
  if ← skips ["("] then
    let element ← if ← sees [")"] then pure .absent
      else if ← sees [.name, "="] then do pure (.list (← row "," (elementValuePair call)))
      else call .elementValue
    let _ ← expect [")"]
    return .node .marker [("name", .text name), ("element", element)]
  else return .node .marker [("name", .text name)]

/-- Whether the values of an array go on. -/
def elementsGoOn : Read Bool := do
  if (← sees ["\x7d"]) || (← sees [",", "\x7d"]) then return false
  let _ ← expect [","]
  return true

/-- An array of values; an empty one is a bare list. -/
def elementArray (call : Call) : Read Node := do
  let _ ← expect ["\x7b"]
  if ← skips ["\x7d"] then return .list []
  let values ← oneOrMore elementsGoOn (call .elementValue)
  let _ ← skips [","]
  let _ ← expect ["\x7d"]
  return .node .elementArrayValue [("values", .list values)]

def elementValue (call : Call) : Read Node := do
  if ← seesMarker then marker call
  else if ← sees ["\x7b"] then elementArray call
  else call .conditional

/-- Annotations and modifiers in any order: the modifiers, each once, and the annotations. -/
def modifiersFrom (call : Call) (isModifier : Wanted) : (fuel : Nat) → Read (List String × List Node)
  | 0 => return ([], [])
  | fuel + 1 => do
    if ← sees [isModifier] then
      let word ← expect [isModifier]
      let (words, markers) ← modifiersFrom call isModifier fuel
      return (if words.contains word then words else word :: words, markers)
    else if ← seesMarker then
      let m ← marker call
      let (words, markers) ← modifiersFrom call isModifier fuel
      return (words, m :: markers)
    else return ([], [])

/-- What stands before a declaration, as parts of it. -/
abbrev Modifiers := List (String × Node)

/-- Modifiers of one kind and annotations. -/
def modifiersOf (call : Call) (isModifier : Wanted) : Read Modifiers := do
  let (words, markers) ← modifiersFrom call isModifier ((← get).bound + 1)
  return [("modifiers", .words words), ("annotations", .list markers)]

def modifiers (call : Call) : Read Modifiers :=
  modifiersOf call (.kind .modifier)

def variableModifiers (call : Call) : Read Modifiers :=
  modifiersOf call "final"

/-- Set several parts of a node. -/
def setAll (n : Node) (parts : List (String × Node)) : Node :=
  parts.foldl (fun n p => n.set p.1 p.2) n

end EntityAtlas.Java.Strict
