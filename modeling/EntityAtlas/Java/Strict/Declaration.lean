import EntityAtlas.Java.Strict.Statement

/-!
# Declarations

How the strict reader reads the declarations of types and their members, and a whole source.
-/

namespace EntityAtlas.Java.Strict

open Read

/-- The exceptions that a method may throw. -/
def throwsClause : Read Node := do
  return .ofOption ((← optional (skips ["throws"]) (row "," dottedName)).map .texts)

/-- The body of a method, or the semicolon in its place. -/
def methodBody (call : Call) : Read Node := do
  if ← sees ["\x7b"] then call .block
  else
    let _ ← expect [";"]
    return .absent

/-- A method that gives nothing, after its name. -/
def voidMethodRest (call : Call) (name : String) : Read Node := do
  let parameters ← formalParameters call
  let throwsClause ← throwsClause
  return .node .methodDeclaration
    [("name", .text name), ("parameters", parameters), ("throws", throwsClause), ("body", ← methodBody call)]

/-- A method that gives a value, after its name. Dimensions after the parameters belong to the type. -/
def methodRest (call : Call) (type : Node) (name : String) : Read Node := do
  let parameters ← formalParameters call
  let more ← dimensions
  let throwsClause ← throwsClause
  let body ← methodBody call
  return .node .methodDeclaration
    [("name", .text name), ("return_type", addDimensions type more), ("parameters", parameters),
      ("throws", throwsClause), ("body", body)]

/-- A constructor after its name. -/
def constructorRest (call : Call) (name : String) : Read Node := do
  let parameters ← formalParameters call
  let throwsClause ← throwsClause
  return .node .constructorDeclaration
    [("name", .text name), ("parameters", parameters), ("throws", throwsClause), ("body", ← call .block)]

/-- The fields of one type, after the name of the first one. -/
def fieldsRest (call : Call) (type : Node) (name : String) : Read Node := do
  let first ← variableRest call (.text name)
  let others ← repeatWhile (skips [","]) (variableDeclarator call)
  return .node .fieldDeclaration [("type", type), ("declarators", .list (first :: others))]

/-- A constant after its name. -/
def constantRest (call : Call) (name : String) : Read Node := do
  let dimensions ← dimensions
  let _ ← expect ["="]
  let value ← initializer call
  return .node .variableDeclarator
    [("name", .text name), ("dimensions", .list dimensions), ("initializer", value)]

/-- The constants of one type, after the name of the first one. -/
def constantsRest (call : Call) (type : Node) (name : String) : Read Node := do
  let first ← constantRest call name
  let others ← repeatWhile (skips [","]) (do
    let other ← Read.name
    constantRest call other)
  return .node .constantDeclaration [("type", type), ("declarators", .list (first :: others))]

/-- A method or fields. -/
def methodOrFields (call : Call) : Read Node := do
  let type ← anyType call
  let name ← name
  if ← sees ["("] then methodRest call type name
  else
    let fields ← fieldsRest call type name
    let _ ← expect [";"]
    return fields

/-- A method or constants. -/
def methodOrConstants (call : Call) : Read Node := do
  let type ← anyType call
  let name ← name
  if ← sees ["("] then methodRest call type name
  else
    let constants ← constantsRest call type name
    let _ ← expect [";"]
    return constants

/-- A method or a constructor with type parameters. -/
def genericMember (call : Call) : Read Node := do
  let parameters ← typeParameters call
  let member ← if ← sees [.name, "("] then do constructorRest call (← name)
    else if ← skips ["void"] then do voidMethodRest call (← name)
    else do
      let type ← anyType call
      methodRest call type (← name)
  return member.set "type_parameters" parameters

/-- A method with type parameters in an interface. -/
def genericMethod (call : Call) : Read Node := do
  let parameters ← typeParameters call
  let type ← optional (return !(← skips ["void"])) (anyType call)
  let name ← name
  let method ← methodRest call .absent name
  return setAll method [("return_type", .ofOption type), ("type_parameters", parameters)]

/-- The declaration of a class, modifiers apart. -/
def classDeclaration (call : Call) : Read Node := do
  let _ ← expect ["class"]
  let name ← name
  let parameters ← optional (sees ["<"]) (typeParameters call)
  let parent ← optional (skips ["extends"]) (anyType call)
  let interfaces ← optional (skips ["implements"]) (typeList call)
  let body ← call .classBody
  return .node .classDeclaration
    [("name", .text name), ("type_parameters", .ofOption parameters), ("extends", .ofOption parent),
      ("implements", .ofOption (interfaces.map .list)), ("body", body)]

/-- The declaration of an enum, modifiers apart. -/
def enumDeclaration (call : Call) : Read Node := do
  let _ ← expect ["enum"]
  let name ← name
  let interfaces ← optional (skips ["implements"]) (typeList call)
  let body ← call .enumBody
  return .node .enumDeclaration
    [("name", .text name), ("implements", .ofOption (interfaces.map .list)), ("body", body)]

/-- The declaration of an interface, modifiers apart. -/
def interfaceDeclaration (call : Call) : Read Node := do
  let _ ← expect ["interface"]
  let name ← name
  let parameters ← optional (sees ["<"]) (typeParameters call)
  let parents ← optional (skips ["extends"]) (typeList call)
  let body ← call .interfaceBody
  return .node .interfaceDeclaration
    [("name", .text name), ("type_parameters", .ofOption parameters), ("extends", .ofOption (parents.map .list)),
      ("body", body)]

/-- The declaration of an annotation type, modifiers apart. -/
def annotationDeclaration (call : Call) : Read Node := do
  let _ ← expect ["@", "interface"]
  let name ← name
  let body ← call .annotationTypeBody
  return .node .annotationDeclaration [("name", .text name), ("body", body)]

/-- The declaration of the type that is next, modifiers apart, if one is. -/
def declaredType? (call : Call) : Read (Option Node) := do
  if ← sees ["class"] then return some (← classDeclaration call)
  else if ← sees ["enum"] then return some (← enumDeclaration call)
  else if ← sees ["interface"] then return some (← interfaceDeclaration call)
  else if ← seesMarkerDeclaration then return some (← annotationDeclaration call)
  else return none

def typeDeclaration (call : Call) : Read Node := do
  let modifiers ← modifiers call
  match ← declaredType? call with
  | some declaration => return setAll declaration modifiers
  | none => refuse "Expected type declaration"

def member (call : Call) : Read Node := do
  let modifiers ← modifiers call
  let declaration ← if ← skips ["void"] then do voidMethodRest call (← name)
    else if ← sees ["<"] then genericMember call
    else match ← declaredType? call with
      | some declaration => pure declaration
      | none =>
        if ← sees [.name, "("] then do constructorRest call (← name)
        else methodOrFields call
  return setAll declaration modifiers

/-- What stands in the body of a class: nothing, a block or a member. -/
def classBodyPart (call : Call) : Read (Option Node) := do
  if ← skips [";"] then return none
  else
    let part ← if ← sees ["static", "\x7b"] then do
        let _ ← expect ["static"]
        call .block
      else if ← sees ["\x7b"] then call .block
      else member call
    return match part with
      | .list [] => none
      | part => some part

def classBody (call : Call) : Read Node := do
  let _ ← expect ["\x7b"]
  let parts ← upTo "\x7d" (classBodyPart call)
  let _ ← expect ["\x7d"]
  return .list (parts.filterMap id)

def interfaceMember (call : Call) : Read (Option Node) := do
  if ← skips [";"] then return none
  let modifiers ← modifiers call
  let declaration ← match ← declaredType? call with
    | some declaration => pure declaration
    | none =>
      if ← sees ["<"] then genericMethod call
      else if ← skips ["void"] then do voidMethodRest call (← name)
      else methodOrConstants call
  return some (setAll declaration modifiers)

def interfaceBody (call : Call) : Read Node := do
  let _ ← expect ["\x7b"]
  let parts ← upTo "\x7d" (interfaceMember call)
  let _ ← expect ["\x7d"]
  return .list (parts.filterMap id)

def enumConstant (call : Call) : Read Node := do
  let markers ← optional (sees [.kind .at]) (oneOrMore seesMarker (marker call))
  let name ← name
  let arguments ← optional (sees ["("]) (arguments call)
  let body ← optional (sees ["\x7b"]) (call .classBody)
  return .node .enumConstantDeclaration
    [("annotations", .list (markers.getD [])), ("name", .text name), ("arguments", .ofOption arguments),
      ("body", .ofOption body)]

/-- The constants of an enum; a comma may follow the last one. -/
def enumConstants (call : Call) : (fuel : Nat) → Read (List Node)
  | 0 => return []
  | fuel + 1 => do
    if (← sees [";"]) || (← sees ["\x7d"]) then return []
    let constant ← enumConstant call
    if ← skips [","] then return constant :: (← enumConstants call fuel) else return [constant]

/-- The body of an enum: constants, and after a semicolon what may stand in a class. -/
def enumBody (call : Call) : Read Node := do
  let _ ← expect ["\x7b"]
  let constants ← if ← skips [","] then pure [] else do enumConstants call ((← get).bound + 1)
  let parts ← if ← skips [";"] then upTo "\x7d" (classBodyPart call) else pure []
  let _ ← expect ["\x7d"]
  return .node .enumBody [("constants", .list constants), ("declarations", .list (parts.filterMap id))]

/-- An element of an annotation type, after its name, or constants. -/
def annotationElement (call : Call) (type : Node) (name : String) : Read Node := do
  if ← skips ["("] then
    let _ ← expect [")"]
    let dimensions ← dimensions
    let standard ← optional (skips ["default"]) (call .elementValue)
    return .node .annotationMethod
      [("name", .text name), ("return_type", type), ("dimensions", .list dimensions),
        ("default", .ofOption standard)]
  else constantsRest call type name

def annotationTypeMember (call : Call) : Read Node := do
  let modifiers ← modifiers call
  let declaration ← match ← declaredType? call with
    | some declaration => pure declaration
    | none => do
      let type ← anyType call
      let name ← name
      let element ← annotationElement call type name
      let _ ← expect [";"]
      pure element
  return setAll declaration modifiers

def annotationTypeBody (call : Call) : Read Node := do
  let _ ← expect ["\x7b"]
  let parts ← upTo "\x7d" (annotationTypeMember call)
  let _ ← expect ["\x7d"]
  return .list parts

end EntityAtlas.Java.Strict
