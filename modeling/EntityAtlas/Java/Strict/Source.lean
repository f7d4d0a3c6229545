import EntityAtlas.Java.Strict.Declaration

/-!
# Whole sources

How phrases are read that hold one another, and the reading of a source: its package, its imports and its types.
-/

namespace EntityAtlas.Java.Strict

open Read

/-- How a phrase is read, when phrases inside it are read by `call`. -/
def Phrase.form (call : Call) : Phrase → Read Node
  | .referenceType => Strict.referenceType call
  | .elementValue => Strict.elementValue call
  | .expression => Strict.expression call
  | .conditional => Strict.conditional call
  | .operand => Strict.operand call
  | .block => Strict.block call
  | .statement => Strict.statement call
  | .blockStatement => Strict.blockStatement call
  | .typeDeclaration => Strict.typeDeclaration call
  | .classBody => Strict.classBody call
  | .enumBody => Strict.enumBody call
  | .interfaceBody => Strict.interfaceBody call
  | .annotationTypeBody => Strict.annotationTypeBody call

/-- Read a phrase, with phrases inside one another at most `fuel` deep. -/
def Phrase.read : (fuel : Nat) → Call
  | 0, _ => throw .ended
  | fuel + 1, p => p.form (Phrase.read fuel)

structure Import where
  path : String
  isStatic : Bool
  isWildcard : Bool
  deriving DecidableEq, Repr

structure Source where
  package : Option String
  imports : List Import
  types : List Node
  deriving Inhabited, Repr

/-- The names of an import after `import`, and whether a star follows them. -/
def importedNames : (fuel : Nat) → Read (List String × Bool)
  | 0 => throw .ended
  | fuel + 1 => do
    let name ← name
    if ← skips ["."] then
      if ← skips ["*"] then
        let _ ← expect [";"]
        return ([name], true)
      else
        let (names, isWildcard) ← importedNames fuel
        return (name :: names, isWildcard)
    else
      let _ ← expect [";"]
      return ([name], false)

def importLine : Read Import := do
  let _ ← expect ["import"]
  let isStatic ← skips ["static"]
  let (names, isWildcard) ← importedNames ((← get).bound + 1)
  return ⟨".".intercalate names, isStatic, isWildcard⟩

/-- The package of a source. Annotations without a package after them belong to a type and are read again. -/
def packageLine (call : Call) : Read (Option String) := do
  openAttempt
  let _ ← optional seesMarker (oneOrMore seesMarker (marker call))
  if ← skips ["package"] then
    modify keepAttempt
    let name ← dottedName
    let _ ← expect [";"]
    return some name
  else
    modify undoAttempt
    return none

/-- The declaration of a type on the outermost level; a semicolon is none. A source that ends inside is refused. -/
def topType (call : Call) : Read (Option Node) := do
  if ← skips [";"] then return none
  else tryCatch (do return some (← call .typeDeclaration)) fun
    | .ended => refuse "Unexpected end of input"
    | f => throw f

def source (call : Call) : Read Source := do
  let package ← packageLine call
  let imports ← repeatWhile (sees ["import"]) importLine
  let types ← repeatWhile (return (← look 0).isSome) (topType call)
  return ⟨package, imports, types.filterMap id⟩

namespace Source

/-- How deep phrases of a source may lie inside one another: a few for every token. -/
def depth (tokens : Nat) : Nat := 16 * (tokens + 2)

def ofTokens (tokens : List Token) : Except Fault Source :=
  match source (Phrase.read (depth tokens.length)) ⟨tokens, [], tokens.length⟩ with
  | .ok s _ => .ok s
  | .error f _ => .error f

/-- Read characters as a source. -/
def ofChars (cs : List Char) : Except Fault Source := do
  ofTokens (← Token.scan cs)

end Source

end EntityAtlas.Java.Strict
