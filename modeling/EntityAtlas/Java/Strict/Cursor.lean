import EntityAtlas.Java.Strict.Node

/-!
# Reading tokens

Reading goes along the tokens of a source. An attempt notes where it starts, so that it can be taken back; when an
attempt inside another one succeeds, the outer one is from then on taken back to where the inner one started.
-/

namespace EntityAtlas.Java.Strict

/-- Where reading stands: the tokens to come, the starts of the open attempts, innermost first, and a bound on how often
anything can be repeated. -/
structure Cursor where
  rest : List Token
  starts : List (List Token)
  bound : Nat
  deriving Inhabited

/-- Reading: it moves the cursor and may fail. -/
abbrev Read := EStateM Fault Cursor

/-- What a token may be wanted to be. -/
inductive Wanted where
  | text (s : String)
  | kind (k : TokenClass)
  | name
  deriving DecidableEq, Repr

instance : Coe String Wanted := ⟨.text⟩

namespace Wanted

/-- Whether a token is what is wanted. -/
def accepts : Wanted → Token → Bool
  | .text s, t => t.text == s
  | .kind k, t => t.kind == k
  | .name, t => t.kind == .identifier

/-- How a class is called in a message. -/
def label : TokenClass → String
  | .keyword => "Keyword"
  | .modifier => "Modifier"
  | .basicType => "BasicType"
  | .literal => "Literal"
  | .separator => "Separator"
  | .operator => "Operator"
  | .at => "Annotation"
  | .identifier => "Identifier"

/-- The message that something else was wanted. -/
def complaint : Wanted → String
  | .text s => "Expected '" ++ s ++ "'"
  | .kind k => "Expected " ++ label k
  | .name => "Expected " ++ label .identifier

end Wanted

namespace Read

/-- The token `n` places ahead. -/
def look (n : Nat) : Read (Option Token) := do
  return (← get).rest[n]?

def nextText : Read (Option String) := do
  return (← look 0).map (·.text)

/-- Fail at the next token. -/
def refuse {α : Type} (what : String) : Read α := do
  throw (.unexpected what ((← look 0).map (·.line)))

/-- Take the next token. -/
def take : Read Token := do
  let s ← get
  match s.rest with
  | [] => throw .ended
  | t :: rest =>
    set { s with rest }
    return t

/-- Take tokens that are wanted, and give the text of the last one. A token that is something else is passed before
reading fails. -/
def expect : List Wanted → Read String
  | [] => return ""
  | w :: ws => do
    let t ← take
    if !w.accepts t then refuse w.complaint
    if ws.isEmpty then return t.text else expect ws

/-- Whether the tokens ahead are what is wanted. -/
def sees (ws : List Wanted) : Read Bool := do
  let rest := (← get).rest
  return ws.length ≤ rest.length && (ws.zip rest).all fun (w, t) => w.accepts t

/-- Take the tokens ahead if they are what is wanted. -/
def skips (ws : List Wanted) : Read Bool := do
  if ← sees ws then
    modify fun s => { s with rest := s.rest.drop ws.length }
    return true
  else return false

/-- Whether the next token has one of some texts. -/
def seesOneOf (texts : List String) : Read Bool := do
  return (← nextText).any texts.contains

def name : Read String := expect [.name]

/-- Whether an annotation is next, and not the declaration of an annotation type. -/
def seesMarker : Read Bool := do
  return (← sees [.kind .at]) && !(← sees [.kind .at, "interface"])

/-- Whether the declaration of an annotation type is next. -/
def seesMarkerDeclaration : Read Bool :=
  sees [.kind .at, "interface"]

/-- Note where an attempt starts. -/
def openAttempt : Read Unit :=
  modify fun s => { s with starts := s.rest :: s.starts }

/-- End an attempt that succeeded: the one around it is taken back to the same place from now on. -/
def keepAttempt (s : Cursor) : Cursor :=
  match s.starts with
  | start :: _ :: outer => { s with starts := start :: outer }
  | _ => { s with starts := [] }

/-- End an attempt that failed: reading goes back to its start. -/
def undoAttempt (s : Cursor) : Cursor :=
  match s.starts with
  | start :: outer => { s with rest := start, starts := outer }
  | [] => s

/-- Read something, and go back to where it started if it fails. -/
def attempt {α : Type} (read : Read α) : Read α := fun s =>
  match (do openAttempt; read : Read α) s with
  | .ok a s' => .ok a (keepAttempt s')
  | .error f s' => .error f (undoAttempt s')

/-- Whether a fault is one that another way of reading may mend. -/
def isMendable : Fault → Bool
  | .unexpected .. => true
  | _ => false

/-- Attempt one way of reading; if the grammar does not allow it, read another way. -/
def orElse {α : Type} (first : Read α) (second : Read α) : Read α :=
  tryCatch (attempt first) fun f => if isMendable f then second else throw f

/-- Read items as long as a test goes on, at most `fuel` of them. -/
def repeatUpTo {α : Type} (goesOn : Read Bool) (item : Read α) : (fuel : Nat) → Read (List α)
  | 0 => return []
  | fuel + 1 => do
    if ← goesOn then
      let a ← item
      return a :: (← repeatUpTo goesOn item fuel)
    else return []

/-- Read items as long as a test goes on. -/
def repeatWhile {α : Type} (goesOn : Read Bool) (item : Read α) : Read (List α) := do
  repeatUpTo goesOn item ((← get).bound + 1)

/-- Read an item, and more of them as long as a test goes on. -/
def oneOrMore {α : Type} (goesOn : Read Bool) (item : Read α) : Read (List α) := do
  let a ← item
  return a :: (← repeatWhile goesOn item)

/-- Read items with a separator between them. -/
def row {α : Type} (separator : String) (item : Read α) : Read (List α) :=
  oneOrMore (skips [separator]) item

/-- Read items up to a token, which is left. -/
def upTo {α : Type} (stop : String) (item : Read α) : Read (List α) :=
  repeatWhile (return !(← sees [stop])) item

/-- Read something if a test says so. -/
def optional {α : Type} (test : Read Bool) (item : Read α) : Read (Option α) := do
  if ← test then return some (← item) else return none

/-- Names with points between them. -/
def dottedName : Read String := do
  return ".".intercalate (← row "." name)

end Read

end EntityAtlas.Java.Strict
