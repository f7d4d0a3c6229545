import EntityAtlas.Java.Tree

/-!
# Grammars and how they are read

A grammar is data: alternatives are tried in their order, repetitions take as much as they can. Reading a source by a
grammar gives a syntax tree or, when it fails, tells how far it got: the last token that could not be read, what would
have been welcome there, and the parts that were open at that point.

A comment between two tokens belongs to the smallest node that holds both of them.
-/

namespace EntityAtlas.Java

/-- A grammar over rules named by `σ`. -/
inductive Grammar (σ : Type) where
  /-- A token with these characters. -/
  | tok (text : String)
  /-- A token with these characters that ends a phrase, so that it can be supplied when it is lacking. -/
  | close (text : String)
  /-- A token of a kind. -/
  | ofKind (kinds : List TokenKind) (node : NodeKind)
  /-- A name: any word but those listed. One that ends a phrase can be supplied when it is lacking. -/
  | name (excluded : List String) (node : NodeKind) (canBeSupplied : Bool)
  /-- The next token touches the one before it. -/
  | touching
  | seq (parts : List (Grammar σ))
  | alt (choices : List (Grammar σ))
  | many (item : Grammar σ)
  | rule (r : σ)
  /-- What is read becomes the parts of a node. -/
  | node (kind : NodeKind) (inside : Grammar σ)
  /-- Nodes made inside by `adopt` reach back to here and no further. -/
  | group (inside : Grammar σ)
  /-- What is read becomes parts of a node, after all that the group has read before. -/
  | adopt (kind : NodeKind) (inside : Grammar σ)
  /-- What is read plays a part. -/
  | playing (role : Role) (inside : Grammar σ)

namespace Grammar

variable {σ : Type}

/-- Nothing or one. -/
def opt (g : Grammar σ) : Grammar σ := .alt [g, .seq []]

/-- One or several. -/
def atLeastOne (g : Grammar σ) : Grammar σ := .seq [g, .many g]

end Grammar

/-- A token to be read, with the comments and faulty parts before it, and its number in the source. A token after a
gap is taken as it stands: a keyword is no name there. -/
structure Lexeme where
  token : Token
  leading : List Tree
  number : Nat
  isRigid : Bool
  deriving Inhabited

/-- A tree that was read, with the comments and faulty parts before it. `isBoundary` tells that reading may be taken up
again before it. -/
structure Piece where
  leading : List Tree
  tree : Tree
  number : Nat
  isBoundary : Bool
  deriving Inhabited

namespace Piece

/-- The parts of a node made of pieces: what comes before the first piece stays outside. -/
def parts : List Piece → List Tree
  | [] => []
  | p :: ps => p.tree :: ps.flatMap fun q => q.leading ++ [q.tree]

/-- The node made of pieces, which are given last first. -/
def wrap (kind : NodeKind) (latestFirst : List Piece) (number : Nat) : Piece :=
  let ps := latestFirst.reverse
  let leading := (ps.head?.map (·.leading)).getD []
  ⟨leading, .ofChildren kind (parts ps), (ps.head?.map (·.number)).getD number, true⟩

end Piece

/-- The state of reading: the tokens to come, and the pieces of the open groups, innermost group and latest piece
first. -/
structure Reading where
  rest : List Lexeme
  groups : List (List Piece)
  deriving Inhabited

/-- The farthest point that was reached: the token that could not be read, the names of tokens that could be supplied
there, and the pieces that were open. -/
structure Reach where
  number : Nat
  welcome : List String
  pieces : List Piece
  deriving Inhabited

/-- The outcome of reading: the state after it, if it succeeded, and the farthest point so far. -/
abbrev Outcome := Option Reading × Reach

namespace Reading

/-- Add a piece to the innermost group. -/
def push (s : Reading) (p : Piece) : List (List Piece) :=
  match s.groups with
  | [] => [[p]]
  | g :: gs => (p :: g) :: gs

/-- The number of the next token. -/
def number (s : Reading) : Nat :=
  (s.rest.head?.map (·.number)).getD 0

/-- Note that the next token cannot be read here. -/
def miss (s : Reading) (r : Reach) (welcome : List String) : Outcome :=
  (none,
    if r.number < s.number then ⟨s.number, welcome, s.groups.flatten⟩
    else if r.number == s.number then { r with welcome := r.welcome ++ welcome }
    else r)

/-- Take the next token as a leaf of a kind. -/
def take (s : Reading) (r : Reach) (kind : NodeKind) : Outcome :=
  match s.rest with
  | [] => (none, r)
  | x :: rest => (some ⟨rest, s.push ⟨x.leading, .leaf .plain kind x.token, x.number, true⟩⟩, r)

/-- Read a token with given characters. -/
def readText (s : Reading) (r : Reach) (text : String) (canBeSupplied : Bool) : Outcome :=
  match s.rest with
  | x :: _ =>
    let isIt := match x.token.kind with
      | .word => x.token.text == text
      | .symbol => x.token.text == text
      | .missing what => canBeSupplied && what == text
      | _ => false
    if isIt then s.take r .symbol else s.miss r (if canBeSupplied then [text] else [])
  | [] => s.miss r []

/-- The words that are never names after a gap. -/
def keywords : List String :=
  ["abstract", "assert", "boolean", "break", "byte", "case", "catch", "char", "class", "const", "continue", "default",
    "do", "double", "else", "enum", "extends", "final", "finally", "float", "for", "goto", "if", "implements", "import",
    "instanceof", "int", "interface", "long", "native", "new", "package", "private", "protected", "public", "return",
    "short", "static", "strictfp", "super", "switch", "synchronized", "this", "throw", "throws", "transient", "try",
    "void", "volatile", "while", "true", "false", "null", "non-sealed"]

/-- The name under which a lacking name is reported. -/
def nameOf (kind : NodeKind) : String :=
  if kind == .typeIdentifier then "type_identifier" else "identifier"

def readName (s : Reading) (r : Reach) (excluded : List String) (kind : NodeKind) (canBeSupplied : Bool) : Outcome :=
  match s.rest with
  | x :: _ =>
    let isIt := match x.token.kind with
      | .word => !excluded.contains x.token.text && !(x.isRigid && keywords.contains x.token.text)
      | .missing what => canBeSupplied && what == nameOf kind
      | _ => false
    if isIt then s.take r kind else s.miss r (if canBeSupplied then [nameOf kind] else [])
  | [] => s.miss r []

/-- Read a token of one of some kinds. -/
def readKind (s : Reading) (r : Reach) (kinds : List TokenKind) (kind : NodeKind) : Outcome :=
  match s.rest with
  | x :: _ => if kinds.contains x.token.kind then s.take r kind else s.miss r []
  | [] => s.miss r []

def openGroup (s : Reading) : Reading :=
  ⟨s.rest, [] :: s.groups⟩

/-- Close the innermost group: its pieces join those of the group around it. -/
def closeGroup (s : Reading) : Reading :=
  match s.groups with
  | g :: h :: gs => ⟨s.rest, (g ++ h) :: gs⟩
  | _ => s

/-- Close the innermost group and make a node of its pieces. -/
def closeNode (kind : NodeKind) (s : Reading) : Reading :=
  match s.groups with
  | g :: h :: gs => ⟨s.rest, (Piece.wrap kind g s.number :: h) :: gs⟩
  | _ => s

/-- Make a node of the pieces of the innermost group. -/
def adoptGroup (kind : NodeKind) (s : Reading) : Reading :=
  match s.groups with
  | g :: gs => ⟨s.rest, [Piece.wrap kind g s.number] :: gs⟩
  | [] => s

/-- Close the innermost group, whose pieces play a part. -/
def closeRole (role : Role) (s : Reading) : Reading :=
  match s.groups with
  | g :: h :: gs => ⟨s.rest, ((g.map fun p => { p with tree := p.tree.playing role }) ++ h) :: gs⟩
  | _ => s

/-- Mark the latest pieces, those that start at a token or after it: reading is not taken up again before them. -/
def joinLatest (number : Nat) : List Piece → List Piece
  | [] => []
  | p :: ps => if number ≤ p.number then { p with isBoundary := false } :: joinLatest number ps else p :: ps

/-- End one repetition, which started at a token: reading is not taken up again before its pieces, unless it is the
first one. -/
def closeRepeat (number : Nat) (isFirst : Bool) (s : Reading) : Reading :=
  match isFirst, s.groups with
  | false, g :: gs => ⟨s.rest, joinLatest number g :: gs⟩
  | _, _ => s

/-- Go on after success. -/
def andThen (o : Outcome) (f : Reading → Reading) : Outcome :=
  (o.1.map f, o.2)

/-- Repeat a step until it fails or takes nothing. -/
def iterate (step : Reading → Reach → Outcome) : (fuel : Nat) → (isFirst : Bool) → Reading → Reach → Outcome
  | 0, _, s, r => (some s, r)
  | fuel + 1, isFirst, s, r =>
    match step s r with
    | (some s', r') =>
      if s'.rest.length < s.rest.length then iterate step fuel false (s'.closeRepeat s.number isFirst) r'
      else (some s, r')
    | (none, r') => (some s, r')

variable {σ : Type}

mutual

/-- Read by a grammar; rules are left to `call`. -/
def run (call : σ → Reading → Reach → Outcome) : Grammar σ → Reading → Reach → Outcome
  | .tok text, s, r => s.readText r text false
  | .close text, s, r => s.readText r text true
  | .ofKind kinds kind, s, r => s.readKind r kinds kind
  | .name excluded kind canBeSupplied, s, r => s.readName r excluded kind canBeSupplied
  | .touching, s, r =>
    match s.rest with
    | x :: _ => if x.token.before == "" && x.leading.isEmpty then (some s, r) else (none, r)
    | [] => (none, r)
  | .seq parts, s, r => runAll call parts s r
  | .alt choices, s, r => runFirst call choices s r
  | .many item, s, r => iterate (run call item) s.rest.length true s r
  | .rule name, s, r => call name s r
  | .node kind inside, s, r => andThen (run call inside s.openGroup r) (closeNode kind)
  | .group inside, s, r => andThen (run call inside s.openGroup r) closeGroup
  | .adopt kind inside, s, r => andThen (run call inside s r) (adoptGroup kind)
  | .playing role inside, s, r => andThen (run call inside s.openGroup r) (closeRole role)

/-- Read by grammars one after another. -/
def runAll (call : σ → Reading → Reach → Outcome) : List (Grammar σ) → Reading → Reach → Outcome
  | [], s, r => (some s, r)
  | g :: gs, s, r =>
    match run call g s r with
    | (some s', r') => runAll call gs s' r'
    | (none, r') => (none, r')

/-- Read by the first grammar that succeeds. -/
def runFirst (call : σ → Reading → Reach → Outcome) : List (Grammar σ) → Reading → Reach → Outcome
  | [], _, r => (none, r)
  | g :: gs, s, r =>
    match run call g s r with
    | (some s', r') => (some s', r')
    | (none, r') => runFirst call gs s r'

end

/-- Read by a rule, with rules inside one another at most `fuel` deep. -/
def runRule (rules : σ → Grammar σ) : (fuel : Nat) → σ → Reading → Reach → Outcome
  | 0, _, _, r => (none, r)
  | fuel + 1, name, s, r => run (runRule rules fuel) (rules name) s r

end Reading

end EntityAtlas.Java
