import EntityAtlas.Java.Rules

/-!
# Reading with repairs

A source that the grammar does not cover is repaired: a token that is lacking at the end of a phrase is supplied, or a
stretch of tokens is set aside as a fault. Every repair has a cost, and of the repairs that make the source readable a
cheap one is taken. A source that is beyond repair is one fault from start to end.
-/

namespace EntityAtlas.Java

/-- A source as tokens, each with the comments before it; the end comes last. -/
structure TokenRow where
  tokens : Array (Token × List Token)
  deriving Inhabited

namespace TokenRow

/-- Give every token the comments before it. -/
def gather : (comments : List Token) → List Token → List (Token × List Token)
  | _, [] => []
  | comments, t :: ts =>
    if t.isComment then gather (comments ++ [t]) ts else (t, comments) :: gather [] ts

def ofSource (cs : List Char) : TokenRow :=
  ⟨(gather [] (Token.scan cs)).toArray⟩

/-- The number of the end. -/
def last (row : TokenRow) : Nat := row.tokens.size - 1

def token (row : TokenRow) (n : Nat) : Token := (row.tokens.getD n default).1

def commentTree (t : Token) : Tree := .leaf .plain .comment t

/-- The comments before the token of a number. -/
def comments (row : TokenRow) (n : Nat) : List Tree :=
  (row.tokens.getD n default).2.map commentTree

end TokenRow

/-- Changes to a row of tokens: stretches set aside, given by their first token and the one after them, and tokens
supplied before others. -/
structure Repair where
  gaps : List (Nat × Nat)
  supplies : List (Nat × String)
  cost : Nat
  deriving Repr, Inhabited

namespace Repair

/-- No change. -/
def empty : Repair := ⟨[], [], 0⟩

/-- Supply a token before another one. -/
def supply (r : Repair) (n : Nat) (what : String) (cost : Nat) : Repair :=
  { r with supplies := r.supplies ++ [(n, what)], cost := r.cost + cost }

/-- Set a stretch aside, together with the gaps that it covers or touches. -/
def setAside (r : Repair) (first stop cost : Nat) : Repair :=
  let (near, far) := r.gaps.partition fun g => first ≤ g.2 && g.1 ≤ stop
  let gap := near.foldl (fun g h => (min g.1 h.1, max g.2 h.2)) (first, stop)
  ⟨far ++ [gap], r.supplies.filter fun s => !(gap.1 < s.1 && s.1 ≤ gap.2), r.cost + cost⟩

/-- The gap that a token begins. -/
def gapAt? (r : Repair) (n : Nat) : Option (Nat × Nat) :=
  r.gaps.find? fun g => g.1 == n && g.1 < g.2

/-- The fault made of a stretch of tokens, with the comments between them. -/
def faultTree (row : TokenRow) (first stop : Nat) : Tree :=
  .ofChildren .fault ((List.range' first (stop - first)).flatMap fun n =>
    (if n == first then [] else row.comments n) ++ [.leaf .plain .symbol (row.token n)])

/-- The lexeme of a supplied token, which stands right after the token before it. -/
def suppliedLexeme (row : TokenRow) (n : Nat) (what : String) : Lexeme :=
  let place := (row.token (n - 1)).stop
  ⟨⟨.missing what, "", "", place, place, nofun⟩, [], n, false⟩

/-- The lexemes from a token on, with `leading` trees before the first one. -/
def lexemesFrom (row : TokenRow) (r : Repair) : (fuel : Nat) → (n : Nat) → (leading : List Tree) →
    (isRigid : Bool) → List Lexeme
  | 0, _, _, _ => []
  | fuel + 1, n, leading, isRigid =>
    match r.gapAt? n with
    | some (first, stop) => lexemesFrom row r fuel stop (leading ++ row.comments n ++ [faultTree row first stop]) true
    | none =>
      let supplied := (r.supplies.filter (·.1 == n)).map fun s => suppliedLexeme row n s.2
      let lexeme : Lexeme := ⟨row.token n, leading ++ row.comments n, n, isRigid⟩
      supplied ++ lexeme :: if row.last ≤ n then [] else lexemesFrom row r fuel (n + 1) [] false

/-- The lexemes of a row after repair. -/
def lexemes (row : TokenRow) (r : Repair) : List Lexeme :=
  lexemesFrom row r (2 * row.tokens.size + 2) 0 [] false

/-- The tree of a whole source, if the rules cover it; otherwise how far they do. -/
def read (row : TokenRow) (r : Repair) : Except Reach Tree :=
  let lexemes := r.lexemes row
  let depth := 64 * (lexemes.length + 1)
  let (outcome, reach) := Reading.iterate (Reading.runRule Rule.grammar depth .topStatement) lexemes.length true
    ⟨lexemes, [[]]⟩ ⟨0, [], []⟩
  match outcome with
  | some ⟨[e], groups⟩ =>
    if e.token.kind == .theEnd then
      .ok (.ofChildren .program
        (groups.flatten.reverse.flatMap (fun p => p.leading ++ [p.tree]) ++ e.leading))
    else .error reach
  | _ => .error reach

/-- What a supplied token costs. -/
def supplyCost : Nat := 610

/-- What a gap costs at least. -/
def gapCost : Nat := 500

/-- What a gap costs for every tree or token in it. -/
def treeCost : Nat := 100

/-- What a gap costs for every line break in it. -/
def lineCost : Nat := 30

/-- Whether a token counts as a tree: characters that form no token do not. -/
def countsAsTree (t : Token) : Bool :=
  t.kind != .stray

/-- The cost of the gap from one token to before another. It holds `read` trees that were read already, and the tokens
from `fault` on, which were not. -/
def costOfGap (row : TokenRow) (first stop fault read : Nat) : Nat :=
  let left := (row.token first).start
  let right := (row.token (stop - 1)).stop
  let skipped := ((List.range' fault (stop - fault)).filter fun n => countsAsTree (row.token n)).length
  gapCost + (right.offset - left.offset) + lineCost * (right.line - left.line) + treeCost * (read + skipped)

/-- A repair and what reading comes to with it. -/
structure Trial where
  repair : Repair
  result : Except Reach Tree

/-- A search step that may read as often as the budget allows. -/
abbrev Search := StateM Nat

def tryOut (row : TokenRow) (r : Repair) : Search (Option Trial) := do
  let budget ← get
  match budget with
  | 0 => return none
  | n + 1 =>
    set n
    return some ⟨r, r.read row⟩

/-- Whether a trial reads the token of a number. -/
def Trial.passes (t : Trial) (n : Nat) : Bool :=
  match t.result with
  | .ok _ => true
  | .error reach => n < reach.number

/-- The first trial that reads the token of a number, of the repairs that `make` gives for some choices. -/
def firstPassing {α : Type} (row : TokenRow) (n : Nat) (make : α → Repair) : List α → Search (Option Trial)
  | [] => return none
  | a :: rest => do
    match ← tryOut row (make a) with
    | some t => if t.passes n then return some t else firstPassing row n make rest
    | none => return none

/-- Where a stretch may start that is set aside before a token, the shortest stretch first: at a boundary between trees
that are open, or where reading failed. -/
def gapStarts (reach : Reach) (stop : Nat) : List Nat :=
  let boundaries := ((reach.pieces.filter (·.isBoundary)).map (·.number)).eraseDups
  (if reach.number < stop then [reach.number] else []) ++ boundaries.filter (· < reach.number)

/-- The repair that sets aside a stretch. -/
def withGap (row : TokenRow) (r : Repair) (reach : Reach) (stop first : Nat) : Repair :=
  let read := (reach.pieces.filter fun p => first ≤ p.number).length
  r.setAside first stop (costOfGap row first stop reach.number read)

/-- The trials that set aside a stretch which holds the token that could not be read or ends before it. Longer
stretches are not looked at once a cheaper trial reads on. -/
def gapTrials (row : TokenRow) (r : Repair) (reach : Reach) : (fuel : Nat) → (stop : Nat) → List Trial →
    Search (List Trial)
  | 0, _, found => return found
  | fuel + 1, stop, found => do
    let kind := (row.token stop).kind
    let found ← if kind == .stray || kind == .openString then pure found else do
      match ← firstPassing row stop (withGap row r reach stop) (gapStarts reach stop) with
      | some t => pure (found ++ [t])
      | none => pure found
    if row.last ≤ stop then return found
    let next := r.cost + costOfGap row reach.number (stop + 1) reach.number 0
    if found.any fun t => t.repair.cost < next && t.passes stop then return found
    gapTrials row r reach fuel (stop + 1) found

/-- The trials that repair a source at the token that could not be read. -/
def trials (row : TokenRow) (r : Repair) (reach : Reach) : Search (List Trial) := do
  let supplied ← firstPassing row reach.number (fun what => r.supply reach.number what supplyCost)
    reach.welcome.eraseDups
  let gaps ← gapTrials row r reach (row.tokens.size + 1) reach.number []
  return supplied.toList ++ gaps

/-- A readable source: its tree and what the repairs cost. -/
abbrev Readable := Tree × Nat

/-- The cheaper one, the later one if the costs are equal. -/
def cheaper (a : Option Readable) (b : Option Readable) : Option Readable :=
  match a, b with
  | some x, some y => if x.2 < y.2 then some x else some y
  | some x, none => some x
  | none, y => y

/-- The cheapest readable source that few repairs lead to. -/
def cheapest (row : TokenRow) : (more : Nat) → Trial → Search (Option Readable)
  | more, t =>
    match t.result with
    | .ok tree => return some (tree, t.repair.cost)
    | .error reach =>
      match more with
      | 0 => return none
      | more + 1 => do
        (← trials row t.repair reach).foldlM
          (fun best t => do
            if best.any (·.2 < t.repair.cost) then return best
            return cheaper best (← cheapest row more t))
          none

/-- How many repairs a source may need. -/
def maxRepairs : Nat := 2

/-- How often a source may be read while repairs are looked for; a long one less often than a short one. -/
def maxReadings (row : TokenRow) : Nat := 4000000 / (row.tokens.size + 1000)

/-- A source that is one fault from start to end. -/
def beyondRepair (row : TokenRow) : Tree :=
  .ofChildren .program (row.comments 0 ++ (if row.last == 0 then [] else [faultTree row 0 row.last]) ++
    if row.last == 0 then [] else row.comments row.last)

end Repair

namespace Tree

/-- The syntax tree of a source. -/
def ofSource (cs : List Char) : Tree :=
  let row := TokenRow.ofSource cs
  match Repair.empty.read row with
  | .ok tree => tree
  | .error reach =>
    match ((Repair.cheapest row Repair.maxRepairs ⟨.empty, .error reach⟩).run (Repair.maxReadings row)).1 with
    | some (tree, _) => tree
    | none => Repair.beyondRepair row

end Tree

end EntityAtlas.Java
