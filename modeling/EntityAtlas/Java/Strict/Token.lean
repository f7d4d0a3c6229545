import EntityAtlas.Java.Strict.Escape
import EntityAtlas.Text.Identifier
import EntityAtlas.Text.Pieces

/-!
# Tokens of the strict reader

A source without its white space and comments. Numbers are cut generously, names by the categories of their characters,
and the whole source is cut before any of it is read.
-/

namespace EntityAtlas.Java.Strict

open Text

/-- What a token is. Modifiers and basic types are keywords too. -/
inductive TokenClass where
  | keyword
  | modifier
  | basicType
  | literal
  | separator
  | operator
  | at
  | identifier
  deriving DecidableEq, Repr, Inhabited

/-- A token and its place; lines and columns count from one. -/
structure Token where
  kind : TokenClass
  text : String
  line : Nat
  column : Nat
  named : kind = .identifier → Text.IsSegment text
  deriving DecidableEq, Repr

instance : Inhabited Token := ⟨⟨.keyword, "", 0, 0, nofun⟩⟩

/-- Where the scanner stands: how many characters it has passed, the line, and how many characters lie before the
line's first one. -/
structure Place where
  offset : Nat
  line : Nat
  lineStart : Nat
  deriving DecidableEq, Repr, Inhabited

namespace Place

def start : Place := ⟨0, 1, 0⟩

/-- The place after one character. -/
def step (p : Place) (c : Char) : Place :=
  if c == '\n' then ⟨p.offset + 1, p.line + 1, p.offset + 1⟩ else { p with offset := p.offset + 1 }

/-- The place after some characters, line breaks counted. -/
def cross (p : Place) (cs : List Char) : Place :=
  cs.foldl step p

/-- The place after a token: line breaks inside tokens do not count. -/
def pass (p : Place) (n : Nat) : Place :=
  { p with offset := p.offset + n }

/-- The column, counted from one. -/
def column (p : Place) : Nat := p.offset - p.lineStart + 1

end Place

namespace Token

/-- Keywords that are neither modifiers nor basic types. -/
def plainKeywords : List String :=
  ["assert", "break", "case", "catch", "class", "const", "continue", "do", "else", "enum", "extends", "finally", "for",
    "goto", "if", "implements", "import", "instanceof", "interface", "new", "package", "return", "super", "switch",
    "this", "throw", "throws", "try", "void", "while"]

/-- Keywords that modify declarations. -/
def modifierKeywords : List String :=
  ["abstract", "default", "final", "native", "private", "protected", "public", "static", "strictfp", "synchronized",
    "transient", "volatile"]

/-- Keywords that name types. -/
def basicTypeKeywords : List String :=
  ["boolean", "byte", "char", "double", "float", "int", "long", "short"]

def classOfWord (word : String) : TokenClass :=
  if basicTypeKeywords.contains word then .basicType
  else if modifierKeywords.contains word then .modifier
  else if plainKeywords.contains word then .keyword
  else if ["true", "false", "null"].contains word then .literal
  else .identifier

/-- The operators, longest first. `>>` and `>>>` are left to the grammar, as they also close type arguments. -/
def operators : List String :=
  [">>>=", ">>=", "<<=", "...", "%=", "^=", "|=", "&=", "/=", "*=", "-=", "+=", "<<", "--", "++", "||", "&&", "!=",
    ">=", "<=", "==", "->", "::", "%", "^", "|", "&", "/", "*", "-", "+", ":", "?", "~", "!", "<", ">", "="]

/-- The length of the longest operator at the start of the characters. -/
def operatorLength? (cs : List Char) : Option Nat :=
  (operators.find? fun o => o.toList.isPrefixOf cs).map (·.length)

def separators : List Char := ['(', ')', '\x7b', '\x7d', '[', ']', ';', ',', '.']

/-- The characters that may follow a backslash in a literal. -/
def escapable : List Char := ['b', 't', 'n', 'f', 'r', 'u', '"', '\'', '\\', '0', '1', '2', '3', '4', '5', '6', '7']

/-! ## Literals

The functions below give lengths: how many characters from the start of a token on belong to it. -/

/-- The length of a run of digits at `n`, underscores between them included. Where an `l` follows, one character more
belongs to it. The end of the source must not be met before the first character. -/
def digits (isDigit : Char → Bool) (cs : List Char) (n : Nat) : Except Fault Nat :=
  match cs.drop n with
  | [] => .error .comparedEnd
  | rest =>
    let run := rest.takeWhile fun c => isDigit c || c == '_'
    let kept := (run.reverse.dropWhile (· == '_')).length
    .ok (match rest.drop run.length with
      | c :: _ => if c == 'l' || c == 'L' then n + kept + 1 else n + kept
      | [] => n + kept)

/-- The length with one more character if it is one of `choices`. -/
def optional (choices : List Char) (cs : List Char) (n : Nat) : Nat :=
  match cs.drop n with
  | c :: _ => if choices.contains c then n + 1 else n
  | [] => n

def isHexDigit (c : Char) : Bool :=
  c.isDigit || ('a' ≤ c && c ≤ 'f') || ('A' ≤ c && c ≤ 'F')

/-- Whether the character at `n` is one of `choices`. -/
def isAt (choices : List Char) (cs : List Char) (n : Nat) : Bool :=
  optional choices cs n != n

/-- The length of a decimal number, integer or floating. -/
def decimalLength (cs : List Char) : Except Fault Nat := do
  let n ← digits Char.isDigit cs 0
  if !isAt ['.', 'e', 'E', 'f', 'F', 'd', 'D'] cs n then return n
  let n ← if isAt ['.'] cs n then digits Char.isDigit cs (n + 1) else pure n
  let n ← if isAt ['e', 'E'] cs n then digits Char.isDigit cs (optional ['-', '+'] cs (n + 1)) else pure n
  return optional ['f', 'F', 'd', 'D'] cs n

/-- The length of a hexadecimal number, integer or floating; a point calls for an exponent. -/
def hexLength (blame : String → List Char → Fault) (cs : List Char) : Except Fault Nat := do
  let n ← digits isHexDigit cs 2
  if !isAt ['.', 'p', 'P'] cs n then return n
  let n ← if isAt ['.'] cs n then digits isHexDigit cs (n + 1) else pure n
  if !isAt ['p', 'P'] cs n then throw (blame "Invalid hex float literal" (cs.drop n))
  let n ← digits Char.isDigit cs (optional ['-', '+'] cs (n + 1))
  return optional ['f', 'F', 'd', 'D'] cs n

/-- The length of the number at the start of the characters. -/
def numberLength (blame : String → List Char → Fault) (cs : List Char) : Except Fault Nat :=
  match cs with
  | ['0'] => .error .comparedEnd
  | '0' :: c :: _ =>
    if c == 'x' || c == 'X' then hexLength blame cs
    else if c == 'b' || c == 'B' then digits (fun c => c == '0' || c == '1') cs 2
    else if '0' ≤ c && c ≤ '7' then digits (fun c => '0' ≤ c && c ≤ '7') cs 1
    else decimalLength cs
  | _ => decimalLength cs

/-- The length of a literal between quotes after its first quote, `n` characters being passed. -/
def quotedLength (blame : String → List Char → Fault) (previous : List Char) (quote : Char) (n : Nat) :
    List Char → Except Fault Nat
  | [] => .error (blame "Unterminated character/string literal" previous)
  | '\\' :: [] => .error (blame "Unterminated character/string literal" previous)
  | '\\' :: c :: rest =>
    if escapable.contains c then quotedLength blame previous quote (n + 2) rest
    else .error (blame "Illegal escape character" (c :: rest))
  | c :: rest => if c == quote then .ok (n + 1) else quotedLength blame previous quote (n + 1) rest

/-- The token at the start of the characters, as its class and length. `previous` are the characters after the token
before it. -/
def cut (blame : String → List Char → Fault) (previous : List Char) (cs : List Char) :
    Except Fault (TokenClass × Nat) :=
  match cs with
  | [] => .error .pastEnd
  | c :: rest =>
    if cs.take 3 == ['.', '.', '.'] then .ok (.operator, 3)
    else if c == '@' then .ok (.at, 1)
    else if c == '.' && rest.head?.any Category.isDigit then (decimalLength cs).map (.literal, ·)
    else if separators.contains c then .ok (.separator, 1)
    else if c == '"' || c == '\'' then (quotedLength blame previous c 1 rest).map (.literal, ·)
    else if c.isDigit then (numberLength blame cs).map (.literal, ·)
    else if Identifier.strictStart c then
      let word := c :: rest.takeWhile Identifier.strictPart
      .ok (classOfWord (.ofList word), word.length)
    else match operatorLength? cs with
      | some n => .ok (.operator, n)
      | none => .error (blame "Could not process token" cs)

/-- What is cut off as an identifier is a segment of a name. -/
theorem isSegment_of_cut {blame : String → List Char → Fault} {previous cs : List Char} {n : Nat}
    (cuts : cut blame previous cs = .ok (.identifier, n)) : Text.IsSegment (.ofList (cs.take n)) := by
  have literal {length : Except Fault Nat} : length.map (TokenClass.literal, ·) ≠ .ok (.identifier, n) := by
    cases length <;> simp [Except.map]
  unfold cut at cuts
  split at cuts
  · cases cuts
  · rename_i c rest
    by_cases start : Identifier.strictStart c = true
    · simp only [start, ↓reduceIte] at cuts
      have word : n = (c :: rest.takeWhile Identifier.strictPart).length := by
        repeat' split at cuts
        all_goals first
          | exact absurd cuts literal
          | exact (congrArg Prod.snd (Except.ok.inj cuts)).symm
          | cases cuts
      have takes : (c :: rest).take n = c :: rest.takeWhile Identifier.strictPart := by
        rw [word, List.length_cons, List.take_succ_cons]
        exact congrArg _ (List.prefix_iff_eq_take.mp (List.takeWhile_prefix _)).symm
      rw [takes]
      exact isSegment_word (by decide) (by decide) start rest
    · simp only [start, Bool.false_eq_true, ↓reduceIte] at cuts
      repeat' split at cuts
      all_goals first
        | exact absurd cuts literal
        | cases cuts

/-- The characters after the first `*/`, and those up to it. -/
def untilClosed : (passed : List Char) → List Char → Option (List Char × List Char)
  | _, [] => none
  | passed, '*' :: '/' :: rest => some (('/' :: '*' :: passed).reverse, rest)
  | passed, c :: rest => untilClosed (c :: passed) rest

/-- The comment at the start of the characters and what follows it, if a comment is there. -/
def comment? (blame : String → List Char → Fault) (previous : List Char) :
    List Char → Except Fault (Option (List Char × List Char))
  | '/' :: '/' :: rest =>
    let line := rest.takeWhile (· != '\n')
    let after := rest.drop line.length
    .ok (some ('/' :: '/' :: line ++ after.take 1, after.drop 1))
  | '/' :: '*' :: rest =>
    match untilClosed ['*', '/'] rest with
    | some found => .ok (some found)
    | none => .error (blame "Unterminated block comment" previous)
  | _ => .ok none

/-- The line that a fault at `offset` shows: without its end of line, or without its last character if it is the last
line. -/
def context (source : List Char) (offset : Nat) : String :=
  let head := ((source.take offset).reverse.takeWhile (· != '\n')).reverse
  let tail := source.drop offset
  let line := if tail.contains '\n' then head ++ tail.takeWhile (· != '\n') else (head ++ tail).dropLast
  .ofList (trim isBlank line)

/-- The fault at a place, noticed at the first of some characters. -/
def blame (source : List Char) (place : Place) (what : String) (mark : List Char) : Fault :=
  match mark with
  | [] => .pastEnd
  | c :: _ => .unreadable what (.singleton c) place.line (context source place.offset)

/-- The tokens of a source from a place on. `done` are the tokens before it, latest first, and `previous` the characters
after the last of them. -/
def scanFrom (source : List Char) : (fuel : Nat) → Place → (done : List Token) → (previous : List Char) → List Char →
    Except Fault (List Token)
  | 0, _, done, _, _ => .ok done.reverse
  | _, _, done, _, [] => .ok done.reverse
  | fuel + 1, place, done, previous, c :: cs =>
    if isBlank c then
      let blanks := c :: cs.takeWhile isBlank
      scanFrom source fuel (place.cross blanks) done previous (cs.dropWhile isBlank)
    else do
      match ← comment? (blame source place) previous (c :: cs) with
      | some (comment, rest) => scanFrom source fuel (place.cross comment) done previous rest
      | none =>
        match cuts : cut (blame source place) previous (c :: cs) with
        | .error f => .error f
        | .ok (kind, n) =>
          let rest := (c :: cs).drop n
          scanFrom source fuel (place.pass n)
            (⟨kind, .ofList ((c :: cs).take n), place.line, place.column,
              fun is => isSegment_of_cut (is ▸ cuts)⟩ :: done) rest rest

/-- The tokens of a source. -/
def scan (source : List Char) : Except Fault (List Token) := do
  let cs ← Escape.resolve source
  scanFrom cs (cs.length + 1) .start [] cs cs

end Token

end EntityAtlas.Java.Strict
