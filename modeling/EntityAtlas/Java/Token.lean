import EntityAtlas.Text.Identifier
import EntityAtlas.Text.Pieces
import EntityAtlas.Text.Utf8

/-!
# Tokens of the lenient reader

A source is cut into tokens without loss: every token keeps the white space before it, and characters that begin no
token are kept as well. Positions count lines, bytes of a line and bytes of the source, all from zero.
-/

namespace EntityAtlas.Java

/-- A place in a source. -/
structure Position where
  line : Nat
  column : Nat
  offset : Nat
  deriving DecidableEq, Repr, Inhabited

namespace Position

/-- The place after one more character. -/
def next (p : Position) (c : Char) : Position :=
  let size := Text.Utf8.charSize c
  if c == '\n' then ⟨p.line + 1, 0, p.offset + size⟩ else ⟨p.line, p.column + size, p.offset + size⟩

/-- The place after some characters. -/
def after (p : Position) (cs : List Char) : Position :=
  cs.foldl next p

end Position

inductive TokenKind where
  | word
  | number
  | character
  | string
  | openString
  | symbol
  | lineComment
  | blockComment
  | stray
  | missing (what : String)
  | theEnd
  deriving DecidableEq, Repr, Inhabited

/-- A token: its characters, the white space before it, and where it starts and stops. A token that the source lacks
has no characters; its kind tells what was expected. -/
structure Token where
  kind : TokenKind
  text : String
  before : String
  start : Position
  stop : Position
  word : kind = .word → Text.IsSegment text
  deriving DecidableEq, Repr

instance : Inhabited Token := ⟨⟨.stray, "", "", default, default, nofun⟩⟩

namespace Token

def isComment (t : Token) : Bool :=
  t.kind == .lineComment || t.kind == .blockComment

/-- What was expected, if the source lacks the token. -/
def missing? (t : Token) : Option String :=
  match t.kind with
  | .missing what => some what
  | _ => none

/-- White space of the lenient reader. -/
def isSpace (c : Char) : Bool :=
  c == ' ' || c == '\t' || c == '\n' || c == '\r' || c == '\x0b' || c == '\x0c'

/-- A token without its place: its kind, its characters, and the characters after it. -/
abbrev Cut := TokenKind × List Char × List Char

/-- The symbols of three and two characters. `>>` and `>>>` are left to the grammar, as they also close type
arguments. -/
def longSymbols : List String :=
  ["@interface", "...", "<<=", "->", "::", "++", "--", "&&", "||", "==", "!=", "<=", ">=", "+=", "-=", "*=", "/=", "&=",
    "|=", "^=", "%=", "<<"]

def shortSymbols : List Char :=
  "()\x7b\x7d[];,.@=<>!~?:+-*/&|^%".toList

/-- The rest of a list after a beginning that it has. -/
def after? : (head cs : List Char) → Option (List Char)
  | [], cs => some cs
  | _ :: _, [] => none
  | h :: head, c :: cs => if h == c then after? head cs else none

/-- Digits with underscores between them: the run and the rest. -/
def digitRun (isDigit : Char → Bool) (cs : List Char) : List Char × List Char :=
  let run := cs.takeWhile fun c => isDigit c || c == '_'
  let kept := (run.reverse.dropWhile (· == '_')).reverse
  (kept, cs.drop kept.length)

/-- One of some characters, if it is next. -/
def oneOf (choices : List Char) (cs : List Char) : List Char × List Char :=
  match cs with
  | c :: rest => if choices.contains c then ([c], rest) else ([], cs)
  | [] => ([], [])

/-- An exponent: its letter, a sign perhaps, and digits. -/
def exponent (letters : List Char) (cs : List Char) : List Char × List Char :=
  match oneOf letters cs with
  | ([], _) => ([], cs)
  | (letter, rest) =>
    let (sign, rest) := oneOf ['+', '-'] rest
    let (digits, rest) := digitRun Char.isDigit rest
    if digits.isEmpty then ([], cs) else (letter ++ sign ++ digits, rest)

def isHexDigit (c : Char) : Bool :=
  c.isDigit || ('a' ≤ c && c ≤ 'f') || ('A' ≤ c && c ≤ 'F')

/-- The number after `0x`, integer or floating. -/
def hexNumber (lead cs : List Char) : List Char × List Char :=
  let (whole, rest) := digitRun isHexDigit cs
  let (point, rest₁) := oneOf ['.'] rest
  let (fraction, rest₂) := if point.isEmpty then ([], rest₁) else digitRun isHexDigit rest₁
  let (power, rest₃) := exponent ['p', 'P'] rest₂
  if power.isEmpty then
    let (suffix, rest) := oneOf ['l', 'L'] rest
    (lead ++ whole ++ suffix, rest)
  else
    let (suffix, rest₃) := oneOf ['f', 'F', 'd', 'D'] rest₃
    (lead ++ whole ++ point ++ fraction ++ power ++ suffix, rest₃)

/-- The number that starts with a decimal digit or a point. -/
def decimalNumber (cs : List Char) : List Char × List Char :=
  let (whole, rest) := digitRun Char.isDigit cs
  let (point, rest₁) := oneOf ['.'] rest
  let (fraction, rest₁) := if point.isEmpty then ([], rest₁) else digitRun Char.isDigit rest₁
  let (power, rest₁) := exponent ['e', 'E'] rest₁
  let (suffix, rest₁) := oneOf ['f', 'F', 'd', 'D'] rest₁
  if point.isEmpty && power.isEmpty && suffix.isEmpty then
    let whole := match whole with
      | '0' :: d :: digits => '0' :: (d :: digits).takeWhile fun c => c == '_' || ('0' ≤ c && c ≤ '7')
      | _ => whole
    let (suffix, rest) := oneOf ['l', 'L'] (cs.drop whole.length)
    (whole ++ suffix, rest)
  else (whole ++ point ++ fraction ++ power ++ suffix, rest₁)

/-- The number at the start of the characters. -/
def number (cs : List Char) : List Char × List Char :=
  match cs with
  | '0' :: x :: rest =>
    if (x == 'x' || x == 'X') && !(digitRun isHexDigit rest).1.isEmpty then hexNumber ['0', x] rest
    else if (x == 'b' || x == 'B') && !(digitRun (fun c => c == '0' || c == '1') rest).1.isEmpty then
      let (digits, rest) := digitRun (fun c => c == '0' || c == '1') rest
      let (suffix, rest) := oneOf ['l', 'L'] rest
      ('0' :: x :: digits ++ suffix, rest)
    else decimalNumber cs
  | _ => decimalNumber cs

/-- The characters up to and with the closing mark, a backslash guarding the character after it. -/
def closedBy (mark : List Char) : List Char → Option (List Char × List Char)
  | [] => none
  | c :: cs =>
    match after? mark (c :: cs) with
    | some rest => some (mark, rest)
    | none =>
      if c == '\\' then
        match cs with
        | [] => none
        | d :: cs => (closedBy mark cs).map fun (inside, rest) => (c :: d :: inside, rest)
      else (closedBy mark cs).map fun (inside, rest) => (c :: inside, rest)

/-- The string at the start of the characters, of one line or several. -/
def stringCut (cs : List Char) : Cut :=
  let (opening, mark) := if (after? "\"\"\"".toList cs).isSome then (3, "\"\"\"".toList) else (1, ['"'])
  match closedBy mark (cs.drop opening) with
  | some (inside, rest) => (.string, cs.take opening ++ inside, rest)
  | none => (.openString, cs, [])

/-- The character literal at the start of the characters, if one is there. -/
def characterCut (cs : List Char) : Option Cut :=
  match closedBy ['\''] (cs.drop 1) with
  | some (inside, rest) =>
    if inside.length == 1 || (inside.contains '\n') then none else some (.character, '\'' :: inside, rest)
  | none => none

/-- The characters of a block comment after its opening, if it is closed. -/
def blockCut : List Char → Option (List Char × List Char)
  | [] => none
  | '*' :: '/' :: rest => some (['*', '/'], rest)
  | c :: cs => (blockCut cs).map fun (inside, rest) => (c :: inside, rest)

/-- A comment at the start of the characters, if one is there. -/
def commentCut : List Char → Option Cut
  | '/' :: '/' :: cs =>
    let inside := cs.takeWhile (· != '\n')
    some (.lineComment, '/' :: '/' :: inside, cs.drop inside.length)
  | '/' :: '*' :: cs => (blockCut cs).map fun (inside, rest) => (.blockComment, '/' :: '*' :: inside, rest)
  | _ => none

/-- A symbol at the start of the characters, the longest one. -/
def symbolCut (cs : List Char) : Option Cut :=
  match longSymbols.findSome? fun s => (after? s.toList cs).map fun rest => (s.toList, rest) with
  | some (symbol, rest) => some (.symbol, symbol, rest)
  | none =>
    match cs with
    | c :: rest => if shortSymbols.contains c then some (.symbol, [c], rest) else none
    | [] => none

/-- The modifier that is no single word. -/
def nonSealed : List Char := "non-sealed".toList

/-- The word at the start of the characters. -/
def wordCut (cs : List Char) : Cut :=
  match after? nonSealed cs with
  | some rest => (.word, nonSealed, rest)
  | none =>
    let word := cs.take 1 ++ (cs.drop 1).takeWhile Text.Identifier.lenientPart
    (.word, word, cs.drop word.length)

/-- The token at the start of the characters, if one begins there. -/
def cut? (cs : List Char) : Option Cut :=
  match cs with
  | [] => none
  | c :: rest =>
    if Text.Identifier.lenientStart c then some (wordCut cs)
    else if c.isDigit || (c == '.' && (rest.head?.any Char.isDigit)) then
      let (digits, rest) := number cs
      some (.number, digits, rest)
    else if c == '"' then some (stringCut cs)
    else if c == '\'' then characterCut cs
    else (commentCut cs).or (symbolCut cs)

/-- The characters from which no token begins, at least one of them. -/
def strayRun : Nat → List Char → List Char
  | 0, _ => []
  | _, [] => []
  | n + 1, c :: cs =>
    c :: match cs with
      | [] => []
      | d :: _ => if isSpace d || (cut? cs).isSome then [] else strayRun n cs

/-- The token at the start of the characters, which begin with no white space. -/
def cut (cs : List Char) : Cut :=
  match cut? cs with
  | some c => c
  | none =>
    let stray := strayRun cs.length cs
    (.stray, stray, cs.drop stray.length)

theorem isSegment_wordCut {c : Char} {cs : List Char} (start : Text.Identifier.lenientStart c = true) :
    Text.IsSegment (.ofList (wordCut (c :: cs)).2.1) := by
  unfold wordCut
  cases after? nonSealed (c :: cs) with
  | some rest =>
    have others : '.' ∉ "on-sealed".toList ∧ '/' ∉ "on-sealed".toList := by decide
    exact Text.isSegment_ofList_cons (by decide : 'n' ≠ '.' ∧ 'n' ≠ '/') others
  | none => exact Text.isSegment_word (by decide) (by decide) start cs

theorem ne_word_of_stringCut (cs : List Char) : (stringCut cs).1 ≠ .word := by
  unfold stringCut
  split
  split <;> nofun

theorem ne_word_of_characterCut {cs : List Char} {c : Cut} (cuts : characterCut cs = some c) : c.1 ≠ .word := by
  unfold characterCut at cuts
  split at cuts
  · split at cuts
    · cases cuts
    · cases cuts
      nofun
  · cases cuts

theorem ne_word_of_commentCut {cs : List Char} {c : Cut} (cuts : commentCut cs = some c) : c.1 ≠ .word := by
  unfold commentCut at cuts
  split at cuts
  · cases cuts
    nofun
  · obtain ⟨inside, -, rfl⟩ := Option.map_eq_some_iff.mp cuts
    nofun
  · cases cuts

theorem ne_word_of_symbolCut {cs : List Char} {c : Cut} (cuts : symbolCut cs = some c) : c.1 ≠ .word := by
  unfold symbolCut at cuts
  split at cuts
  · cases cuts
    nofun
  · split at cuts
    · split at cuts
      · cases cuts
        nofun
      · cases cuts
    · cases cuts

/-- What is cut off as a word is a segment of a name. -/
theorem isSegment_cut {cs : List Char} (isWord : (cut cs).1 = .word) : Text.IsSegment (.ofList (cut cs).2.1) := by
  unfold cut at isWord ⊢
  cases cuts : cut? cs with
  | none => simp [cuts] at isWord
  | some token =>
    simp only [cuts] at isWord ⊢
    unfold cut? at cuts
    split at cuts
    · cases cuts
    · split at cuts
      · rename_i start
        cases cuts
        exact isSegment_wordCut start
      · split at cuts
        · cases cuts
          cases isWord
        · split at cuts
          · cases cuts
            exact absurd isWord (ne_word_of_stringCut _)
          · split at cuts
            · exact absurd isWord (ne_word_of_characterCut cuts)
            · rcases Option.or_eq_some_iff.mp cuts with cuts | ⟨-, cuts⟩
              · exact absurd isWord (ne_word_of_commentCut cuts)
              · exact absurd isWord (ne_word_of_symbolCut cuts)

/-- The tokens of the characters from a place on, at most `fuel` of them, and the end. -/
def scanFrom : (fuel : Nat) → (isBlank : Char → Bool) → Position → List Char → List Token
  | 0, _, _, _ => []
  | fuel + 1, isBlank, p, cs =>
    let before := cs.takeWhile isBlank
    let rest := cs.drop before.length
    let start := p.after before
    if rest.isEmpty then [⟨.theEnd, "", .ofList before, start, start, nofun⟩]
    else
      let token := cut rest
      let stop := start.after token.2.1
      ⟨token.1, .ofList token.2.1, .ofList before, start, stop, isSegment_cut⟩ ::
        scanFrom fuel isSpace stop token.2.2

/-- The tokens of a source, the end last. A byte order mark at the start counts as white space. -/
def scan (cs : List Char) : List Token :=
  scanFrom (cs.length + 1) (fun c => isSpace c || c == '\ufeff') ⟨0, 0, 0⟩ cs

end Token

end EntityAtlas.Java
