import EntityAtlas.Java.Strict.Fault
import EntityAtlas.Text.Blank
import EntityAtlas.Text.Category

/-!
# Escapes

Before a source is cut into tokens, `\u` escapes are put out of it: a backslash, one `u` or several, and four characters
that are read as a hexadecimal number. The number is read generously: blanks around it, a sign, `0x` before it,
underscores between digits and the decimal digits of every script will do.
-/

namespace EntityAtlas.Java.Strict.Escape

open Text

def digitValue? (c : Char) : Option Nat :=
  if 'a' ≤ c && c ≤ 'f' then some (c.toNat - 'a'.toNat + 10)
  else if 'A' ≤ c && c ≤ 'F' then some (c.toNat - 'A'.toNat + 10)
  else Category.decimalValue? c

/-- The number of digits with single underscores between them. -/
def digits? : (value : Nat) → (isOpen : Bool) → List Char → Option Nat
  | value, isOpen, [] => if isOpen then none else some value
  | value, isOpen, '_' :: cs => if isOpen then none else digits? value true cs
  | value, _, c :: cs => (digitValue? c).bind fun d => digits? (16 * value + d) false cs

/-- The number without its sign. -/
def unsigned? : List Char → Option Nat
  | '0' :: 'x' :: '_' :: cs => digits? 0 true cs
  | '0' :: 'x' :: cs => digits? 0 true cs
  | '0' :: 'X' :: '_' :: cs => digits? 0 true cs
  | '0' :: 'X' :: cs => digits? 0 true cs
  | cs => digits? 0 true cs

/-- The number that characters spell. -/
def number? (cs : List Char) : Option Int :=
  match trim isBlank cs with
  | '-' :: cs => (unsigned? cs).map fun n => -(n : Int)
  | '+' :: cs => (unsigned? cs).map Int.ofNat
  | cs => (unsigned? cs).map Int.ofNat

/-- The character of a number. Halves of pairs are no characters; the replacement character stands for them. -/
def character (n : Int) : Except Fault Char :=
  if n < 0 || 0x110000 ≤ n then .error .noCharacter
  else if 0xd800 ≤ n && n < 0xe000 then .ok '\ufffd'
  else .ok (Char.ofNat n.toNat)

/-- The fault of characters that spell no number. It is found before any token is, so the first line is blamed. -/
def fault (source digits : List Char) : Fault :=
  let line := if source.contains '\n' then source.takeWhile (· != '\n') else source.dropLast
  .unreadable "Invalid unicode escape" (.ofList digits) 1 (.ofList (trim isBlank line))

/-- The characters after escapes were put out of them. `done` holds what is finished, last character first, and `since`
counts what came after the last escape. An escape that the source ends in stays as it is, and what came after the
escape before it is there twice. -/
def resolveFrom (source : List Char) : (fuel : Nat) → (done : List Char) → (since : Nat) → List Char →
    Except Fault (List Char)
  | 0, done, _, cs => .ok (done.reverse ++ cs)
  | fuel + 1, done, since, cs =>
    match cs with
    | [] => .ok done.reverse
    | '\\' :: 'u' :: rest =>
      match rest.dropWhile (· == 'u') with
      | [] => .ok (done.reverse ++ (done.take since).reverse ++ cs)
      | code =>
        match number? (code.take 4) with
        | none => .error (fault source (code.take 4))
        | some n => do resolveFrom source fuel ((← character n) :: done) 0 (code.drop 4)
    | '\\' :: c :: rest => resolveFrom source fuel (c :: '\\' :: done) (since + 2) rest
    | c :: rest => resolveFrom source fuel (c :: done) (since + 1) rest

/-- A source with the characters in place of their escapes. -/
def resolve (source : List Char) : Except Fault (List Char) :=
  resolveFrom source (source.length + 1) [] 0 source

end EntityAtlas.Java.Strict.Escape
