import EntityAtlas.Text.Category
import EntityAtlas.Text.Pieces
import EntityAtlas.Text.Quoted

/-!
# Words of a command line

A word is an option, an argument, or the mark `--` after which all words are arguments. Options have a short and a long
name; a long one may be shortened as long as only one option is meant, and a value may be attached to its option.
-/

namespace EntityAtlas.CommandLine

/-- The options. -/
inductive Switch where
  | help
  | baseDir
  | sourceDir
  | outputDir
  | level
  | generator
  | verbose
  deriving DecidableEq, Repr, Inhabited

namespace Switch

/-- All options, in the order in which messages list them. -/
def all : List Switch := [.help, .baseDir, .sourceDir, .outputDir, .level, .generator, .verbose]

/-- The letter of the short name. -/
def letter : Switch → Char
  | .help => 'h'
  | .baseDir => 'b'
  | .sourceDir => 's'
  | .outputDir => 'o'
  | .level => 'l'
  | .generator => 'g'
  | .verbose => 'v'

def short (o : Switch) : String := String.ofList ['-', o.letter]

def long : Switch → String
  | .help => "--help"
  | .baseDir => "--base-dir"
  | .sourceDir => "--source-dir"
  | .outputDir => "--output-dir"
  | .level => "--language-level"
  | .generator => "--generator"
  | .verbose => "--verbose"

def takesValue : Switch → Bool
  | .help => false
  | .verbose => false
  | _ => true

/-- Both names, as messages give them. -/
def names (o : Switch) : String := o.short ++ "/" ++ o.long

end Switch

/-- Why a command line is refused. -/
inductive Refusal where
  | ambiguous (word : String) (options : List Switch)
  | noValue (option : Switch)
  | needlessValue (option : Switch) (value : String)
  | badLevel (value : String) (levels : List String)
  | noPackage
  | unrecognized (words : List String)
  deriving DecidableEq, Repr

namespace Refusal

/-- The wording of a refusal. -/
def message : Refusal → String
  | .ambiguous word options =>
    "ambiguous option: " ++ word ++ " could match " ++ ", ".intercalate (options.map (·.long))
  | .noValue o => "argument " ++ o.names ++ ": expected one argument"
  | .needlessValue o value => "argument " ++ o.names ++ ": ignored explicit argument " ++ Text.quoted value
  | .badLevel value levels =>
    "argument " ++ Switch.level.names ++ ": invalid choice: " ++ Text.quoted value ++ " (choose from " ++
      ", ".intercalate (levels.map Text.quoted) ++ ")"
  | .noPackage => "the following arguments are required: package_name"
  | .unrecognized words => "unrecognized arguments: " ++ " ".intercalate words

end Refusal

/-- What a word is. An option may come with more characters: those after `=`, or those that follow a short name. -/
inductive Word where
  | argument
  | endOfOptions
  | option (o : Switch) (isLong : Bool) (afterEquals : Bool) (attached : Option String)
  | unknown
  deriving DecidableEq, Repr

namespace Word

/-- A text before and after its first `=`, if it has one. -/
def cutAtEquals (s : String) : String × Option String :=
  let cs := s.toList
  let head := cs.takeWhile (· != '=')
  (.ofList head, if head.length < cs.length then some (.ofList (cs.drop (head.length + 1))) else none)

/-- The option of a full name, and whether the name is the long one. -/
def named? (s : String) : Option (Switch × Bool) :=
  match Switch.all.find? (·.short == s) with
  | some o => some (o, false)
  | none => (Switch.all.find? (·.long == s)).map fun o => (o, true)

/-- Digits, at least `least` of them, and nothing else. -/
def areDigits (least : Nat) (cs : List Char) : Bool :=
  least ≤ cs.length && cs.all Text.Category.decimals.contains

/-- Whether a word is a negative number, whole or with a point. One line break may follow it. -/
def isNegativeNumber (s : String) : Bool :=
  match s.toList with
  | '-' :: cs =>
    let cs := if cs.getLast? == some '\n' then cs.dropLast else cs
    areDigits 1 cs ||
      (match cs.span (· != '.') with
        | (whole, '.' :: fraction) => areDigits 0 whole && areDigits 1 fraction
        | _ => false)
  | _ => false

/-- What a word is that starts with `-` and is no full name: a shortened long name, a short name with characters
attached, a number, or nothing known. -/
def ofOther (s : String) : Except Refusal Word :=
  let (name, value) := cutAtEquals s
  match s.toList with
  | '-' :: '-' :: _ =>
    match Switch.all.filter fun o => Text.startsWith o.long name with
    | [o] => .ok (.option o true value.isSome value)
    | [] => .ok (if s.toList.contains ' ' then .argument else .unknown)
    | options => .error (.ambiguous s options)
  | '-' :: c :: rest =>
    match Switch.all.find? (·.letter == c) with
    | some o => .ok (.option o false false (some (.ofList rest)))
    | none => .ok (if isNegativeNumber s || s.toList.contains ' ' then .argument else .unknown)
  | _ => .ok .argument

/-- What a word is, as long as options may come. -/
def ofString (s : String) : Except Refusal Word :=
  if !Text.startsWith s "-" then .ok .argument
  else if s == "--" then .ok .endOfOptions
  else match named? s with
    | some (o, isLong) => .ok (.option o isLong false none)
    | none =>
      let (name, value) := cutAtEquals s
      match value, named? name with
      | some v, some (o, isLong) => .ok (.option o isLong true (some v))
      | _, _ => ofOther s

/-- What the words of a command line are. -/
def ofWords : List String → Except Refusal (List (Word × String))
  | [] => .ok []
  | s :: rest => do
    match ← ofString s with
    | .endOfOptions => return (.endOfOptions, s) :: rest.map fun r => (.argument, r)
    | w => return (w, s) :: (← ofWords rest)

end Word

end EntityAtlas.CommandLine
