import EntityAtlas.CommandLine.Word
import EntityAtlas.Settings

/-!
# Reading a command line

All words are told apart before the first of them acts; then they act from left to right. The first argument is the
package. Words that nothing asks for are kept, and refused only when all others have acted.
-/

namespace EntityAtlas.CommandLine

/-- What the options of a command line choose. -/
structure Choices where
  baseDir : String := "."
  sourceDir : String := Settings.standardSources
  outputDir : String := "target/generated-sources/entity-metadata"
  level : Java.Level := .standard
  generator : String := Settings.standardGenerator
  verbose : Bool := false
  deriving DecidableEq, Repr

/-- What a command line asks for. -/
structure Arguments where
  packageName : String
  choices : Choices
  deriving DecidableEq, Repr

/-- Why the reading of a command line ends early: help is asked for, or the command line is refused. -/
inductive Stop where
  | help
  | refused (refusal : Refusal)
  deriving DecidableEq, Repr

/-- The options of one word: flags, and what stands after them. -/
inductive Bundle where
  | flag (o : Switch) (next : Bundle)
  | done
  | valued (o : Switch) (value : String)
  | waiting (o : Switch)
  | stray (text : String)
  deriving DecidableEq, Repr

namespace Bundle

/-- An option to which nothing is attached. -/
def bare (o : Switch) : Bundle :=
  if o.takesValue then .waiting o else .flag o .done

/-- An option that was written by its letter, with characters after it: they are its value, or else more letters. -/
def ofShort (o : Switch) (afterEquals : Bool) : List Char → Except Refusal Bundle
  | [] => if o.takesValue then .ok (.valued o "") else .error (.needlessValue o "")
  | c :: rest =>
    if o.takesValue then .ok (.valued o (.ofList (c :: rest)))
    else if afterEquals || c == '-' then .error (.needlessValue o (.ofList (c :: rest)))
    else match Switch.all.find? (·.letter == c) with
      | none => .ok (.flag o (.stray (.ofList ('-' :: c :: rest))))
      | some p => match rest with
        | [] => .ok (.flag o (bare p))
        | '=' :: value => (ofShort p true value).map (.flag o)
        | more => (ofShort p false more).map (.flag o)

/-- An option that was written by its long name, with a value after it. -/
def ofLong (o : Switch) (value : String) : Except Refusal Bundle :=
  if o.takesValue then .ok (.valued o value) else .error (.needlessValue o value)

def ofWord (o : Switch) (isLong afterEquals : Bool) : Option String → Except Refusal Bundle
  | none => .ok (bare o)
  | some value => if isLong then ofLong o value else ofShort o afterEquals value.toList

end Bundle

/-- What is known while the words act. -/
structure Draft where
  package : Option String := none
  choices : Choices := {}
  leftOver : List String := []
  deriving DecidableEq, Repr

namespace Draft

/-- Keep a word that nothing asks for. -/
def leave (d : Draft) (word : String) : Draft :=
  { d with leftOver := d.leftOver ++ [word] }

/-- Choose a level by its name. -/
def setLevel (d : Draft) (name : String) : Except Stop Draft :=
  match Java.Level.ofName? name with
  | some l => .ok { d with choices := { d.choices with level := l } }
  | none => .error (.refused (.badLevel name (Java.Level.all.map (·.name))))

/-- Act on an option; a flag has no use for the value. -/
def set (d : Draft) (o : Switch) (value : String) : Except Stop Draft :=
  match o with
  | .help => .error .help
  | .baseDir => .ok { d with choices := { d.choices with baseDir := value } }
  | .sourceDir => .ok { d with choices := { d.choices with sourceDir := value } }
  | .outputDir => .ok { d with choices := { d.choices with outputDir := value } }
  | .level => d.setLevel value
  | .generator => .ok { d with choices := { d.choices with generator := value } }
  | .verbose => .ok { d with choices := { d.choices with verbose := true } }

/-- Act on the options of one word. When the last of them waits for a value, that is the word `value`. -/
def setAll (d : Draft) (value : String) : Bundle → Except Stop Draft
  | .flag o next => (d.set o "").bind fun d => setAll d value next
  | .done => .ok d
  | .valued o v => d.set o v
  | .waiting o => d.set o value
  | .stray text => .ok (d.leave text)

end Draft

/-- The option that waits for a value at the end of a bundle. -/
def Bundle.waiter? : Bundle → Option Switch
  | .flag _ next => next.waiter?
  | .waiting o => some o
  | _ => none

/-- Let words act from left to right. The mark `--` is dropped beside the package and kept as left over elsewhere. -/
def Draft.readAll (d : Draft) : List (Word × String) → Except Stop Draft
  | [] => .ok d
  | (.unknown, s) :: rest => (d.leave s).readAll rest
  | (.argument, s) :: rest =>
    if d.package.isSome then (d.leave s).readAll rest
    else match rest with
      | (.endOfOptions, _) :: rest => { d with package := some s }.readAll rest
      | rest => { d with package := some s }.readAll rest
  | (.endOfOptions, s) :: rest =>
    match d.package, rest with
    | none, (.argument, p) :: rest => { d with package := some p }.readAll rest
    | _, rest => (d.leave s).readAll rest
  | (.option o isLong afterEquals attached, _) :: rest =>
    match Bundle.ofWord o isLong afterEquals attached with
    | .error r => .error (.refused r)
    | .ok bundle => match bundle.waiter?, rest with
      | none, rest => (d.setAll "" bundle).bind fun d => d.readAll rest
      | some _, (.argument, value) :: rest => (d.setAll value bundle).bind fun d => d.readAll rest
      | some w, _ => .error (.refused (.noValue w))

/-- What is asked for when all words have acted. -/
def Draft.finish (d : Draft) : Except Stop Arguments :=
  match d.package, d.leftOver with
  | none, _ => .error (.refused .noPackage)
  | some p, [] => .ok ⟨p, d.choices⟩
  | some _, words => .error (.refused (.unrecognized words))

/-- What a command line asks for. -/
def Arguments.ofWords (words : List String) : Except Stop Arguments :=
  match Word.ofWords words with
  | .error r => .error (.refused r)
  | .ok ws => (Draft.readAll {} ws).bind Draft.finish

/-- The settings that a command line asks for. -/
def Arguments.settings (a : Arguments) : Settings :=
  ⟨.ofString a.choices.baseDir, Package.normalize a.packageName, .ofString a.choices.outputDir,
    .ofString a.choices.sourceDir, a.choices.level, a.choices.generator⟩

end EntityAtlas.CommandLine
