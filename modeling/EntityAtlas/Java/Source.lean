import EntityAtlas.Java.Level
import EntityAtlas.Java.Outline
import EntityAtlas.Java.Strict.Outline
import EntityAtlas.Proofs.TidyTrees

/-!
# Reading sources

A source is read as its language level says: strictly, or leniently with or without records. What a lenient parser makes
of a faulty source is its own affair; in the trees of every such parser the names of declarations are segments of dotted
names, as identifiers are.
-/

namespace EntityAtlas.Java

/-- A lenient parser: it has a syntax tree for every text, in which the names of all declarations are segments. -/
structure Parser where
  tree : List Char → Tree
  tidy : ∀ cs, (tree cs).Tidy

/-- The parser that repairs a source where it is at fault. -/
def Parser.standard : Parser := ⟨Tree.ofSource, Tree.tidy_ofSource⟩

/-- The outline of a source, or why the strict reader refuses it. -/
def Outline.ofSource (parser : Parser) (level : Level) (sourceFile : Option String) (cs : List Char) :
    Except Strict.Fault Outline :=
  match level.reader with
  | .strict => (Strict.Source.ofChars cs).map fun s => ⟨s.toUnit sourceFile, []⟩
  | .lenient records => .ok (ofTree records sourceFile (parser.tree cs))

end EntityAtlas.Java
