import EntityAtlas.Text.Upper

/-!
# Names in generated classes

A metadata class is named after its entity. A constant is named after its field: the words of the field's name in upper
case, with `_` between them.
-/

namespace EntityAtlas.Naming

/-- The name of the metadata class for an entity, unless another rule is chosen. -/
def standard (entity : String) : String :=
  entity ++ "_"

/-- A small letter or a digit, of ASCII. -/
def isLowerOrDigit (c : Char) : Bool :=
  ('a' ≤ c && c ≤ 'z') || ('0' ≤ c && c ≤ '9')

/-- A capital letter, of ASCII. -/
def isCapital (c : Char) : Bool :=
  'A' ≤ c && c ≤ 'Z'

/-- A small letter, of ASCII. -/
def isSmall (c : Char) : Bool :=
  'a' ≤ c && c ≤ 'z'

/-- Whether a word ends between `before` and the characters after it: at a capital after a small letter or digit, and
at the last capital of a row when a small letter follows it. -/
def isBoundary (before : Char) (rest : List Char) : Bool :=
  match rest with
  | c :: d :: _ => isCapital c && (isLowerOrDigit before || (isCapital before && isSmall d))
  | [c] => isCapital c && isLowerOrDigit before
  | [] => false

/-- The characters with `_` at the end of each word. -/
def markWords : List Char → List Char
  | [] => []
  | c :: rest => if isBoundary c rest then c :: '_' :: markWords rest else c :: markWords rest

/-- The name of the constant for a field. -/
def constant (field : String) : String :=
  Text.upper (String.ofList (markWords field.toList))

end EntityAtlas.Naming
