import EntityAtlas.Text.Printable

/-!
# Quoted texts

How a text is shown inside a message: between quotes, with the characters that cannot be shown written by number. The
quote is `'`, unless the text holds `'` and no `"`.
-/

namespace EntityAtlas.Text

/-- The hexadecimal digits of a number, at least `width` of them. -/
def hex (width n : Nat) : String :=
  let digits := (Nat.toDigits 16 n)
  String.ofList (List.replicate (width - digits.length) '0' ++ digits)

namespace Quoted

/-- The quote that a text is put between. -/
def mark (cs : List Char) : Char :=
  if cs.contains '\'' && !cs.contains '"' then '"' else '\''

/-- One character of a text quoted with `q`. -/
def escape (q c : Char) : String :=
  if c == q || c == '\\' then String.ofList ['\\', c]
  else if c == '\n' then "\\n"
  else if c == '\r' then "\\r"
  else if c == '\t' then "\\t"
  else if isPrintable c then String.singleton c
  else if c.toNat < 256 then "\\x" ++ hex 2 c.toNat
  else if c.toNat < 65536 then "\\u" ++ hex 4 c.toNat
  else "\\U" ++ hex 8 c.toNat

end Quoted

/-- A text between quotes. -/
def quoted (s : String) : String :=
  let cs := s.toList
  let q := Quoted.mark cs
  String.singleton q ++ String.join (cs.map (Quoted.escape q)) ++ String.singleton q

/-- A list of texts, each between quotes. -/
def quotedList (texts : List String) : String :=
  "[" ++ ", ".intercalate (texts.map quoted) ++ "]"

end EntityAtlas.Text
