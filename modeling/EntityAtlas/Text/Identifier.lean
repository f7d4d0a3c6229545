import EntityAtlas.Text.Category

/-!
# Identifiers

Two rules say which characters form a name: the strict one goes by general categories, the lenient one by the standard
identifier properties.
-/

namespace EntityAtlas.Text.Identifier

open Category

/-- The strict rule for the first character: letters, connecting punctuation and currency signs. -/
def strictStart (c : Char) : Bool :=
  if c.toNat < 128 then c.isAlpha || c == '_' || c == '$'
  else letters.contains c || connectors.contains c || currencies.contains c

/-- The strict rule for the later characters, which adds marks and decimal digits. -/
def strictPart (c : Char) : Bool :=
  if c.toNat < 128 then c.isAlphanum || c == '_' || c == '$'
  else letters.contains c || connectors.contains c || currencies.contains c || marks.contains c || decimals.contains c

/-- Letters that cannot start an identifier because a normalisation would split them. -/
def unstableStart : Charset :=
  [890, 891, 3635, 3636, 3763, 3764, 11823, 11824, 64606, 64612, 65018, 65020, 65136, 65137, 65138, 65139,
   65140, 65141, 65142, 65143, 65144, 65145, 65146, 65147, 65148, 65149, 65150, 65151, 65438, 65440]

/-- Letters that cannot stand in an identifier because a normalisation would split them. -/
def unstablePart : Charset :=
  [890, 891, 11823, 11824, 64606, 64612, 65018, 65020, 65136, 65137, 65138, 65139, 65140, 65141, 65142, 65143,
   65144, 65145, 65146, 65147, 65148, 65149, 65150, 65151]

/-- Characters of other categories that may start an identifier. -/
def extraStart : Charset :=
  [6277, 6279, 8472, 8473, 8494, 8495]

/-- Characters of other categories that may continue an identifier. -/
def extraPart : Charset :=
  [183, 184, 903, 904, 4969, 4978, 6618, 6619, 8472, 8473, 8494, 8495]

/-- The lenient rule for the first character. -/
def lenientStart (c : Char) : Bool :=
  if c.toNat < 128 then c.isAlpha || c == '_' || c == '$'
  else (letters.contains c && !unstableStart.contains c) || extraStart.contains c

/-- The lenient rule for the later characters; the cent sign counts among them. -/
def lenientPart (c : Char) : Bool :=
  if c.toNat < 128 then c.isAlphanum || c == '_' || c == '$'
  else c == '¢' || extraPart.contains c ||
    ((letters.contains c || marks.contains c || decimals.contains c || connectors.contains c) &&
      !unstablePart.contains c)

end EntityAtlas.Text.Identifier
