/-!
# Structured values

Values of the kinds that requests and answers are made of.
-/

namespace EntityAtlas

/-- A structured value. A number is `mantissa · 10 ^ (-exponent)`. -/
inductive Json where
  | null
  | bool (b : Bool)
  | num (mantissa : Int) (exponent : Nat)
  | str (s : String)
  | arr (items : List Json)
  | obj (fields : List (String × Json))
  deriving Inhabited, Repr

namespace Json

def text? : Json → Option String
  | .str s => some s
  | _ => none

/-- A text, or nothing. -/
def ofOption : Option String → Json
  | some s => .str s
  | none => .null

def texts (items : List String) : Json :=
  .arr (items.map .str)

/-- A decimal number with its fraction: `exponent` places after the point. -/
def decimalText (mantissa : Int) (exponent : Nat) : String :=
  let sign := if mantissa < 0 then "-" else ""
  let digits := (Nat.repr mantissa.natAbs).toList
  let padded := List.replicate (exponent + 1 - digits.length) '0' ++ digits
  let whole := padded.take (padded.length - exponent)
  sign ++ String.ofList whole ++
    if exponent == 0 then "" else "." ++ String.ofList (padded.drop (padded.length - exponent))

/-- The text that a message shows for a plain value. -/
def shown : Json → String
  | .null => "None"
  | .bool b => if b then "True" else "False"
  | .num mantissa exponent => decimalText mantissa exponent
  | .str s => s
  | .arr _ => "[]"
  | .obj _ => "\x7b\x7d"

end Json

end EntityAtlas
