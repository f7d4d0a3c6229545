/-!
# Faults of the strict reader

The strict reader stops at the first fault. A fault is one of four: characters that form no token, a token that the
grammar does not allow, a source that ends too early, or an end that the reader looks past.
-/

namespace EntityAtlas.Java.Strict

/-- Why a source cannot be read. -/
inductive Fault where
  /-- Characters that form no token: what is wrong, the character at which it was noticed, and its line. -/
  | unreadable (what : String) (mark : String) (line : Nat) (context : String)
  /-- A token that the grammar does not allow, and its line if there is such a token. -/
  | unexpected (what : String) (line : Option Nat)
  /-- The source ends where a token is needed. -/
  | ended
  /-- The end of the source is compared with a text. -/
  | comparedEnd
  /-- A character after the end is asked for. -/
  | pastEnd
  /-- An escape that names no character. -/
  | noCharacter
  deriving DecidableEq, Repr, Inhabited

namespace Fault

/-- The wording of a fault. -/
def message : Fault → String
  | .unreadable what mark line context =>
    "Java lexer error: " ++ what ++ " at \"" ++ mark ++ "\", line " ++ toString line ++ ": " ++ context
  | .unexpected what none => "Java syntax error: " ++ what
  | .unexpected what (some line) => "Java syntax error at line " ++ toString line ++ ": " ++ what
  | .ended => "Failed to parse Java code: "
  | .comparedEnd => "Failed to parse Java code: 'in <string>' requires string as left operand, not NoneType"
  | .pastEnd => "Failed to parse Java code: string index out of range"
  | .noCharacter => "Failed to parse Java code: chr() arg not in range(0x110000)"

end Fault

end EntityAtlas.Java.Strict
