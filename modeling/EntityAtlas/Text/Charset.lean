/-!
# Sets of characters

A set of code points is given by its boundaries in ascending order: the first code point inside, the first one after
it that is outside, the next one inside, and so on.
-/

namespace EntityAtlas.Text

/-- A set of code points as the ascending list of its boundaries. -/
abbrev Charset := List Nat

namespace Charset

/-- Membership of a code point: decided by the boundaries up to it. -/
def holds : Charset → Nat → Bool
  | [], _ => false
  | [start], n => start ≤ n
  | start :: stop :: rest, n => if n < start then false else if n < stop then true else holds rest n

/-- Membership of a character. -/
def contains (set : Charset) (c : Char) : Bool :=
  set.holds c.toNat

/-- The start of the run of members that a code point lies in. -/
def runStart? : Charset → Nat → Option Nat
  | [], _ => none
  | [start], n => if start ≤ n then some start else none
  | start :: stop :: rest, n => if n < start then none else if n < stop then some start else runStart? rest n

end Charset

end EntityAtlas.Text
