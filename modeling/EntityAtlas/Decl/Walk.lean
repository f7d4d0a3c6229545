import EntityAtlas.Decl.Basic

/-!
# Walks over declarations

A walk visits a declaration before the declarations inside it, and those in source order. What it finds is a
declaration together with its place: the file and the trail, the number of each declaration on the way down among the
declarations beside it. Two finds are the same when their places are.
-/

namespace EntityAtlas

/-- A declaration and the place where it was found. -/
structure Placed where
  file : String
  trail : List Nat
  decl : Decl
  deriving DecidableEq, Repr, Inhabited

namespace Placed

mutual

/-- The finds at and inside a member, a declaration having the number `n` below `trail`. -/
def ofItem (file : String) (trail : List Nat) (n : Nat) : Item → List Placed
  | .field _ => []
  | .type h is => ⟨file, trail ++ [n], ⟨h, is⟩⟩ :: ofItems file (trail ++ [n]) 0 is

/-- The finds among members, the first declaration having the number `n` below `trail`. -/
def ofItems (file : String) (trail : List Nat) (n : Nat) : List Item → List Placed
  | [] => []
  | .field _ :: rest => ofItems file trail n rest
  | item :: rest => ofItem file trail n item ++ ofItems file trail (n + 1) rest

end

@[simp] theorem ofItems_nil (file : String) (trail : List Nat) (n : Nat) : ofItems file trail n [] = [] := rfl

@[simp] theorem ofItems_field (file : String) (trail : List Nat) (n : Nat) (f : Field) (rest : List Item) :
    ofItems file trail n (.field f :: rest) = ofItems file trail n rest := rfl

@[simp] theorem ofItems_type (file : String) (trail : List Nat) (n : Nat) (h : Head) (is rest : List Item) :
    ofItems file trail n (.type h is :: rest) =
      ⟨file, trail ++ [n], ⟨h, is⟩⟩ :: (ofItems file (trail ++ [n]) 0 is ++ ofItems file trail (n + 1) rest) := rfl

/-- The declaration and all declarations inside it. -/
def walk (p : Placed) : List Placed :=
  p :: ofItems p.file p.trail 0 p.decl.items

/-- The declarations directly inside, each with its place. -/
def children (p : Placed) : List Placed :=
  p.decl.nestedTypes.zipIdx.map fun (d, n) => ⟨p.file, p.trail ++ [n], d⟩

end Placed

mutual

/-- How many declarations lie inside one another at and inside a member. -/
def Item.depth : Item → Nat
  | .field _ => 0
  | .type _ items => Item.depthAll items + 1

/-- How many declarations lie inside one another among members. -/
def Item.depthAll : List Item → Nat
  | [] => 0
  | item :: rest => max item.depth (Item.depthAll rest)

end

/-- How many declarations of a unit lie inside one another. -/
def CompilationUnit.depth (u : CompilationUnit) : Nat :=
  Item.depthAll (u.types.map Decl.toItem)

/-- All declarations of a unit, each with its place in the given file. -/
def CompilationUnit.walk (file : String) (u : CompilationUnit) : List Placed :=
  Placed.ofItems file [] 0 (u.types.map Decl.toItem)

/-- The declaration and all declarations inside it. -/
def Decl.walk (d : Decl) : List Decl :=
  (Placed.walk ⟨"", [], d⟩).map (·.decl)

end EntityAtlas
