/-!
# Machines

What a store lies on. The stack of a machine bounds how deep declarations may lie inside one another, and its medium may
refuse to keep what is written to a file.
-/

namespace EntityAtlas

/-- Why a medium does not keep a content: how many of its bytes are written before the refusal, or none where the file
cannot even be opened, and the number and the words that the system has for it. -/
structure Refusal where
  taken : Option Nat
  number : Nat
  reason : String
  deriving DecidableEq, Repr

/-- A machine. -/
structure Machine where
  depth : Nat
  refusal? : (loc : List String) → (content : List UInt8) → Option Refusal

/-- The usual machine; its medium takes everything. -/
def Machine.standard : Machine := ⟨980, fun _ _ => none⟩

instance : Inhabited Machine := ⟨.standard⟩

end EntityAtlas
