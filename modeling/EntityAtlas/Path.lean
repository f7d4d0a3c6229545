import EntityAtlas.Text.Pieces

/-!
# Paths

A path is an anchor and its components. Repeated slashes and `.` components carry no meaning and are dropped when a
path is read; `..` is kept, since a link may stand before it.
-/

namespace EntityAtlas

/-- Where a path starts: at the working directory, at the root, or at the root written with two slashes. -/
inductive Anchor where
  | here
  | root
  | doubleRoot
  deriving DecidableEq, Repr

namespace Path

/-- A component that names something. -/
def isProper (part : String) : Bool :=
  part != "" && part != "."

/-- A component that names something and stands between slashes. -/
def IsPart (part : String) : Prop :=
  isProper part = true ∧ '/' ∉ part.toList

instance : DecidablePred IsPart := fun _ => inferInstanceAs (Decidable (_ ∧ _))

end Path

/-- A path: an anchor and components, none of them empty or `.`. -/
@[ext]
structure Path where
  anchor : Anchor
  parts : List String
  clean : ∀ part ∈ parts, Path.IsPart part
  deriving DecidableEq, Repr

namespace Path

/-- The path of an anchor and components, of which those that name nothing are dropped. -/
def ofParts (anchor : Anchor) (parts : List String) : Path where
  anchor
  parts := parts.filter IsPart
  clean _ mem := of_decide_eq_true (List.mem_filter.mp mem).2

/-- The anchor of a written path: exactly two leading slashes are kept, other repetitions count once. -/
def anchorOf : List Char → Anchor
  | '/' :: '/' :: '/' :: _ => .root
  | '/' :: '/' :: _ => .doubleRoot
  | '/' :: _ => .root
  | _ => .here

/-- The path that a text denotes. -/
def ofString (s : String) : Path :=
  .ofParts (anchorOf s.toList) (Text.pieces '/' s)

/-- The working directory. -/
def here : Path := .ofParts .here []

def text (p : Path) : String :=
  match p.anchor, p.parts with
  | .here, [] => "."
  | .here, parts => "/".intercalate parts
  | .root, parts => "/" ++ "/".intercalate parts
  | .doubleRoot, parts => "//" ++ "/".intercalate parts

/-- A path below another one; an anchored path stands for itself. -/
def append (p q : Path) : Path :=
  match q.anchor with
  | .here => ⟨p.anchor, p.parts ++ q.parts, List.forall_mem_append.mpr ⟨p.clean, q.clean⟩⟩
  | _ => q

/-- The path below `p` that a text denotes. -/
def join (p : Path) (s : String) : Path :=
  p.append (ofString s)

/-- The path below `p` that several texts denote, one below the other. -/
def joinAll (p : Path) (texts : List String) : Path :=
  texts.foldl join p

/-- The path without its last component; a path without components is its own parent. -/
def parent (p : Path) : Path :=
  ⟨p.anchor, p.parts.dropLast, fun _ mem => p.clean _ (List.dropLast_subset _ mem)⟩

/-- Whether `p` lies at or below `base`, going by components alone. -/
def isWithin (base p : Path) : Bool :=
  p.anchor == base.anchor && base.parts.isPrefixOf p.parts

end Path

end EntityAtlas
