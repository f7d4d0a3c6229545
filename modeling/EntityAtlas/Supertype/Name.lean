import EntityAtlas.Text.Pieces
import EntityAtlas.Text.Upper

/-!
# Names of types and packages

Where a dotted name ends its package is told by capitals: a segment that starts with one names a type. Qualified names
leave enclosing types out.
-/

namespace EntityAtlas.Supertype

/-- What stands before the last dot. -/
def packageOf (name : String) : String :=
  ".".intercalate (Text.pieces '.' name).dropLast

/-- Whether a segment names a type. -/
def isTypeSegment (segment : String) : Bool :=
  segment.toList.head?.any Text.isUpper

/-- The qualified name of the type that a full dotted name denotes: the segments before the first type, and the last
segment. -/
def modelName (path : String) : String :=
  let segments := Text.pieces '.' path
  ".".intercalate (segments.dropLast.takeWhile (fun s => !isTypeSegment s) ++ segments.getLast?.toList)

end EntityAtlas.Supertype
