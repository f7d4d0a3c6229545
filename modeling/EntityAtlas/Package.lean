import EntityAtlas.Path
import EntityAtlas.Text.Blank

/-!
# Package names

A package may be asked for with dots, slashes or backslashes between its segments.
-/

namespace EntityAtlas.Package

/-- The dotted form: blanks at the ends are dropped, every separator becomes a dot, dots at the ends are dropped. -/
def normalize (s : String) : String :=
  let dotted := (Text.trim Text.isBlank s.toList).map fun c => if c == '/' || c == '\\' then '.' else c
  String.ofList (Text.trim (· == '.') dotted)

/-- The directory of a package below a source directory. -/
def directory (sources : Path) (package : String) : Path :=
  let dotted := normalize package
  if dotted == "" then sources else sources.joinAll (Text.pieces '.' dotted)

/-- The directory of a package as declared in a source, below an output directory. -/
def outputDirectory (output : Path) (package : Option String) : Path :=
  match package with
  | none => output
  | some p => if p == "" then output else output.joinAll (Text.pieces '.' p)

end EntityAtlas.Package
