import EntityAtlas.Store.Read

/-!
# Finding source files

A walk below a directory gives its files with a certain ending, directories and files of one directory in the order of
their names. Links to directories are not entered, links to files count as files. The walk ends at the first fault, and
what was found before stands. Names and links on a way are limited as the system limits them (`maxName`, `maxLinks`);
two limits are left out, that of the length of a whole path and that of how deep directories lie inside one another.
-/

namespace EntityAtlas.Store

/-- The outcome of a walk: the files found and the fault that ended it, if any. -/
structure Listing where
  files : List Path
  fault : Option Fault
  deriving DecidableEq, Repr

namespace Listing

/-- A walk that meets nothing. -/
def empty : Listing := ⟨[], none⟩

/-- One walk after another; after a fault there is no other. -/
def append (a b : Listing) : Listing :=
  match a.fault with
  | some f => ⟨a.files, some f⟩
  | none => ⟨a.files ++ b.files, b.fault⟩

/-- Several walks, one after another. -/
def concat (walks : List Listing) : Listing :=
  walks.foldr append empty

end Listing

/-- The text of an entry's path, as the listing of its directory gives it. -/
def entryText (dir : Path) (name : String) : String :=
  let base := dir.text
  if Text.endsWith base "/" then base ++ name else base ++ "/" ++ name

/-- The file that stands in a directory under a name, if the name has the right ending. -/
def candidate (ending : String) (dir : Path) (name : String) : Listing :=
  ⟨if Text.endsWith name ending then [.ofString (entryText dir name)] else [], none⟩

/-- The walk's contribution of a link: it counts as a file when it leads to one. -/
def linked (s : Store) (ending : String) (dir : Path) (name : String) : Listing :=
  match s.isRegularFile (.ofString (entryText dir name)) (entryText dir name) with
  | .error f => ⟨[], some f⟩
  | .ok true => candidate ending dir name
  | .ok false => .empty

/-- Entries in the order of their names. -/
def inNameOrder {α : Type} (entries : List (String × α)) : List (String × α) :=
  entries.mergeSort fun a b => a.1 ≤ b.1

mutual

/-- The walk below one entry, which stands in the directory `dir` under `name`. -/
def walkEntry (s : Store) (ending : String) (dir : Path) (name : String) : Entry → Listing
  | .dir entries =>
    .concat ((inNameOrder (walkEach s ending (.ofString (entryText dir name)) entries)).map (·.2))
  | .file _ => candidate ending dir name
  | .link _ => s.linked ending dir name

/-- The walks below the entries of a directory, each with the entry's name. -/
def walkEach (s : Store) (ending : String) (dir : Path) : List (String × Entry) → List (String × Listing)
  | [] => []
  | (name, e) :: rest => (name, walkEntry s ending dir name e) :: walkEach s ending dir rest

end

/-- The files below a directory whose names have the given ending, however long their paths are and however deep they
lie. -/
def findFiles (s : Store) (ending : String) (dir : Path) : Listing :=
  match s.isDirectory dir with
  | .error f => ⟨[], some f⟩
  | .ok false => ⟨[], some (.noSourceDirectory dir.text)⟩
  | .ok true =>
    match s.entry? dir with
    | .ok (some (.dir entries)) => .concat ((inNameOrder (walkEach s ending dir entries)).map (·.2))
    | _ => .empty

end EntityAtlas.Store
