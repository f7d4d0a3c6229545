import EntityAtlas.Path
import EntityAtlas.Store.Fault
import EntityAtlas.Store.Machine

/-!
# The file store

Files, directories and symbolic links as one tree, with the place of the working directory in it, and the machine that
holds them.
-/

namespace EntityAtlas

/-- What a directory holds under a name. -/
inductive Entry where
  | file (content : List UInt8)
  | link (target : String)
  | dir (entries : List (String × Entry))
  deriving Inhabited, Repr

namespace Entry

/-- The entries of a directory; other entries have none. -/
def entries : Entry → List (String × Entry)
  | .dir es => es
  | _ => []

/-- The entry under a name. -/
def child? (e : Entry) (name : String) : Option Entry :=
  e.entries.lookup name

/-- The entry at the end of a chain of names; links are not followed. -/
def at? (e : Entry) : List String → Option Entry
  | [] => some e
  | name :: rest => (e.child? name).bind fun c => c.at? rest

/-- Put an entry under a name, in the place of the one that is there. -/
def put (name : String) (new : Entry) : List (String × Entry) → List (String × Entry)
  | [] => [(name, new)]
  | (n, e) :: rest => if n == name then (n, new) :: rest else (n, e) :: put name new rest

/-- The tree with `new` at the end of a chain of names. -/
def insertAt (new : Entry) : List String → Entry → Entry
  | [], _ => new
  | name :: rest, e => .dir (put name (insertAt new rest ((e.child? name).getD (.dir []))) e.entries)

/-- The tree without the entry at the end of a chain of names. -/
def eraseAt : List String → Entry → Entry
  | [], e => e
  | [name], e => .dir (e.entries.filter fun p => p.1 != name)
  | name :: rest, e =>
    match e.child? name with
    | none => e
    | some c => .dir (put name (eraseAt rest c) e.entries)

/-- Whether the entry is a directory. -/
def isDir : Entry → Bool
  | .dir _ => true
  | _ => false

/-- Whether the entry is a regular file. -/
def isFile : Entry → Bool
  | .file _ => true
  | _ => false

end Entry

/-- The file store: the root directory, the place of the working directory, and the machine. -/
structure Store where
  root : Entry
  cwd : List String
  machine : Machine := .standard
  deriving Inhabited

namespace Store

/-- A store that holds an empty working directory only. -/
def fresh (cwd : List String) : Store where
  root := Entry.insertAt (.dir []) cwd (.dir [])
  cwd

/-- The working directory as an absolute path. -/
def cwdPath (s : Store) : Path :=
  .ofParts .root s.cwd

end Store

end EntityAtlas
