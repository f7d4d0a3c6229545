import EntityAtlas.Store.Basic

/-!
# Finding the place that a path denotes

A path is followed component by component from the root or the working directory. `..` goes to the directory that
holds the current one, and a symbolic link is replaced by the components of its target. At most forty links are
followed on the way.
-/

namespace EntityAtlas.Store

/-- What a path leads to: an entry, or a free name in a directory. -/
inductive Place where
  | present (loc : List String)
  | absent (dir : List String) (name : String)
  deriving DecidableEq, Repr

/-- Why a path leads nowhere. -/
inductive Blocked where
  | missing
  | notADirectory
  | nameTooLong
  | tooManyLinks
  deriving DecidableEq, Repr

/-- The fault of an operation whose path is blocked. -/
def Blocked.fault (path : String) : Blocked → Fault
  | .missing => .missing path
  | .notADirectory => .notADirectory path
  | .nameTooLong => .nameTooLong path
  | .tooManyLinks => .tooManyLinks path

/-- The longest name of an entry, in bytes. -/
def maxName : Nat := 255

/-- The number of links that may be followed on one path. -/
def maxLinks : Nat := 40

/-- The components of a link's target; a slash at the end asks for a directory. -/
def targetParts (target : String) : List String :=
  (Text.pieces '/' target).filter (· != "") ++ (if Text.endsWith target "/" then ["."] else [])

/-- Follow components from the directory at `here`; links are left to `follow`. -/
def advance (root : Entry) (follow : List String → List String → Except Blocked Place) :
    List String → List String → Except Blocked Place
  | [], here => .ok (.present here)
  | name :: rest, here =>
    if name == ".." then advance root follow rest here.dropLast
    else if name == "." then advance root follow rest here
    else if maxName < name.utf8ByteSize then .error .nameTooLong
    else match root.at? (here ++ [name]) with
      | none => if rest.isEmpty then .ok (.absent here name) else .error .missing
      | some (.dir _) => advance root follow rest (here ++ [name])
      | some (.file _) => if rest.isEmpty then .ok (.present (here ++ [name])) else .error .notADirectory
      | some (.link target) =>
        follow (targetParts target ++ rest) (if Text.startsWith target "/" then [] else here)

/-- Follow components when `n - 1` more links may be followed. -/
def locateFrom (root : Entry) : Nat → List String → List String → Except Blocked Place
  | 0 => fun _ _ => .error .tooManyLinks
  | n + 1 => advance root (locateFrom root n)

/-- The directory that a path starts from. -/
def start (s : Store) (p : Path) : List String :=
  match p.anchor with
  | .here => s.cwd
  | _ => []

/-- The place that a path denotes, with all links followed. -/
def locate (s : Store) (p : Path) : Except Blocked Place :=
  locateFrom s.root (maxLinks + 1) p.parts (s.start p)

/-- The entry that a path denotes, with all links followed. -/
def entry? (s : Store) (p : Path) : Except Blocked (Option Entry) :=
  (s.locate p).map fun
    | .present loc => s.root.at? loc
    | .absent .. => none

/-- Whether a path holds the character that no system call takes. -/
def hasNul (p : Path) : Bool :=
  p.parts.any fun part => part.toList.contains '\x00'

end EntityAtlas.Store
