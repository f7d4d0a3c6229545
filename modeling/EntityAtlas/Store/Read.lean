import EntityAtlas.Store.Resolve
import EntityAtlas.Text.Utf8

/-!
# Reading files
-/

namespace EntityAtlas.Store

/-- Why a file cannot be read as text. -/
inductive ReadFailure where
  | fault (fault : Fault)
  | malformed (bytes : Text.Utf8.Malformed)
  deriving DecidableEq, Repr

def ReadFailure.message : ReadFailure → String
  | .fault f => f.message
  | .malformed m => m.message

/-- The bytes of the file that a path denotes. -/
def readBytes (s : Store) (p : Path) : Except Fault (List UInt8) :=
  if hasNul p then .error .nulInPath
  else match s.entry? p with
    | .error b => .error (b.fault p.text)
    | .ok none => .error (.missing p.text)
    | .ok (some (.file content)) => .ok content
    | .ok (some _) => .error (.isADirectory p.text)

/-- The text of the file that a path denotes, with line ends made alike. -/
def readText (s : Store) (p : Path) : Except ReadFailure (List Char) :=
  match s.readBytes p with
  | .error f => .error (.fault f)
  | .ok bytes =>
    match Text.Utf8.decode bytes with
    | .error m => .error (.malformed m)
    | .ok cs => .ok (Text.Utf8.unifyLineEnds cs)

/-- Whether a path denotes a directory. Only a name of excessive length makes the question fail. -/
def isDirectory (s : Store) (p : Path) : Except Fault Bool :=
  if hasNul p then .ok false
  else match s.entry? p with
    | .error .nameTooLong => .error (.nameTooLong p.text)
    | .error _ => .ok false
    | .ok e => .ok (e.any Entry.isDir)

/-- Whether a path denotes a regular file. A path that leads to nothing denotes none; other obstacles are faults, which
quote `shown`. -/
def isRegularFile (s : Store) (p : Path) (shown : String) : Except Fault Bool :=
  match s.entry? p with
  | .error .missing => .ok false
  | .error b => .error (b.fault shown)
  | .ok e => .ok (e.any Entry.isFile)

end EntityAtlas.Store
