import EntityAtlas.Store.Read

/-!
# Making directories and writing files

A directory is made or refused. Writing a file may also fail half way, when the medium of the machine refuses it.
-/

namespace EntityAtlas.Store

/-- Make one directory. The directory that holds it must be there, and its name must be free. -/
def makeOne (s : Store) (p : Path) : Except Fault Store :=
  if hasNul p then .error .nulInPath
  else match p.parts.getLast? with
    | none => .error (.alreadyThere p.text)
    | some name =>
      match s.locate p.parent with
      | .error b => .error (b.fault p.text)
      | .ok (.absent ..) => .error (.missing p.text)
      | .ok (.present dir) =>
        match s.root.at? dir with
        | some (.dir _) =>
          if name == ".." then .error (.alreadyThere p.text)
          else if maxName < name.utf8ByteSize then .error (.nameTooLong p.text)
          else if (s.root.at? (dir ++ [name])).isSome then .error (.alreadyThere p.text)
          else .ok { s with root := Entry.insertAt (.dir []) (dir ++ [name]) s.root }
        | _ => .error (.notADirectory p.text)

/-- What a refusal to make a directory comes to: nothing, when the directory is there. -/
def excuse (s : Store) (p : Path) (refusal : Fault) : Except Fault Unit :=
  if refusal == .nulInPath then .error refusal
  else match s.isDirectory p with
    | .error f => .error f
    | .ok true => .ok ()
    | .ok false => .error refusal

/-- Make a directory whose parent is expected to be there; one that is there is left as it is. -/
def makeLast (s : Store) (p : Path) : Except Fault Unit × Store :=
  match s.makeOne p with
  | .ok s' => (.ok (), s')
  | .error (.missing path) => (.error (.missing path), s)
  | .error f => (s.excuse p f, s)

/-- Make a directory and all that hold it, `fuel` of them at most. The store that remains after a failure holds the
directories made so far. -/
def makeAll : Nat → Store → Path → Except Fault Unit × Store
  | 0, s, p => s.makeLast p
  | fuel + 1, s, p =>
    match s.makeLast p with
    | (.error (.missing path), s) =>
      if p.parent == p then (.error (.missing path), s)
      else match makeAll fuel s p.parent with
        | (.error f, s') => (.error f, s')
        | (.ok (), s') => s'.makeLast p
    | outcome => outcome

/-- Make a directory and all that hold it. -/
def makeDirectories (s : Store) (p : Path) : Except Fault Unit × Store :=
  makeAll (p.parts.length + 1) s p

/-- The store in which a place holds a file with the given content. -/
def withFile (s : Store) (loc : List String) (content : List UInt8) : Store :=
  { s with root := Entry.insertAt (.file content) loc s.root }

/-- Put a content into the file at a place, as far as the medium takes it. A file is emptied or made when it is opened,
and a refusal after that leaves it with the first bytes of the content. -/
def fill (s : Store) (p : Path) (loc : List String) (content : List UInt8) : Except Fault Unit × Store :=
  match s.machine.refusal? loc content with
  | none => (.ok (), s.withFile loc content)
  | some ⟨none, number, reason⟩ => (.error (.refused number reason (some p.text)), s)
  | some ⟨some n, number, reason⟩ => (.error (.refused number reason none), s.withFile loc (content.take n))

/-- Write a file, in the place of the one that is there. -/
def writeFile (s : Store) (p : Path) (content : List UInt8) : Except Fault Unit × Store :=
  if hasNul p then (.error .nulInPath, s)
  else match s.locate p with
    | .error b => (.error (b.fault p.text), s)
    | .ok (.absent dir name) => s.fill p (dir ++ [name]) content
    | .ok (.present loc) =>
      match s.root.at? loc with
      | some (.file _) => s.fill p loc content
      | _ => (.error (.isADirectory p.text), s)

/-- Make the directories that hold a file and write it. -/
def save (s : Store) (p : Path) (content : List UInt8) : Except Fault Unit × Store :=
  match s.makeDirectories p.parent with
  | (.error f, s') => (.error f, s')
  | (.ok (), s') => s'.writeFile p content

/-- Put an entry at a path of the working directory, with the directories that hold it. -/
def place (s : Store) (p : Path) (new : Entry) : Store :=
  { s with root := Entry.insertAt new (s.start p ++ p.parts) s.root }

/-- Take away the file, link or directory at a path. -/
def remove (s : Store) (p : Path) : Except Fault Store :=
  let loc := s.start p ++ p.parts
  if (s.root.at? loc).isSome then .ok { s with root := Entry.eraseAt loc s.root } else .error (.missing p.text)

end EntityAtlas.Store
