import EntityAtlas.Store.Basic

/-!
# Changes of a store

What an operation has done is seen from the store before it and the one after it: the directories and files that are
new, and the files whose content is new.
-/

namespace EntityAtlas

/-- A directory or a file, by its place below the root. -/
inductive Change where
  | directory (loc : List String)
  | file (loc : List String) (content : List UInt8)
  deriving DecidableEq, Repr

namespace Entry

mutual

/-- The directories and files at or below the entry at `loc`; links are left out. -/
def contents (loc : List String) : Entry → List Change
  | .file content => [.file loc content]
  | .link _ => []
  | .dir entries => .directory loc :: contentsOfEach loc entries

/-- The directories and files at or below the entries of the directory at `loc`. -/
def contentsOfEach (loc : List String) : List (String × Entry) → List Change
  | [] => []
  | (name, e) :: rest => contents (loc ++ [name]) e ++ contentsOfEach loc rest

end

/-- The bytes of a file; other entries have none. -/
def content? : Entry → Option (List UInt8)
  | .file content => some content
  | _ => none

end Entry

namespace Store

/-- Whether a directory or file is in a store already. -/
def holds (s : Store) : Change → Bool
  | .directory loc => (s.root.at? loc).any Entry.isDir
  | .file loc content => (s.root.at? loc).bind Entry.content? == some content

/-- The directories and files of `after` that are not in `before`. -/
def changes (before after : Store) : List Change :=
  (after.root.contents []).filter fun c => !before.holds c

end Store

end EntityAtlas
