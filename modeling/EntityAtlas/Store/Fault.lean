import EntityAtlas.Text.Quoted

/-!
# Faults of the file store

Why an operation on files fails. Each fault quotes the path that the operation was asked for, but for one that a medium
raises while a file is written.
-/

namespace EntityAtlas

/-- The reason why the store refuses an operation. -/
inductive Fault where
  | missing (path : String)
  | alreadyThere (path : String)
  | notADirectory (path : String)
  | isADirectory (path : String)
  | nameTooLong (path : String)
  | tooManyLinks (path : String)
  | noSourceDirectory (path : String)
  | nulInPath
  | refused (number : Nat) (reason : String) (path : Option String)
  deriving DecidableEq, Repr

namespace Fault

/-- The wording of a fault that the system numbers, without a path. -/
def unplaced (number : Nat) (what : String) : String :=
  "[Errno " ++ toString number ++ "] " ++ what

/-- The wording of a fault that the system numbers. -/
def numbered (number : Nat) (what path : String) : String :=
  unplaced number what ++ ": " ++ Text.quoted path

/-- The wording of a fault. -/
def message : Fault → String
  | .missing path => numbered 2 "No such file or directory" path
  | .alreadyThere path => numbered 17 "File exists" path
  | .notADirectory path => numbered 20 "Not a directory" path
  | .isADirectory path => numbered 21 "Is a directory" path
  | .nameTooLong path => numbered 36 "File name too long" path
  | .tooManyLinks path => numbered 40 "Too many levels of symbolic links" path
  | .noSourceDirectory path => "Source directory does not exist: '" ++ path ++ "'"
  | .nulInPath => "embedded null byte"
  | .refused number reason (some path) => numbered number reason path
  | .refused number reason none => unplaced number reason

end Fault

end EntityAtlas
