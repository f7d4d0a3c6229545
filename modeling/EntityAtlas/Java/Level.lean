import EntityAtlas.Json

/-!
# Language levels

The level decides which reader a source is given to and whether records count as declarations.
-/

namespace EntityAtlas.Java

/-- The language levels, in ascending order. -/
inductive Level where
  | java8
  | java11
  | java17
  | java21
  deriving DecidableEq, Repr

namespace Level

/-- All levels, in ascending order. -/
def all : List Level := [.java8, .java11, .java17, .java21]

def version : Level → Nat
  | .java8 => 8
  | .java11 => 11
  | .java17 => 17
  | .java21 => 21

/-- The name by which a level is chosen. -/
def name (l : Level) : String :=
  "JAVA_" ++ toString l.version

/-- Records belong to the language from version 16 on. -/
def supportsRecords (l : Level) : Bool :=
  16 ≤ l.version

/-- The level that is taken when none is chosen. -/
def standard : Level := .java17

def ofName? (s : String) : Option Level :=
  all.find? (·.name == s)

/-- The names of all levels, each in quotes, the last after `or`. -/
def choices : String :=
  "'JAVA_8', 'JAVA_11', 'JAVA_17' or 'JAVA_21'"

/-- The message about a value that is the name of no level. -/
def refusal (value : Json) : String :=
  "Invalid Java language level '" ++ value.shown ++ "', available levels: " ++ ", ".intercalate (all.map name)

/-- The level that a value names. -/
def ofJson (value : Json) : Except String Level :=
  match value.text?.bind ofName? with
  | some l => .ok l
  | none => .error (refusal value)

/-- The two readers of sources. -/
inductive Reader where
  | strict
  | lenient (records : Bool)
  deriving DecidableEq, Repr

/-- The reader of a level: the lowest one is read strictly, the others leniently. -/
def reader (l : Level) : Reader :=
  if l = .java8 then .strict else .lenient l.supportsRecords

end Level

end EntityAtlas.Java
