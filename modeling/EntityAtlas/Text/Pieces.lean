/-!
# Pieces of a text

A text cut at a separator, and pieces joined by one.
-/

namespace EntityAtlas.Text

/-- The pieces of a list between the elements of a class, empty ones included; there is at least one. -/
def cut (sep : Char → Bool) : List Char → List (List Char)
  | [] => [[]]
  | c :: rest =>
    if sep c then [] :: cut sep rest
    else match cut sep rest with
      | [] => [[c]]
      | piece :: pieces => (c :: piece) :: pieces

/-- The pieces of a text between the occurrences of a character. -/
def pieces (sep : Char) (s : String) : List String :=
  (cut (· == sep) s.toList).map String.ofList

/-- Whether `s` ends with `tail`. -/
def endsWith (s tail : String) : Bool :=
  s.toList.reverse.take tail.toList.length == tail.toList.reverse

/-- Whether `s` starts with `head`. -/
def startsWith (s head : String) : Bool :=
  s.toList.take head.toList.length == head.toList

theorem cut_ne_nil (sep : Char → Bool) (cs : List Char) : cut sep cs ≠ [] := by
  cases cs with
  | nil => simp [cut]
  | cons c rest => simp only [cut]; split <;> (try split) <;> simp

/-- The piece after the last separator. -/
def lastPiece (sep : Char) (s : String) : String :=
  (pieces sep s).getLast?.getD ""

/-- The piece before the first separator. -/
def firstPiece (sep : Char) (s : String) : String :=
  (pieces sep s).head?.getD ""

/-- A text that can be one segment of a dotted name and the name of a file: it is not empty and holds neither a dot nor
a slash. -/
structure IsSegment (s : String) : Prop where
  nonempty : s ≠ ""
  dotless : '.' ∉ s.toList
  slashless : '/' ∉ s.toList

theorem isSegment_ofList_cons {c : Char} {cs : List Char} (first : c ≠ '.' ∧ c ≠ '/')
    (others : '.' ∉ cs ∧ '/' ∉ cs) : IsSegment (.ofList (c :: cs)) where
  nonempty empty := by simpa using congrArg String.toList empty
  dotless := by
    rw [String.toList_ofList, List.mem_cons, not_or]
    exact ⟨first.1.symm, others.1⟩
  slashless := by
    rw [String.toList_ofList, List.mem_cons, not_or]
    exact ⟨first.2.symm, others.2⟩

/-- A word, whose characters go by a rule for the first one and another for those after it, is a segment if the rules
allow neither dots nor slashes. -/
theorem isSegment_word {start part : Char → Bool} (starts : start '.' = false ∧ start '/' = false)
    (parts : part '.' = false ∧ part '/' = false) {c : Char} (is : start c = true) (cs : List Char) :
    IsSegment (.ofList (c :: cs.takeWhile part)) := by
  have other (d : Char) (never : part d = false) : d ∉ cs.takeWhile part := fun mem => by
    have always := List.all_eq_true.mp (List.all_takeWhile (p := part) (l := cs)) d mem
    exact absurd (always.symm.trans never) (by decide)
  refine isSegment_ofList_cons ⟨?_, ?_⟩ ⟨other _ parts.1, other _ parts.2⟩
  · rintro rfl
    exact absurd (is.symm.trans starts.1) (by decide)
  · rintro rfl
    exact absurd (is.symm.trans starts.2) (by decide)

end EntityAtlas.Text
