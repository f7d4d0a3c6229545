import EntityAtlas.Proofs.Constants
import EntityAtlas.Proofs.Listing
import EntityAtlas.Proofs.StatedNames
import EntityAtlas.Text.Identifier

/-!
# Plain texts

The end of a line, the quotation mark and the braces give a generated file its shape. Identifiers have none of these
characters, so they do not disturb the shape where they stand in a file; neither do the constants made of identifiers,
since upper-case letters are none of these characters.
-/

namespace EntityAtlas.Text

/-- None of some characters is in the text. -/
def Lacks (marks : List Char) (s : String) : Prop :=
  ∀ c ∈ marks, c ∉ s.toList

instance (marks : List Char) : DecidablePred (Lacks marks) := fun s =>
  List.decidableBAll (fun c => c ∉ s.toList) marks

/-- The characters that start and end a group. -/
def braces : List Char := ['\x7b', '\x7d']

/-- The characters that shape a generated file. -/
def shaping : List Char := ['\n', '\x22', '\x7b', '\x7d']

theorem lineEnd_subset : ['\n'] ⊆ shaping := by simp [shaping]

theorem braces_subset : braces ⊆ shaping := by simp [braces, shaping]

/-- A text that can stand in a generated file and leave its shape alone. -/
def IsPlain (s : String) : Prop := Lacks shaping s

instance : DecidablePred IsPlain := inferInstanceAs (DecidablePred (Lacks shaping))

variable {marks : List Char} {s : String}

@[simp] theorem lacks_append {a b : String} : Lacks marks (a ++ b) ↔ Lacks marks a ∧ Lacks marks b := by
  simp only [Lacks, String.toList_append, List.mem_append, not_or]
  exact forall₂_and

theorem Lacks.mono {more : List Char} (lacks : Lacks more s) (fewer : marks ⊆ more) : Lacks marks s :=
  fun c mem => lacks c (fewer mem)

theorem lacks_intercalate {j : String} (joint : Lacks marks j) {ps : List String} (each : ∀ p ∈ ps, Lacks marks p) :
    Lacks marks (j.intercalate ps) := by
  induction ps with
  | nil => simp [Lacks]
  | cons p ps ih =>
    obtain ⟨first, others⟩ := List.forall_mem_cons.mp each
    cases ps with
    | nil => simpa using first
    | cons q ps =>
      rw [String.intercalate_cons_cons]
      simp [first, joint, ih others]

namespace IsPlain

theorem lineless (plain : IsPlain s) : Lacks ['\n'] s := Lacks.mono plain lineEnd_subset

theorem braceless (plain : IsPlain s) : Lacks braces s := Lacks.mono plain braces_subset

theorem quoteless (plain : IsPlain s) : '\x22' ∉ s.toList := plain '\x22' (by decide)

end IsPlain

/-- A word by a rule for the first character and another one for those after it. -/
def isWord (start part : Char → Bool) (s : String) : Bool :=
  match s.toList with
  | [] => false
  | c :: cs => start c && cs.all part

/-- An identifier, by the strict rule or by the lenient one. -/
def IsIdentifier (s : String) : Prop :=
  isWord Identifier.strictStart Identifier.strictPart s = true ∨
    isWord Identifier.lenientStart Identifier.lenientPart s = true

instance : DecidablePred IsIdentifier := fun _ => inferInstanceAs (Decidable (_ ∨ _))

/-- Identifiers with dots between them. -/
def IsDotted (s : String) : Prop :=
  ∀ p ∈ pieces '.' s, IsIdentifier p

instance : DecidablePred IsDotted := fun s => List.decidableBAll IsIdentifier (pieces '.' s)

/-- A word lacks the characters that its rules do not allow. -/
theorem lacks_of_isWord {start part : Char → Bool} (starts : marks.filter start = []) (parts : marks.filter part = [])
    (word : isWord start part s = true) : Lacks marks s := by
  intro c among mem
  rw [List.filter_eq_nil_iff] at starts parts
  unfold isWord at word
  cases cs : s.toList with
  | nil => simp [cs] at mem
  | cons first others =>
    simp only [cs, Bool.and_eq_true, List.all_eq_true] at word
    rcases List.mem_cons.mp (cs ▸ mem) with rfl | mem
    · exact starts c among word.1
    · exact parts c among (word.2 c mem)

theorem IsIdentifier.isPlain (is : IsIdentifier s) : IsPlain s := by
  rcases is with word | word
  · exact lacks_of_isWord rfl rfl word
  · exact lacks_of_isWord rfl rfl word

theorem IsDotted.isPlain (is : IsDotted s) : IsPlain s := by
  rw [← intercalate_pieces (show ".".toList = ['.'] from rfl) s]
  exact lacks_intercalate (by decide) fun p mem => (is p mem).isPlain

theorem IsDotted.ne_empty (is : IsDotted s) : s ≠ "" := by
  rintro rfl
  exact absurd is (by decide)

/-- The characters that shape a generated file, and the `_` between the words of a constant. None of them is a letter.
-/
def caseless : List Char := '_' :: shaping

/-- What a code point stands for is one of these only if the code point is that of the character. -/
theorem ofNat_not_mem_caseless {n : Nat} (apart : n ∉ caseless.map Char.toNat) : Char.ofNat n ∉ caseless := by
  intro mem
  by_cases valid : n.isValidChar
  · have code : (Char.ofNat n).toNat = n := by
      rw [Char.ofNat, dif_pos valid]
      rfl
    exact apart (List.mem_map.mpr ⟨_, mem, code⟩)
  · rw [Char.ofNat, dif_neg valid] at mem
    exact absurd mem (by decide)

/-- The stretches of upper-case letters beyond ASCII keep clear of them. -/
theorem Upper.apart_of_mem_runs : ∀ r ∈ Upper.runs, ∀ code ∈ caseless.map Char.toNat,
    code < r.image ∨ r.image + (r.last - r.first) < code := by
  decide +kernel

theorem Upper.apart_of_mem_expansions : ∀ e ∈ Upper.expansions, ∀ n ∈ e.2, n ∉ caseless.map Char.toNat := by
  decide +kernel

theorem eq_of_toUpper_mem_caseless : ∀ n < 128, (Char.ofNat n).toUpper ∈ caseless →
    (Char.ofNat n).toUpper = Char.ofNat n := by
  decide +kernel

/-- The upper case of a character has one of these characters only if it is that character. -/
theorem eq_of_mem_upperChar {c d : Char} (among : d ∈ caseless) (mem : d ∈ upperChar c) : d = c := by
  unfold upperChar at mem
  split at mem
  · rename_i ascii
    obtain rfl := List.mem_singleton.mp mem
    simpa using eq_of_toUpper_mem_caseless c.toNat ascii (by simpa using among)
  · split at mem
    · rename_i image found
      obtain ⟨n, there, rfl⟩ := List.mem_map.mp mem
      exact absurd among (ofNat_not_mem_caseless (Upper.apart_of_mem_expansions _ (mem_of_lookup found) n there))
    · obtain rfl := List.mem_singleton.mp mem
      split at among
      · rename_i image found
        obtain ⟨r, run, inside⟩ := List.exists_of_findSome?_eq_some found
        refine absurd among (ofNat_not_mem_caseless fun shapes => ?_)
        have apart := Upper.apart_of_mem_runs r run _ shapes
        simp only [Upper.Run.image?, Option.ite_none_right_eq_some, Bool.and_eq_true, decide_eq_true_eq,
          Option.some.injEq] at inside
        omega
      · rfl

theorem isPlain_upper (plain : IsPlain s) : IsPlain (upper s) := by
  intro d among mem
  rw [upper, String.toList_ofList] at mem
  obtain ⟨c, there, made⟩ := List.mem_flatMap.mp mem
  exact plain d among (eq_of_mem_upperChar (List.mem_cons_of_mem _ among) made ▸ there)

end EntityAtlas.Text

namespace EntityAtlas

namespace Naming

/-- Words are marked by `_` and nothing else is added. -/
theorem mem_of_mem_markWords {d : Char} {cs : List Char} (mem : d ∈ markWords cs) : d = '_' ∨ d ∈ cs := by
  induction cs with
  | nil => exact .inr mem
  | cons c rest ih =>
    simp only [markWords] at mem
    split at mem <;> simp only [List.mem_cons] at mem ⊢ <;> tauto

/-- The constant of a plain name is plain. -/
theorem isPlain_constant {field : String} (plain : Text.IsPlain field) : Text.IsPlain (constant field) := by
  refine Text.isPlain_upper fun d among mem => ?_
  rw [String.toList_ofList] at mem
  rcases mem_of_mem_markWords mem with rfl | there
  · exact absurd among (by decide)
  · exact plain d among there

end Naming

/-- A name from the outermost declaration on is plain if the names in it are. -/
theorem Decl.isPlain_nestedName {d : Decl} (plain : ∀ name ∈ d.path, Text.IsPlain name) : Text.IsPlain d.nestedName :=
  Text.lacks_intercalate (by decide) plain

end EntityAtlas
