import EntityAtlas.Proofs.PlainTexts

/-!
# Words of a name in camel case

A name in camel case is a row of words with nothing between them: a word starts with a capital, or all of it is
capitals, and only the first word may go without. The constant of such a name has the words in upper case with `_`
between them. No word has a `_` of its own, so the constant tells all words of the name but not their case.
-/

namespace EntityAtlas

namespace Text

theorem upper_append (a b : String) : upper (a ++ b) = upper a ++ upper b := by
  simp [upper, String.toList_append]

theorem upper_intercalate (j : String) (ps : List String) :
    upper (j.intercalate ps) = (upper j).intercalate (ps.map upper) := by
  induction ps with
  | nil => rfl
  | cons p ps ih =>
    cases ps with
    | nil => simp
    | cons q ps =>
      rw [String.intercalate_cons_cons, List.map_cons, List.map_cons, String.intercalate_cons_cons, upper_append,
        upper_append, ih, List.map_cons]

end Text

namespace Naming

theorem isLowerOrDigit_of_isSmall {c : Char} (small : isSmall c = true) : isLowerOrDigit c = true := by
  rw [isLowerOrDigit, show ('a' ≤ c && c ≤ 'z') = true from small, Bool.true_or]

theorem not_isLowerOrDigit_of_isCapital {c : Char} (capital : isCapital c = true) : isLowerOrDigit c = false := by
  cases lower : isLowerOrDigit c with
  | false => rfl
  | true =>
    simp only [isCapital, isLowerOrDigit, Bool.and_eq_true, Bool.or_eq_true, decide_eq_true_eq] at capital lower
    rcases lower with small | digit
    · exact absurd (Char.le_trans small.1 capital.2) (by decide)
    · exact absurd (Char.le_trans capital.1 digit.2) (by decide)

theorem not_isSmall_of_isCapital {c : Char} (capital : isCapital c = true) : isSmall c = false := by
  cases small : isSmall c with
  | false => rfl
  | true => exact (isLowerOrDigit_of_isSmall small).symm.trans (not_isLowerOrDigit_of_isCapital capital)

theorem not_isCapital_of_isLowerOrDigit {c : Char} (lower : isLowerOrDigit c = true) : isCapital c = false := by
  cases capital : isCapital c with
  | false => rfl
  | true => exact lower.symm.trans (not_isLowerOrDigit_of_isCapital capital)

theorem isBoundary_eq_false {before c : Char} (other : isCapital c = false) (rest : List Char) :
    isBoundary before (c :: rest) = false := by
  cases rest <;> simp [isBoundary, other]

/-- A capital starts a word when a small letter or digit stands before it. -/
theorem isBoundary_of_lower {before c : Char} (lower : isLowerOrDigit before = true) (capital : isCapital c = true)
    (rest : List Char) : isBoundary before (c :: rest) = true := by
  cases rest <;> simp [isBoundary, lower, capital]

/-- Among capitals none starts a word, if no small letter follows it. -/
theorem isBoundary_of_capitals {before c : Char} (capitals : isCapital before = true ∧ isCapital c = true)
    {rest : List Char} (next : ∀ d ∈ rest.head?, isCapital d = true) : isBoundary before (c :: rest) = false := by
  have lower := not_isLowerOrDigit_of_isCapital capitals.1
  cases rest with
  | nil => simp [isBoundary, lower]
  | cons d rest => simp [isBoundary, lower, not_isSmall_of_isCapital (next d rfl)]

/-- No word ends inside a stretch of a name, which goes on with `rest`. -/
def Unbroken (stretch rest : List Char) : Prop :=
  ∀ front c d back, stretch = front ++ c :: d :: back → isBoundary c (d :: (back ++ rest)) = false

/-- Such a stretch is kept as it is, and a `_` follows it if a word ends there. -/
theorem markWords_append {stretch rest : List Char} (unbroken : Unbroken stretch rest) {last : Char}
    (ends : stretch.getLast? = some last) :
    markWords (stretch ++ rest) =
      stretch ++ if isBoundary last rest then '_' :: markWords rest else markWords rest := by
  induction stretch with
  | nil => cases ends
  | cons c stretch ih =>
    cases stretch with
    | nil =>
      obtain rfl : c = last := Option.some.inj ends
      simp only [List.singleton_append, markWords]
      split <;> rfl
    | cons d stretch =>
      have inside : isBoundary c (d :: (stretch ++ rest)) = false := unbroken [] c d stretch rfl
      have onward : Unbroken (d :: stretch) rest := fun front c' d' back split =>
        unbroken (c :: front) c' d' back (congrArg (c :: ·) split)
      rw [List.cons_append, markWords, List.cons_append, inside, if_neg Bool.false_ne_true, List.cons_append,
        ← List.cons_append, ih onward (by simpa using ends)]

/-- A word of small letters and digits that starts with a letter. -/
def isSmallWord (w : String) : Bool :=
  Text.isWord isSmall isLowerOrDigit w

/-- A capital and a small letter, with small letters and digits after them. -/
def isCapitalized (w : String) : Bool :=
  match w.toList with
  | c :: d :: cs => isCapital c && isSmall d && cs.all isLowerOrDigit
  | _ => false

/-- Two capitals or more. -/
def isAcronym (w : String) : Bool :=
  2 ≤ w.toList.length && w.toList.all isCapital

/-- Words that make a name in camel case. A word without capitals comes first only, and no two acronyms are neighbours:
nothing would tell where one ends. -/
structure IsCamelCase (words : List String) : Prop where
  nonempty : words ≠ []
  first : ∀ w ∈ words.head?, isSmallWord w ∨ isCapitalized w ∨ isAcronym w
  later : ∀ w ∈ words.tail, isCapitalized w ∨ isAcronym w
  apart : words.IsChain fun v w => ¬ (isAcronym v ∧ isAcronym w)

theorem lower_of_isSmallWord {w : String} (is : isSmallWord w = true) :
    w.toList ≠ [] ∧ ∀ c ∈ w.toList, isLowerOrDigit c = true := by
  unfold isSmallWord Text.isWord at is
  cases chars : w.toList with
  | nil => simp [chars] at is
  | cons c cs =>
    simp only [chars, Bool.and_eq_true, List.all_eq_true] at is
    exact ⟨List.cons_ne_nil c cs, List.forall_mem_cons.mpr ⟨isLowerOrDigit_of_isSmall is.1, is.2⟩⟩

theorem exists_of_isCapitalized {w : String} (is : isCapitalized w = true) :
    ∃ c d cs, w.toList = c :: d :: cs ∧ isCapital c = true ∧ isSmall d = true ∧ ∀ e ∈ cs, isLowerOrDigit e = true := by
  unfold isCapitalized at is
  split at is
  · rename_i c d cs chars
    simp only [Bool.and_eq_true, List.all_eq_true] at is
    exact ⟨c, d, cs, chars, is.1.1, is.1.2, is.2⟩
  · cases is

theorem exists_of_isAcronym {w : String} (is : isAcronym w = true) :
    ∃ c d cs, w.toList = c :: d :: cs ∧ ∀ e ∈ c :: d :: cs, isCapital e = true := by
  simp only [isAcronym, Bool.and_eq_true, decide_eq_true_eq, List.all_eq_true] at is
  obtain ⟨long, capitals⟩ := is
  match chars : w.toList with
  | [] => simp [chars] at long
  | [c] => simp [chars] at long
  | c :: d :: cs => exact ⟨c, d, cs, rfl, chars ▸ capitals⟩

/-- A word with small letters: they follow the first character, and one of them or a digit ends the word. -/
structure GoesSmall (w : String) : Prop where
  tail : ∀ c ∈ w.toList.tail, isLowerOrDigit c = true
  last : ∃ c, w.toList.getLast? = some c ∧ isLowerOrDigit c = true

theorem goesSmall_of_isSmallWord {w : String} (is : isSmallWord w = true) : GoesSmall w := by
  obtain ⟨nonempty, lower⟩ := lower_of_isSmallWord is
  exact ⟨fun c mem => lower c (List.mem_of_mem_tail mem), w.toList.getLast nonempty,
    List.getLast?_eq_some_getLast nonempty, lower _ (List.getLast_mem nonempty)⟩

theorem goesSmall_of_isCapitalized {w : String} (is : isCapitalized w = true) : GoesSmall w := by
  obtain ⟨c, d, cs, chars, -, small, others⟩ := exists_of_isCapitalized is
  have tail : ∀ e ∈ d :: cs, isLowerOrDigit e = true :=
    List.forall_mem_cons.mpr ⟨isLowerOrDigit_of_isSmall small, others⟩
  refine ⟨by simpa [chars] using tail, (d :: cs).getLast (List.cons_ne_nil d cs), ?_, tail _ (List.getLast_mem _)⟩
  rw [chars, List.getLast?_cons_cons, List.getLast?_eq_some_getLast]

theorem GoesSmall.unbroken {w : String} (small : GoesSmall w) (rest : List Char) : Unbroken w.toList rest := by
  intro front c d back split
  have inside : d ∈ w.toList.tail := by
    rw [split]
    cases front <;> simp
  exact isBoundary_eq_false (not_isCapital_of_isLowerOrDigit (small.tail d inside)) _

theorem unbroken_of_capitals {cs rest : List Char} (capitals : ∀ c ∈ cs, isCapital c = true)
    (next : ∀ c ∈ rest.head?, isCapital c = true) : Unbroken cs rest := by
  rintro front c d back rfl
  refine isBoundary_of_capitals ⟨capitals c (by simp), capitals d (by simp)⟩ fun e first => ?_
  cases back with
  | nil => exact next e first
  | cons e' back =>
    obtain rfl : e' = e := Option.some.inj first
    exact capitals e' (by simp)

/-- A word that ends a name is kept as it is. -/
theorem markWords_word {w : String} (is : isSmallWord w ∨ isCapitalized w ∨ isAcronym w) :
    markWords w.toList = w.toList := by
  have kept {last : Char} (unbroken : Unbroken w.toList []) (ends : w.toList.getLast? = some last) :
      markWords w.toList = w.toList := by
    simpa [isBoundary, markWords] using markWords_append unbroken ends
  have ofSmall (small : GoesSmall w) : markWords w.toList = w.toList := by
    obtain ⟨last, ends, -⟩ := small.last
    exact kept (small.unbroken []) ends
  rcases is with is | is | is
  · exact ofSmall (goesSmall_of_isSmallWord is)
  · exact ofSmall (goesSmall_of_isCapitalized is)
  · obtain ⟨c, d, cs, chars, capitals⟩ := exists_of_isAcronym is
    exact kept (unbroken_of_capitals (chars ▸ capitals) (by simp))
      (List.getLast?_eq_some_getLast (by simp [chars]))

/-- A word before another one is kept, and a `_` follows it. -/
theorem markWords_word_append {w v : String} (is : isSmallWord w ∨ isCapitalized w ∨ isAcronym w)
    (next : isCapitalized v ∨ isAcronym v) (apart : ¬ (isAcronym w ∧ isAcronym v)) (rest : List Char) :
    markWords (w.toList ++ (v.toList ++ rest)) = w.toList ++ '_' :: markWords (v.toList ++ rest) := by
  obtain ⟨c, d, cs, chars, capital⟩ : ∃ c d cs, v.toList = c :: d :: cs ∧ isCapital c = true := by
    rcases next with next | next
    · obtain ⟨c, d, cs, chars, capital, -⟩ := exists_of_isCapitalized next
      exact ⟨c, d, cs, chars, capital⟩
    · obtain ⟨c, d, cs, chars, capitals⟩ := exists_of_isAcronym next
      exact ⟨c, d, cs, chars, capitals c List.mem_cons_self⟩
  have ofSmall (small : GoesSmall w) :
      markWords (w.toList ++ (v.toList ++ rest)) = w.toList ++ '_' :: markWords (v.toList ++ rest) := by
    obtain ⟨last, ends, lower⟩ := small.last
    rw [markWords_append (small.unbroken _) ends, chars, List.cons_append, isBoundary_of_lower lower capital,
      if_pos rfl]
  rcases is with is | is | is
  · exact ofSmall (goesSmall_of_isSmallWord is)
  · exact ofSmall (goesSmall_of_isCapitalized is)
  · -- the word after an acronym has a small letter, which tells that its capital is no part of the acronym
    have word := next.resolve_right fun next => apart ⟨is, next⟩
    obtain ⟨c', d', cs', chars', -, small, -⟩ := exists_of_isCapitalized word
    obtain ⟨rfl, rfl, rfl⟩ : c = c' ∧ d = d' ∧ cs = cs' := by simpa [chars] using chars'
    obtain ⟨a, b, as, letters, capitals⟩ := exists_of_isAcronym is
    rw [← letters] at capitals
    have nonempty : w.toList ≠ [] := by simp [letters]
    have ends : isCapital (w.toList.getLast nonempty) = true := capitals _ (List.getLast_mem nonempty)
    rw [markWords_append (unbroken_of_capitals capitals (by simpa [chars] using capital))
      (List.getLast?_eq_some_getLast nonempty), chars]
    simp [isBoundary, capital, ends, small]

/-- The words of a name in camel case are marked. -/
theorem markWords_join {w : String} {ws : List String} (first : isSmallWord w ∨ isCapitalized w ∨ isAcronym w)
    (later : ∀ v ∈ ws, isCapitalized v ∨ isAcronym v)
    (apart : (w :: ws).IsChain fun v w => ¬ (isAcronym v ∧ isAcronym w)) :
    markWords (String.join (w :: ws)).toList = ("_".intercalate (w :: ws)).toList := by
  induction ws generalizing w with
  | nil => simpa using markWords_word first
  | cons v ws ih =>
    obtain ⟨next, later⟩ := List.forall_mem_cons.mp later
    obtain ⟨here, apart⟩ := List.isChain_cons_cons.mp apart
    have onward := ih (.inr next) later apart
    simp only [String.toList_join, List.flatMap_cons] at onward ⊢
    rw [markWords_word_append first next here, onward, String.intercalate_cons_cons]
    simp

/-- A word is made of letters and digits of ASCII, so its upper case has no `_`. -/
theorem not_mem_upper_of_isWord {w : String} (is : isSmallWord w ∨ isCapitalized w ∨ isAcronym w) :
    '_' ∉ (Text.upper w).toList := by
  have made : ∀ c ∈ w.toList, isLowerOrDigit c = true ∨ isCapital c = true := by
    rcases is with is | is | is
    · exact fun c mem => .inl ((lower_of_isSmallWord is).2 c mem)
    · obtain ⟨c, d, cs, chars, capital, small, others⟩ := exists_of_isCapitalized is
      simpa [chars, capital, isLowerOrDigit_of_isSmall small] using fun e mem => .inl (others e mem)
    · obtain ⟨c, d, cs, chars, capitals⟩ := exists_of_isAcronym is
      exact fun e mem => .inr (capitals e (chars ▸ mem))
  rw [Text.upper, String.toList_ofList]
  intro mem
  obtain ⟨c, there, image⟩ := List.mem_flatMap.mp mem
  rw [← Text.eq_of_mem_upperChar (by decide) image] at there
  exact absurd (made '_' there) (by decide)

theorem IsCamelCase.isWord {words : List String} (camel : IsCamelCase words) :
    ∀ w ∈ words, isSmallWord w ∨ isCapitalized w ∨ isAcronym w := by
  cases words with
  | nil => exact absurd rfl camel.nonempty
  | cons w ws => exact List.forall_mem_cons.mpr ⟨camel.first w rfl, fun v mem => .inr (camel.later v mem)⟩

/-- The constant of a name in camel case has its words in upper case, with `_` between them. So names have one constant
just where their words are the same but for case. -/
theorem constant_of_isCamelCase {words : List String} (camel : IsCamelCase words) :
    constant (String.join words) = "_".intercalate (words.map Text.upper) ∧
      ∀ words', IsCamelCase words' →
        (constant (String.join words') = constant (String.join words) ↔
          words'.map Text.upper = words.map Text.upper) := by
  have formula {words : List String} (camel : IsCamelCase words) :
      constant (String.join words) = "_".intercalate (words.map Text.upper) := by
    match words, camel with
    | w :: ws, camel =>
      have marked : markWords (String.join (w :: ws)).toList = ("_".intercalate (w :: ws)).toList :=
        markWords_join (camel.first w rfl) camel.later camel.apart
      rw [constant, marked, String.ofList_toList, Text.upper_intercalate]
      rfl
  have cut {words : List String} (camel : IsCamelCase words) :
      Text.pieces '_' ("_".intercalate (words.map Text.upper)) = words.map Text.upper :=
    Text.pieces_intercalate rfl (by simpa using camel.nonempty)
      (by simpa using fun w mem => not_mem_upper_of_isWord (camel.isWord w mem))
  refine ⟨formula camel, fun words' camel' => ⟨fun same => ?_, fun same => ?_⟩⟩
  · rw [formula camel', formula camel] at same
    rw [← cut camel', same, cut camel]
  · rw [formula camel', formula camel, same]

theorem constant_of_isCamelCase_acronyms :
    IsCamelCase ["level1", "URL", "Value"] ∧ IsCamelCase ["Level1", "Url", "VALUE"] ∧
      constant "level1URLValue" = "LEVEL1_URL_VALUE" ∧ constant "Level1UrlVALUE" = constant "level1URLValue" := by
  have camel : IsCamelCase ["level1", "URL", "Value"] :=
    ⟨by decide, by simpa using by decide, by simpa using by decide, by simpa using by decide⟩
  have camel' : IsCamelCase ["Level1", "Url", "VALUE"] :=
    ⟨by decide, by simpa using by decide, by simpa using by decide, by simpa using by decide⟩
  obtain ⟨constant, same⟩ := constant_of_isCamelCase camel
  exact ⟨camel, camel', constant, (same _ camel').mpr (by decide +kernel)⟩

end Naming

end EntityAtlas
