import EntityAtlas.Nesting
import EntityAtlas.Proofs.Confinement
import Mathlib.Data.List.DropRight
import Mathlib.Logic.Relation

/-!
# Ways to write a package

A package is written with dots, slashes or backslashes between its segments, in any number and at the ends too. Texts
that differ in such separators only have the same segments, and the other way round; a package's directory goes down
from the source directory by the segments, whatever the text is.

The dotted form is one of the ways to write what is left of a text without the blanks at its ends. Where separators
stand before the blanks, or after them, the blanks are left at the ends of the dotted form; then the dotted form has
another dotted form and another directory.
-/

namespace EntityAtlas

namespace Text

theorem cut_congr {sep sep' : Char → Bool} {cs : List Char} (same : ∀ c ∈ cs, sep c = sep' c) :
    cut sep cs = cut sep' cs := by
  induction cs with
  | nil => rfl
  | cons c cs ih =>
    obtain ⟨here, later⟩ := List.forall_mem_cons.mp same
    rw [cut, cut, ih later, here]

/-! ## Both ends of a text -/

/-- What is left of a text has only dropped characters before and after it. -/
theorem exists_trim (drop : Char → Bool) (cs : List Char) :
    ∃ before after, cs = before ++ trim drop cs ++ after ∧ (∀ c ∈ before, drop c = true) ∧
      ∀ c ∈ after, drop c = true := by
  let rest := cs.dropWhile drop
  have all (l : List Char) : ∀ c ∈ l.takeWhile drop, drop c = true := List.all_eq_true.mp List.all_takeWhile
  refine ⟨cs.takeWhile drop, (rest.reverse.takeWhile drop).reverse, ?_, all cs, by simpa using all rest.reverse⟩
  have back : trim drop cs ++ (rest.reverse.takeWhile drop).reverse = rest := by
    rw [trim, ← List.reverse_append, List.takeWhile_append_dropWhile, List.reverse_reverse]
  rw [List.append_assoc, back, List.takeWhile_append_dropWhile]

theorem trim_sublist (drop : Char → Bool) (cs : List Char) : (trim drop cs).Sublist cs := by
  have back := (List.dropWhile_sublist drop (l := (cs.dropWhile drop).reverse)).reverse
  rw [List.reverse_reverse] at back
  exact back.trans (List.dropWhile_sublist drop)

/-- No character of a class stands at an end of the text. -/
def IsTrimmed (drop : Char → Bool) (cs : List Char) : Prop :=
  (∀ c ∈ cs.head?, drop c = false) ∧ ∀ c ∈ cs.getLast?, drop c = false

theorem dropWhile_eq_self_iff_head {drop : Char → Bool} {cs : List Char} :
    cs.dropWhile drop = cs ↔ ∀ c ∈ cs.head?, drop c = false := by
  cases cs <;> simp [List.dropWhile_eq_self_iff]

theorem trim_eq_self_iff {drop : Char → Bool} {cs : List Char} : trim drop cs = cs ↔ IsTrimmed drop cs := by
  rw [IsTrimmed, ← dropWhile_eq_self_iff_head, ← List.head?_reverse, ← dropWhile_eq_self_iff_head]
  constructor
  · intro same
    have front : cs.dropWhile drop = cs := by
      refine (List.dropWhile_sublist drop).eq_of_length_le ?_
      calc cs.length = (trim drop cs).length := by rw [same]
        _ ≤ (cs.dropWhile drop).length := by
          simpa [trim] using (List.dropWhile_sublist drop (l := (cs.dropWhile drop).reverse)).length_le
    rw [trim, front] at same
    exact ⟨front, by simpa using congrArg List.reverse same⟩
  · rintro ⟨front, back⟩
    rw [trim, front, back, List.reverse_reverse]

instance (drop : Char → Bool) : DecidablePred (IsTrimmed drop) := fun _ => decidable_of_iff _ trim_eq_self_iff

theorem isTrimmed_trim (drop : Char → Bool) (cs : List Char) : IsTrimmed drop (trim drop cs) := by
  have kept (l : List Char) : ∀ c ∈ (l.dropWhile drop).head?, drop c = false :=
    dropWhile_eq_self_iff_head.mp (List.dropWhile_idempotent drop l)
  constructor
  · obtain ⟨after, back⟩ := List.dropWhile_suffix drop (l := (cs.dropWhile drop).reverse)
    have whole : trim drop cs ++ after.reverse = cs.dropWhile drop := by
      rw [trim, ← List.reverse_append, back, List.reverse_reverse]
    intro c first
    refine kept cs c ?_
    rw [← whole, List.head?_append, Option.mem_def.mp first]
    rfl
  · rw [trim, List.getLast?_reverse]
    exact kept _

end Text

namespace Path

/-- A path goes down by names that hold neither dots nor slashes. -/
theorem joinAll_eq {p : Path} {texts : List String} (plain : ∀ text ∈ texts, '.' ∉ text.toList ∧ '/' ∉ text.toList) :
    p.joinAll texts = p.below (texts.filter (· ≠ "")) := by
  induction texts generalizing p with
  | nil => exact (below_nil p).symm
  | cons text texts ih =>
    obtain ⟨⟨dotless, slashless⟩, plain⟩ := List.forall_mem_cons.mp plain
    have parts : (ofString text).parts = [text].filter (· ≠ "") := by
      have other : text ≠ "." := by
        rintro rfl
        exact dotless List.mem_cons_self
      rw [parts_ofString, Text.pieces_of_not_mem slashless]
      refine List.filter_congr fun t mem => ?_
      obtain rfl := List.mem_singleton.mp mem
      by_cases empty : t = "" <;> simp [isProper, empty, other]
    calc p.joinAll (text :: texts) = (p.join text).joinAll texts := rfl
      _ = (p.below ([text].filter (· ≠ ""))).below (texts.filter (· ≠ "")) := by
        rw [ih plain, join_eq (Text.startsWith_slash_eq_false slashless), parts]
      _ = p.below ((text :: texts).filter (· ≠ "")) := by
        rw [← below_append, ← List.filter_append, List.singleton_append]

end Path

namespace Package

/-! ## Segments -/

/-- The characters that may stand between segments. -/
def isSeparator (c : Char) : Bool :=
  c == '.' || c == '/' || c == '\\'

/-- What stands between separators, where anything does. -/
def stretches (cs : List Char) : List (List Char) :=
  (Text.cut isSeparator cs).filter (· ≠ [])

/-- The segments of a package that is written in any way. Blanks at the ends do not count. -/
def segments (package : String) : List String :=
  (stretches (Text.strip package).toList).map String.ofList

theorem stretches_append_cons {a : Char} (sep : isSeparator a = true) (front back : List Char) :
    stretches (front ++ a :: back) = stretches front ++ stretches back := by
  simp only [stretches, Text.cut_eq_splitOnP, List.splitOnP_append_cons front back sep, List.filter_append]

theorem stretches_cons {a : Char} (sep : isSeparator a = true) (cs : List Char) :
    stretches (a :: cs) = stretches cs :=
  stretches_append_cons sep [] cs

theorem stretches_of_free {cs : List Char} (nonempty : cs ≠ []) (free : ∀ c ∈ cs, isSeparator c = false) :
    stretches cs = [cs] := by
  simp [stretches, Text.cut_eq_splitOnP, List.splitOnP_eq_singleton free, nonempty]

theorem not_isSeparator_of_mem_stretches {cs stretch : List Char} (mem : stretch ∈ stretches cs) :
    stretch ≠ [] ∧ ∀ c ∈ stretch, isSeparator c = false := by
  obtain ⟨piece, nonempty⟩ := List.mem_filter.mp mem
  rw [Text.cut_eq_splitOnP] at piece
  exact ⟨by simpa using nonempty, Text.eq_false_of_mem_splitOnP _ _ _ piece⟩

/-- A segment has characters, and none of them is a separator. -/
theorem not_isSeparator_of_mem_segments {package name : String} (mem : name ∈ segments package) :
    name ≠ "" ∧ ∀ c ∈ name.toList, isSeparator c = false := by
  obtain ⟨stretch, among, rfl⟩ := List.mem_map.mp mem
  obtain ⟨nonempty, free⟩ := not_isSeparator_of_mem_stretches among
  refine ⟨fun empty => nonempty ?_, by simpa using free⟩
  simpa using congrArg String.toList empty

theorem areNames_segments (package : String) : Path.AreNames (segments package) := by
  intro name mem
  obtain ⟨nonempty, free⟩ := not_isSeparator_of_mem_segments mem
  have other (dots : String) (dot : '.' ∈ dots.toList) : name ≠ dots := by
    rintro rfl
    exact absurd (free '.' dot) (by decide)
  have slashless : '/' ∉ name.toList := fun slash => absurd (free '/' slash) (by decide)
  exact ⟨⟨by simp [Path.isProper, nonempty, other "." (by simp)], slashless⟩, other ".." (by simp)⟩

/-- The stretches hold all characters that are no separators. -/
theorem flatten_stretches (cs : List Char) : (stretches cs).flatten = cs.filter (!isSeparator ·) := by
  rw [stretches, List.flatten_filter_ne_nil]
  induction cs with
  | nil => rfl
  | cons c cs ih =>
    rw [Text.cut]
    cases sep : isSeparator c with
    | true => simpa [sep] using ih
    | false =>
      rw [List.filter_cons_of_pos (by simp [sep]), ← ih]
      cases Text.cut isSeparator cs <;> simp

/-! ## Respelling -/

/-- One change of the separators of a text: another one in the place of one, one more beside it, or one at an end. -/
inductive Respells : List Char → List Char → Prop where
  | other (front back : List Char) {a b : Char} (old : isSeparator a = true) (new : isSeparator b = true) :
      Respells (front ++ a :: back) (front ++ b :: back)
  | again (front back : List Char) {a b : Char} (old : isSeparator a = true) (new : isSeparator b = true) :
      Respells (front ++ a :: back) (front ++ a :: b :: back)
  | before (cs : List Char) {a : Char} (new : isSeparator a = true) : Respells cs (a :: cs)
  | after (cs : List Char) {a : Char} (new : isSeparator a = true) : Respells cs (cs ++ [a])

/-- Texts that differ in their separators only: in which ones they are, in how many stand in a row, and in those at the
ends. -/
def IsRespelling : List Char → List Char → Prop :=
  Relation.EqvGen Respells

namespace IsRespelling

theorem refl (cs : List Char) : IsRespelling cs cs :=
  Relation.EqvGen.refl cs

theorem symm {cs cs' : List Char} (same : IsRespelling cs cs') : IsRespelling cs' cs :=
  Relation.EqvGen.symm _ _ same

theorem trans {cs cs' cs'' : List Char} (first : IsRespelling cs cs') (second : IsRespelling cs' cs'') :
    IsRespelling cs cs'' :=
  Relation.EqvGen.trans _ _ _ first second

theorem step {cs cs' : List Char} (change : Respells cs cs') : IsRespelling cs cs' :=
  Relation.EqvGen.rel _ _ change

end IsRespelling

/-- A change of separators leaves the stretches between them. -/
theorem Respells.stretches_eq {cs cs' : List Char} (change : Respells cs cs') : stretches cs = stretches cs' := by
  cases change with
  | other front back old new => rw [stretches_append_cons old, stretches_append_cons new]
  | again front back old new => rw [stretches_append_cons old, stretches_append_cons old, stretches_cons new]
  | before cs new => rw [stretches_cons new]
  | after cs new =>
    rw [stretches_append_cons new]
    exact (List.append_nil _).symm

theorem IsRespelling.stretches_eq {cs cs' : List Char} (same : IsRespelling cs cs') :
    stretches cs = stretches cs' := by
  induction same with
  | rel _ _ change => exact change.stretches_eq
  | refl => rfl
  | symm _ _ _ ih => exact ih.symm
  | trans _ _ _ _ _ ih ih' => exact ih.trans ih'

theorem isSeparator_dot : isSeparator '.' = true := rfl

/-- A text that follows a dot can be written as its stretches with a dot before each. The stretch that is being read is
`stretch`. -/
theorem isRespelling_dotted (rest stretch : List Char) (free : ∀ c ∈ stretch, isSeparator c = false)
    (front : List Char) :
    IsRespelling (front ++ '.' :: (stretch ++ rest)) (front ++ (stretches (stretch ++ rest)).flatMap ('.' :: ·)) := by
  induction rest generalizing stretch front with
  | nil =>
    by_cases empty : stretch = []
    · subst empty
      simpa [stretches, Text.cut] using (IsRespelling.step (.after front isSeparator_dot)).symm
    · rw [List.append_nil, stretches_of_free empty free]
      simpa using IsRespelling.refl (front ++ '.' :: stretch)
  | cons c rest ih =>
    cases sep : isSeparator c with
    | true =>
      rw [stretches_append_cons sep]
      have onward := ih [] (by simp)
      by_cases empty : stretch = []
      · subst empty
        exact (IsRespelling.step (.again front rest isSeparator_dot sep)).symm.trans (onward front)
      · have dotted := IsRespelling.step (.other (front ++ '.' :: stretch) rest sep isSeparator_dot)
        rw [stretches_of_free empty free]
        simpa using dotted.trans (onward (front ++ '.' :: stretch))
    | false =>
      have longer : ∀ d ∈ stretch ++ [c], isSeparator d = false :=
        List.forall_mem_append.mpr ⟨free, by simpa using sep⟩
      simpa using ih _ longer front

/-- Texts differ in their separators only if they have the same stretches between them. -/
theorem isRespelling_iff {cs cs' : List Char} : IsRespelling cs cs' ↔ stretches cs = stretches cs' := by
  refine ⟨IsRespelling.stretches_eq, fun same => ?_⟩
  have canonical (cs : List Char) : IsRespelling cs ((stretches cs).flatMap ('.' :: ·)) :=
    (IsRespelling.step (.before cs isSeparator_dot)).trans (isRespelling_dotted cs [] (by simp) [])
  exact (canonical cs).trans (same ▸ (canonical cs').symm)

/-! ## The dotted form -/

/-- What a character of a package becomes in the dotted form. -/
def dot (c : Char) : Char :=
  if c == '/' || c == '\\' then '.' else c

theorem toList_normalize (package : String) :
    (normalize package).toList = Text.trim (· == '.') ((Text.strip package).toList.map dot) := by
  simp only [normalize, Text.strip, String.toList_ofList]
  rfl

theorem stretches_separators_append {before : List Char} (sep : ∀ c ∈ before, isSeparator c = true) (cs : List Char) :
    stretches (before ++ cs) = stretches cs := by
  induction before with
  | nil => rfl
  | cons a before ih =>
    obtain ⟨here, later⟩ := List.forall_mem_cons.mp sep
    rw [List.cons_append, stretches_cons here, ih later]

theorem stretches_append_separators {after : List Char} (sep : ∀ c ∈ after, isSeparator c = true) (cs : List Char) :
    stretches (cs ++ after) = stretches cs := by
  cases after with
  | nil => rw [List.append_nil]
  | cons a after =>
    obtain ⟨here, later⟩ := List.forall_mem_cons.mp sep
    have nothing : stretches after = [] := by
      simpa [stretches, Text.cut] using stretches_separators_append later []
    rw [stretches_append_cons here, nothing, List.append_nil]

theorem isRespelling_map_dot (front cs : List Char) : IsRespelling (front ++ cs) (front ++ cs.map dot) := by
  induction cs generalizing front with
  | nil => exact .refl _
  | cons c cs ih =>
    have onward := ih (front ++ [dot c])
    have change : IsRespelling (front ++ c :: cs) (front ++ dot c :: cs) := by
      unfold dot
      split
      · rename_i slash
        have sep : isSeparator c = true := by
          rw [isSeparator, Bool.or_assoc, slash, Bool.or_true]
        exact .step (.other front cs sep isSeparator_dot)
      · exact .refl _
    simpa using change.trans (by simpa using onward)

theorem stretches_trim {drop : Char → Bool} (separators : ∀ c, drop c = true → isSeparator c = true) (cs : List Char) :
    stretches (Text.trim drop cs) = stretches cs := by
  obtain ⟨before, after, whole, front, back⟩ := Text.exists_trim drop cs
  calc stretches (Text.trim drop cs) = stretches (before ++ Text.trim drop cs) :=
        (stretches_separators_append (fun c mem => separators c (front c mem)) _).symm
    _ = stretches (before ++ Text.trim drop cs ++ after) :=
        (stretches_append_separators (fun c mem => separators c (back c mem)) _).symm
    _ = stretches cs := by rw [← whole]

/-- The dotted form of a package differs from what is left without blanks at the ends in separators only. -/
theorem isRespelling_normalize (package : String) :
    IsRespelling (Text.strip package).toList (normalize package).toList := by
  have ends : stretches ((Text.strip package).toList.map dot) = stretches (normalize package).toList := by
    rw [toList_normalize]
    exact (stretches_trim (fun c is => by simp [isSeparator, is]) _).symm
  have dotted (cs : List Char) : IsRespelling cs (cs.map dot) := isRespelling_map_dot [] cs
  exact (dotted _).trans (isRespelling_iff.mpr ends)

theorem eq_dot_of_mem_normalize {package : String} {c : Char} (mem : c ∈ (normalize package).toList)
    (sep : isSeparator c = true) : c = '.' := by
  rw [toList_normalize] at mem
  obtain ⟨d, -, rfl⟩ := List.mem_map.mp ((Text.trim_sublist _ _).subset mem)
  unfold dot at sep ⊢
  split
  · rfl
  · rename_i other
    simp_all [isSeparator]

/-! ## Directories -/

theorem segments_eq (package : String) :
    segments package = (Text.pieces '.' (normalize package)).filter (· ≠ "") := by
  have cuts : Text.cut isSeparator (normalize package).toList = Text.cut (· == '.') (normalize package).toList :=
    Text.cut_congr fun c mem => by
      cases sep : isSeparator c with
      | true => simp [eq_dot_of_mem_normalize mem sep]
      | false =>
        refine (beq_false_of_ne ?_).symm
        rintro rfl
        exact absurd (sep.symm.trans isSeparator_dot) (by decide)
  have filtered (l : List (List Char)) :
      (l.filter (· ≠ [])).map String.ofList = (l.map String.ofList).filter (· ≠ "") := by
    induction l with
    | nil => rfl
    | cons cs l ih => by_cases empty : cs = [] <;> simp_all
  rw [segments, (isRespelling_normalize package).stretches_eq, stretches, cuts, filtered]
  rfl

/-- The directory of a package goes down from the source directory by the segments of the package. -/
theorem directory_eq (sources : Path) (package : String) :
    directory sources package = sources.below (segments package) := by
  rw [segments_eq, directory]
  split
  · rename_i empty
    rw [beq_iff_eq.mp empty]
    exact (Path.below_nil sources).symm
  · refine Path.joinAll_eq fun piece mem => ⟨Text.not_mem_of_mem_pieces mem, fun slash => ?_⟩
    exact absurd (eq_dot_of_mem_normalize (Text.mem_of_mem_pieces mem slash) rfl) (by decide)

theorem directory_eq_iff {sources : Path} {package package' : String} :
    directory sources package = directory sources package' ↔
      IsRespelling (Text.strip package).toList (Text.strip package').toList := by
  have texts {l l' : List (List Char)} : l.map String.ofList = l'.map String.ofList ↔ l = l' :=
    (List.map_injective_iff.mpr fun cs cs' same => by simpa using congrArg String.toList same).eq_iff
  rw [directory_eq, directory_eq, isRespelling_iff, ← texts]
  exact ⟨Store.below_inj (areNames_segments package) (areNames_segments package'), congrArg sources.below⟩

end Package

/-- The directory of a package, whatever text it is given as, is the source directory or goes down from it by names
without separators; and texts stand for one directory just where they differ, blanks at the ends apart, in separators
only. -/
theorem Collector.directory_spec (c : Collector) (package : String) :
    c.directory package = c.sources.below (Package.segments package) ∧
      (c.directory package).parts = c.sources.parts ++ Package.segments package ∧
      (∀ name ∈ Package.segments package, name ≠ "" ∧ name ≠ ".." ∧ ∀ x ∈ ['.', '/', '\\'], x ∉ name.toList) ∧
      c.sources.isWithin (c.directory package) = true ∧
      ∀ package', c.directory package' = c.directory package ↔
        Package.IsRespelling (Text.strip package').toList (Text.strip package).toList := by
  have is : c.directory package = c.sources.below (Package.segments package) := Package.directory_eq c.sources package
  have areNames := Package.areNames_segments package
  refine ⟨is, (congrArg Path.parts is).trans (Store.parts_below areNames), fun name mem => ?_,
    Path.isWithin_iff.mpr ⟨_, is⟩, fun package' => Package.directory_eq_iff⟩
  obtain ⟨nonempty, free⟩ := Package.not_isSeparator_of_mem_segments mem
  refine ⟨nonempty, (areNames name mem).2, fun x sep among => ?_⟩
  have is : Package.isSeparator x = true := by
    simpa [Package.isSeparator, or_assoc] using sep
  exact absurd (is.symm.trans (free x among)) (by decide)

namespace Package

/-! ## The dotted form of a dotted form -/

theorem toList_strip (s : String) : (Text.strip s).toList = Text.trim Text.isBlank s.toList :=
  String.toList_ofList

theorem not_isSeparator_of_isBlank {c : Char} (blank : Text.isBlank c = true) : isSeparator c = false := by
  cases sep : isSeparator c with
  | false => rfl
  | true =>
    simp only [isSeparator, Bool.or_eq_true, beq_iff_eq] at sep
    rcases sep with (rfl | rfl) | rfl <;> exact absurd blank (by decide)

/-- The dotted form has no separators left to be made dots. -/
theorem toList_normalize_normalize (package : String) :
    (normalize (normalize package)).toList =
      Text.trim (· == '.') (Text.trim Text.isBlank (normalize package).toList) := by
  have kept : ∀ c ∈ Text.trim Text.isBlank (normalize package).toList, dot c = c := by
    intro c mem
    cases sep : isSeparator c with
    | true =>
      rw [eq_dot_of_mem_normalize ((Text.trim_sublist _ _).subset mem) sep]
      rfl
    | false =>
      unfold dot
      split
      · rename_i slash
        rw [isSeparator, Bool.or_assoc, slash, Bool.or_true] at sep
        cases sep
      · rfl
  rw [toList_normalize, toList_strip, List.map_congr_left kept, List.map_id']

/-- The dotted form is its own dotted form just where no blank stands at its ends. -/
theorem normalize_eq_self_iff (package : String) :
    normalize (normalize package) = normalize package ↔ Text.IsTrimmed Text.isBlank (normalize package).toList := by
  rw [← String.toList_inj, toList_normalize_normalize, ← Text.trim_eq_self_iff]
  have dotless : Text.trim (· == '.') (normalize package).toList = (normalize package).toList :=
    Text.trim_eq_self_iff.mpr (toList_normalize package ▸ Text.isTrimmed_trim _ _)
  constructor
  · intro same
    refine (Text.trim_sublist _ _).eq_of_length_le ?_
    calc (normalize package).toList.length
        = (Text.trim (· == '.') (Text.trim Text.isBlank (normalize package).toList)).length := by rw [same]
      _ ≤ (Text.trim Text.isBlank (normalize package).toList).length := (Text.trim_sublist _ _).length_le
  · intro same
    rw [same, dotless]

/-- How many characters a text has in its segments. -/
def weight (cs : List Char) : Nat :=
  cs.countP (!isSeparator ·)

theorem weight_eq_of_isRespelling {cs cs' : List Char} (same : IsRespelling cs cs') : weight cs = weight cs' := by
  have told (cs : List Char) : weight cs = (stretches cs).flatten.length := by
    rw [flatten_stretches, weight, List.countP_eq_length_filter]
  rw [told, told, same.stretches_eq]

theorem weight_strip_le (s : String) : weight (Text.strip s).toList ≤ weight s.toList := by
  rw [toList_strip]
  exact (Text.trim_sublist _ _).countP_le

/-- A text that loses no character of a segment with its blanks has no blanks at its ends. -/
theorem isTrimmed_of_weight_le {s : String} (le : weight s.toList ≤ weight (Text.strip s).toList) :
    Text.IsTrimmed Text.isBlank s.toList := by
  obtain ⟨before, after, whole, front, back⟩ := Text.exists_trim Text.isBlank s.toList
  have blanks {cs : List Char} (each : ∀ c ∈ cs, Text.isBlank c = true) : weight cs = cs.length :=
    List.countP_eq_length.mpr fun c mem => by simp [not_isSeparator_of_isBlank (each c mem)]
  have sum : weight s.toList = before.length + weight (Text.strip s).toList + after.length := by
    rw [← blanks front, ← blanks back, toList_strip, weight, weight, weight, weight, ← List.countP_append,
      ← List.countP_append, ← whole]
  obtain rfl : before = [] := List.length_eq_zero_iff.mp (by omega)
  obtain rfl : after = [] := List.length_eq_zero_iff.mp (by omega)
  exact Text.trim_eq_self_iff.mp (by simpa using whole.symm)

/-- The dotted form of the dotted form has the directory of the package just where it is the dotted form. -/
theorem directory_normalize_iff (sources : Path) (package : String) :
    directory sources (normalize (normalize package)) = directory sources package ↔
      Text.IsTrimmed Text.isBlank (normalize package).toList := by
  let twice := normalize (normalize package)
  rw [directory_eq_iff]
  constructor
  · intro same
    refine isTrimmed_of_weight_le ?_
    calc weight (normalize package).toList
        = weight (Text.strip package).toList := (weight_eq_of_isRespelling (isRespelling_normalize package)).symm
      _ = weight (Text.strip twice).toList := (weight_eq_of_isRespelling same).symm
      _ ≤ weight twice.toList := weight_strip_le twice
      _ = weight (Text.strip (normalize package)).toList :=
        (weight_eq_of_isRespelling (isRespelling_normalize (normalize package))).symm
  · intro trimmed
    rw [(normalize_eq_self_iff package).mpr trimmed, toList_strip, Text.trim_eq_self_iff.mpr trimmed]
    exact (isRespelling_normalize package).symm

end Package

namespace Settings

open Package (normalize)

theorem packageName_of_ofOptions {options : Options} {settings : Settings} {package : String}
    (asked : options.lookup "package_name" = some (.str package)) (made : ofOptions options = .ok settings) :
    settings.packageName = normalize package := by
  have read : options.get "package_name" none readText = .ok package := by
    rw [Options.get, asked]
    rfl
  unfold ofOptions at made
  rw [read] at made
  dsimp only at made
  split at made
  · rename_i packages _ _ _ _
    obtain rfl := Except.ok.inj packages
    rw [← Except.ok.inj made]
  · cases made

/-- The package of settings is the dotted form of the text that is asked for, that of the graph is the dotted form of
this one, and the scan goes to the directory of that. They are one package just where the dotted form of the text has no
blanks at its ends. -/
theorem package_agrees_iff (package : String) :
    let trimmed := Text.IsTrimmed Text.isBlank (normalize package).toList
    (normalize (normalize package) = normalize package ↔ trimmed) ∧
      ∀ options settings, options.lookup "package_name" = some (.str package) → ofOptions options = .ok settings →
        let collector := settings.nesting.collector
        settings.packageName = normalize package ∧ (settings.nesting.package = settings.packageName ↔ trimmed) ∧
          (collector.directory settings.nesting.package = collector.directory package ↔ trimmed) := by
  refine ⟨Package.normalize_eq_self_iff package, fun options settings asked made => ?_⟩
  have named := packageName_of_ofOptions asked made
  have twice : settings.nesting.package = normalize (normalize package) := by
    rw [← named]
    rfl
  refine ⟨named, ?_, ?_⟩
  · rw [twice, named, Package.normalize_eq_self_iff]
  · rw [twice]
    exact Package.directory_normalize_iff _ package

/-- Options that ask for a package. -/
def asking (package : String) : Options :=
  [("base_dir", .str "."), ("package_name", .str package), ("output_directory", .str "out")]

/-- The settings of such options, with the dotted form of the package. -/
def answering (dotted : String) : Settings :=
  ⟨.here, dotted, .ofString "out", .ofString standardSources, .standard, standardGenerator⟩

theorem package_agrees_iff_mixed :
    (asking " com\\example//model/").lookup "package_name" = some (.str " com\\example//model/") ∧
      ofOptions (asking " com\\example//model/") = .ok (answering "com.example..model") ∧
      (answering "com.example..model").nesting.package = "com.example..model" := by
  have made : ofOptions (asking " com\\example//model/") = .ok (answering "com.example..model") := by
    decide +kernel
  obtain ⟨-, each⟩ := package_agrees_iff " com\\example//model/"
  obtain ⟨-, agrees, -⟩ := each _ _ rfl made
  exact ⟨rfl, made, agrees.mpr (by decide +kernel)⟩

/-- A blank behind a separator stays in the dotted form and is lost in the dotted form of that. -/
theorem package_disagrees :
    ofOptions (asking ". a") = .ok (answering " a") ∧ (answering " a").nesting.package = "a" ∧
      normalize (normalize ". a") ≠ normalize ". a" ∧
      Package.directory .here (normalize (normalize ". a")) ≠ Package.directory .here ". a" := by
  decide +kernel

end Settings

end EntityAtlas
