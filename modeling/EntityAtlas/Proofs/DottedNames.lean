import EntityAtlas.Supertype.Stage

/-!
# Dotted names

Cutting a text at a separator and joining the pieces again are inverse to each other, as long as no piece holds the
separator. A declared name without a dot can therefore be told from its qualified name, and so can the package; and
whatever name a declaring file states for a reference, its last piece is the simple name of the reference.
-/

namespace EntityAtlas

namespace Text

variable {sep : Char} {j : String}

theorem cut_eq_splitOnP (sep : Char → Bool) (cs : List Char) : cut sep cs = cs.splitOnP sep := by
  induction cs with
  | nil => rfl
  | cons c rest ih =>
    rw [cut, List.splitOnP_cons_eq_if_modifyHead, ih]
    split
    · rfl
    · cases parts : rest.splitOnP sep with
      | nil => exact absurd parts (List.splitOnP_ne_nil sep rest)
      | cons piece pieces => rfl

/-- No separator is in a piece. -/
theorem eq_false_of_mem_splitOnP (sep : Char → Bool) (cs : List Char) :
    ∀ piece ∈ cs.splitOnP sep, ∀ c ∈ piece, sep c = false := by
  induction cs with
  | nil => simp
  | cons c rest ih =>
    rw [List.splitOnP_cons_eq_if_modifyHead]
    split
    · simpa using ih
    · rename_i other
      cases parts : rest.splitOnP sep with
      | nil => exact absurd parts (List.splitOnP_ne_nil sep rest)
      | cons piece pieces =>
        rw [parts] at ih
        simpa [other] using ih

theorem not_mem_of_mem_splitOn (sep : Char) (cs : List Char) : ∀ piece ∈ cs.splitOn sep, sep ∉ piece :=
  fun piece mem among => absurd (eq_false_of_mem_splitOnP (· == sep) cs piece mem sep among) (by simp)

theorem pieces_eq_splitOn (sep : Char) (s : String) : pieces sep s = (s.toList.splitOn sep).map String.ofList := by
  rw [pieces, cut_eq_splitOnP]
  rfl

theorem pieces_ne_nil (sep : Char) (s : String) : pieces sep s ≠ [] := by
  simp [pieces_eq_splitOn]

theorem map_toList_pieces (sep : Char) (s : String) : (pieces sep s).map String.toList = s.toList.splitOn sep := by
  simp [pieces_eq_splitOn, Function.comp_def]

theorem not_mem_of_mem_pieces {p s : String} (mem : p ∈ pieces sep s) : sep ∉ p.toList := by
  apply not_mem_of_mem_splitOn sep s.toList
  rw [← map_toList_pieces]
  exact List.mem_map_of_mem mem

/-- The characters of a piece are characters of the text. -/
theorem mem_of_mem_pieces {p s : String} (isPiece : p ∈ pieces sep s) {c : Char} (among : c ∈ p.toList) :
    c ∈ s.toList := by
  obtain ⟨piece, mem, rfl⟩ := List.mem_map.mp isPiece
  clear isPiece
  rw [String.toList_ofList] at among
  generalize s.toList = cs at mem ⊢
  induction cs generalizing piece with
  | nil =>
    rw [cut, List.mem_singleton] at mem
    simp [mem] at among
  | cons d cs ih =>
    rw [cut] at mem
    split at mem
    · rcases List.mem_cons.mp mem with rfl | mem
      · cases among
      · exact List.mem_cons_of_mem _ (ih piece among mem)
    · cases parts : cut (· == sep) cs with
      | nil => exact absurd parts (cut_ne_nil _ cs)
      | cons first others =>
        rw [parts] at mem ih
        rcases List.mem_cons.mp mem with rfl | mem
        · rcases List.mem_cons.mp among with rfl | among
          · exact List.mem_cons_self
          · exact List.mem_cons_of_mem _ (ih first among List.mem_cons_self)
        · exact List.mem_cons_of_mem _ (ih piece among (List.mem_cons_of_mem _ mem))

/-- Joining the pieces of a text gives the text. -/
theorem intercalate_pieces (one : j.toList = [sep]) (s : String) : j.intercalate (pieces sep s) = s := by
  apply String.toList_injective
  rw [String.toList_intercalate, map_toList_pieces, one, List.intercalate_splitOn]

/-- Cutting joined pieces gives the pieces. -/
theorem pieces_intercalate (one : j.toList = [sep]) {ps : List String} (nonempty : ps ≠ [])
    (free : ∀ p ∈ ps, sep ∉ p.toList) : pieces sep (j.intercalate ps) = ps := by
  have texts : ∀ cs ∈ ps.map String.toList, sep ∉ cs := by simpa using free
  rw [pieces_eq_splitOn, String.toList_intercalate, one, List.splitOn_intercalate sep texts (by simpa using nonempty)]
  simp [Function.comp_def]

theorem pieces_of_not_mem {s : String} (free : sep ∉ s.toList) : pieces sep s = [s] := by
  simp [pieces_eq_splitOn, List.splitOn_eq_singleton free]

theorem pieces_append (one : j.toList = [sep]) (a b : String) :
    pieces sep (a ++ j ++ b) = pieces sep a ++ pieces sep b := by
  simp [pieces_eq_splitOn, one, List.splitOn_append_cons_self]

theorem lastPiece_of_not_mem {s : String} (free : sep ∉ s.toList) : lastPiece sep s = s := by
  simp [lastPiece, pieces_of_not_mem free]

theorem getLast?_pieces (sep : Char) (s : String) : (pieces sep s).getLast? = some (lastPiece sep s) := by
  rw [lastPiece, List.getLast?_eq_some_getLast (pieces_ne_nil sep s), Option.getD_some]

theorem lastPiece_append (one : j.toList = [sep]) (a b : String) : lastPiece sep (a ++ j ++ b) = lastPiece sep b := by
  rw [lastPiece, pieces_append one, List.getLast?_append, getLast?_pieces sep b, Option.some_or, Option.getD_some]

theorem lastPiece_not_mem (sep : Char) (s : String) : sep ∉ (lastPiece sep s).toList :=
  not_mem_of_mem_pieces (List.mem_of_getLast? (getLast?_pieces sep s))

/-- A text ends with another one when that is what is left of it after some beginning. -/
theorem eq_append_of_endsWith {s tail : String} (ends : endsWith s tail = true) : ∃ head, s = head ++ tail := by
  simp only [endsWith, beq_iff_eq] at ends
  refine ⟨.ofList (s.toList.reverse.drop tail.toList.length).reverse, String.toList_injective ?_⟩
  have whole := List.take_append_drop tail.toList.length s.toList.reverse
  rw [ends] at whole
  simpa using (congrArg List.reverse whole).symm

theorem endsWith_append (head tail : String) : endsWith (head ++ tail) tail = true := by
  simp [endsWith]

end Text

namespace TypeRef

variable {ref : TypeRef} {first : String} {inner : List String}

/-- A reference is written with a dot if it has several pieces. -/
theorem isQualified_eq (cut : Text.pieces '.' ref.name = first :: inner) : ref.isQualified = !inner.isEmpty := by
  have whole : ".".intercalate (first :: inner) = ref.name := cut ▸ Text.intercalate_pieces rfl ref.name
  cases inner with
  | nil =>
    have free : '.' ∉ first.toList := Text.not_mem_of_mem_pieces (cut ▸ List.mem_cons_self)
    simp [isQualified, ← whole, free]
  | cons second more =>
    have dotted : '.' ∈ ref.name.toList := by
      refine Decidable.byContradiction fun free => ?_
      simp [Text.pieces_of_not_mem free] at cut
    simp [isQualified, dotted]

end TypeRef

namespace Decl

/-- The last piece of a qualified name is the name, if that has no dot. -/
theorem lastPiece_qualifiedName {d : Decl} (free : '.' ∉ d.name.toList) :
    Text.lastPiece '.' d.qualifiedName = d.name := by
  unfold qualifiedName
  split
  · split
    · exact Text.lastPiece_of_not_mem free
    · rw [Text.lastPiece_append rfl, Text.lastPiece_of_not_mem free]
  · exact Text.lastPiece_of_not_mem free

/-- What stands before the last dot of a qualified name is the package, if the name has no dot. -/
theorem qualifiedName_ne_empty {d : Decl} (named : d.name ≠ "") : d.qualifiedName ≠ "" := by
  unfold qualifiedName
  split
  · split
    · exact named
    · simp
  · exact named

theorem packageOf_qualifiedName {d : Decl} (free : '.' ∉ d.name.toList) :
    Supertype.packageOf d.qualifiedName = d.head.package.getD "" := by
  have alone : Supertype.packageOf d.name = "" := by simp [Supertype.packageOf, Text.pieces_of_not_mem free]
  unfold qualifiedName
  cases d.head.package with
  | none => exact alone
  | some p =>
    by_cases empty : p = ""
    · simp [empty, alone]
    · have cut : Text.pieces '.' (p ++ "." ++ d.name) = Text.pieces '.' p ++ [d.name] := by
        rw [Text.pieces_append rfl, Text.pieces_of_not_mem free]
      simp [empty, Supertype.packageOf, cut, Text.intercalate_pieces]

/-- Declarations with names without dots have the same qualified name when they have the same name and package. -/
theorem qualifiedName_eq_iff {d e : Decl} (free : '.' ∉ d.name.toList) (free' : '.' ∉ e.name.toList) :
    d.qualifiedName = e.qualifiedName ↔ d.name = e.name ∧ d.head.package.getD "" = e.head.package.getD "" := by
  constructor
  · intro same
    refine ⟨?_, ?_⟩
    · rw [← lastPiece_qualifiedName free, same, lastPiece_qualifiedName free']
    · rw [← packageOf_qualifiedName free, same, packageOf_qualifiedName free']
  · rintro ⟨names, packages⟩
    unfold qualifiedName
    cases h : d.head.package <;> cases h' : e.head.package <;> simp_all

end Decl

namespace Supertype

theorem lastPiece_modelName (path : String) : Text.lastPiece '.' (modelName path) = Text.lastPiece '.' path := by
  have pieces : Text.pieces '.' (modelName path) =
      (Text.pieces '.' path).dropLast.takeWhile (fun s => !isTypeSegment s) ++ [Text.lastPiece '.' path] := by
    simp only [modelName, Text.getLast?_pieces, Option.toList_some]
    apply Text.pieces_intercalate rfl (by simp)
    intro p mem
    rcases List.mem_append.mp mem with mem | mem
    · exact Text.not_mem_of_mem_pieces (List.dropLast_subset _ (List.takeWhile_subset _ mem))
    · rw [List.mem_singleton.mp mem]
      exact Text.lastPiece_not_mem '.' path
  simp [Text.lastPiece, pieces]

theorem Stage.eq_append_of_importOf? {imports : List String} {name i : String}
    (found : importOf? imports name = some i) : ∃ head, i = head ++ "." ++ name := by
  have ends := (List.find?_eq_some_iff_append.mp found).1
  obtain ⟨head, whole⟩ := Text.eq_append_of_endsWith ends
  exact ⟨head, by rw [whole, String.append_assoc]⟩

/-- The name that a declaring file states for a reference ends with the simple name of the reference. -/
theorem Stage.lastPiece_stated? {ref : TypeRef} {owner : Decl} {name : String}
    (states : stated? ref owner = some name) : Text.lastPiece '.' name = ref.simpleName := by
  have simple : Text.lastPiece '.' ref.simpleName = ref.simpleName :=
    Text.lastPiece_of_not_mem (Text.lastPiece_not_mem '.' ref.name)
  simp only [stated?] at states
  split at states
  · split at states
    · obtain ⟨i, -, rfl⟩ := Option.map_eq_some_iff.mp states
      rw [lastPiece_modelName, Text.lastPiece_append rfl, simple]
    · obtain rfl := Option.some.inj states
      exact lastPiece_modelName ref.name
  · obtain ⟨i, imported, rfl⟩ := Option.map_eq_some_iff.mp states
    obtain ⟨head, rfl⟩ := eq_append_of_importOf? imported
    rw [lastPiece_modelName, Text.lastPiece_append rfl, simple]

theorem Stage.lastPiece_synthesizedName (package : String) (ref : TypeRef) :
    Text.lastPiece '.' (synthesizedName package ref) = ref.simpleName := by
  have simple : Text.lastPiece '.' ref.simpleName = ref.simpleName :=
    Text.lastPiece_of_not_mem (Text.lastPiece_not_mem '.' ref.name)
  unfold synthesizedName
  split
  · exact simple
  · rw [Text.lastPiece_append rfl, simple]

end Supertype

end EntityAtlas
