import EntityAtlas.Proofs.Ancestry
import EntityAtlas.Proofs.Scoping
import Mathlib.Data.List.TakeWhile

/-!
# Whole lines of ancestors

Ancestors are looked up by their qualified names, so two ancestors of one name are one declaration, and in a line that
does not turn back each ancestor has a name of its own. The declaration at the start was not looked up. It may have a
namesake further up, and there the walk stops although no declaration was met twice. In all other lines that do not turn
back the walk goes on to the end.
-/

namespace EntityAtlas

/-- Where a declaration stands: its file, and its name with those of the declarations around it. -/
def Decl.spot (d : Decl) : Option String × String :=
  (d.head.sourceFile, d.nestedName)

/-- What follows the longest start of a list that has a property lacks it. -/
theorem eq_false_of_getElem?_takeWhile {α : Type} {p : α → Bool} {a : α} :
    ∀ {l : List α}, l[(l.takeWhile p).length]? = some a → p a = false
  | b :: l, next => by
    rw [List.takeWhile_cons] at next
    split at next
    · exact eq_false_of_getElem?_takeWhile (by simpa using next)
    · simp_all

namespace Nesting

variable (n : Nesting) (s : Store)

/-- The whole chain of supertypes of a declaration, from the declaration itself on. -/
def IsLine (d : Decl) (row : List Decl) : Prop :=
  ∀ i, row[i]? = n.ancestor? s d i

/-- No declaration comes twice in the chain of supertypes. -/
def IsAcyclic (d : Decl) : Prop :=
  ∀ i j e e', i < j → n.ancestor? s d i = some e → n.ancestor? s d j = some e' → e.spot ≠ e'.spot

variable {n : Nesting} {s : Store} {d e : Decl}

theorem IsLine.unique {line line' : List Decl} (is : n.IsLine s d line) (is' : n.IsLine s d line') : line = line' :=
  List.ext_getElem? fun i => (is i).trans (is' i).symm

theorem IsLine.top (last : n.parent? s d = none) : n.IsLine s d [d]
  | 0 => rfl
  | i + 1 => by simp [ancestor?_succ, last]

theorem IsLine.up {line : List Decl} (next : n.parent? s d = some e) (rest : n.IsLine s e line) :
    n.IsLine s d (d :: line)
  | 0 => rfl
  | i + 1 => by simpa [ancestor?_succ, next] using rest i

theorem IsLine.isAcyclic {line : List Decl} (is : n.IsLine s d line) (apart : (line.map Decl.spot).Nodup) :
    n.IsAcyclic s d := by
  intro i j e e' before earlier later same
  rw [← is] at earlier later
  obtain ⟨inside, -⟩ := List.getElem?_eq_some_iff.mp later
  refine List.nodup_iff_getElem?_ne_getElem?.mp apart i j before (by simpa using inside) ?_
  simp [earlier, later, same]

/-- Only one declaration of a qualified name is ever found. -/
theorem named?_of_parent? (contained : n.chain.Contained s) (next : n.parent? s d = some e) :
    (n.chain.collector.named? s e.qualifiedName).map (·.decl) = some e := by
  rw [(value_supertype_eq contained d).2] at next
  obtain ⟨p, finds, rfl⟩ := Option.map_eq_some_iff.mp next
  obtain ⟨ref, -, finds⟩ := Option.bind_eq_some_iff.mp finds
  obtain ⟨stage, -, finds⟩ := List.exists_of_findSome?_eq_some finds
  obtain ⟨name, -, finds⟩ := Option.bind_eq_some_iff.mp finds
  obtain ⟨-, rfl⟩ := Collector.mem_declared_of_named? finds
  rw [finds, Option.map_some]

/-- Ancestors of one qualified name are one declaration. -/
theorem eq_of_ancestor? (contained : n.chain.Contained s) {i j : Nat} {e e' : Decl}
    (is : n.ancestor? s d (i + 1) = some e) (is' : n.ancestor? s d (j + 1) = some e')
    (same : e.qualifiedName = e'.qualifiedName) : e = e' := by
  obtain ⟨_, -, next⟩ := Option.bind_eq_some_iff.mp is
  obtain ⟨_, -, next'⟩ := Option.bind_eq_some_iff.mp is'
  have found := named?_of_parent? contained next
  rw [same, named?_of_parent? contained next'] at found
  exact (Option.some.inj found).symm

theorem ancestor?_eq_none {i j : Nat} (ends : n.ancestor? s d i = none) (le : i ≤ j) : n.ancestor? s d j = none := by
  induction j, le using Nat.le_induction with
  | base => exact ends
  | succ j _ ih => simp [ancestor?, ih]

/-- If a line does not turn back, the lineage of the first ancestor is the whole line above. -/
theorem IsLineage.isLine (contained : n.chain.Contained s) (acyclic : n.IsAcyclic s d) (next : n.parent? s d = some e)
    {above : List Decl} (lineage : n.IsLineage s e above) : n.IsLine s e above := by
  have up {i : Nat} {e' : Decl} (is : n.ancestor? s e i = some e') : n.ancestor? s d (i + 1) = some e' := by
    rw [ancestor?_succ, next, Option.bind_some, is]
  have ends : n.ancestor? s e above.length = none := by
    -- one more ancestor would have the qualified name of an earlier one, and so be that one
    by_contra more
    obtain ⟨last, is⟩ := Option.ne_none_iff_exists'.mp more
    obtain ⟨earlier, mem, same⟩ := List.mem_map.mp (lineage.longest last is)
    obtain ⟨i, inside, rfl⟩ := List.mem_iff_getElem.mp mem
    have before := (lineage.follows i inside).symm.trans (List.getElem?_eq_getElem inside)
    have repeated := eq_of_ancestor? contained (up before) (up is) same
    exact acyclic (i + 1) (above.length + 1) _ _ (by omega) (up before) (up is) (congrArg Decl.spot repeated)
  intro i
  rcases Nat.lt_or_ge i above.length with inside | beyond
  · exact lineage.follows i inside
  · rw [ancestor?_eq_none ends beyond, List.getElem?_eq_none beyond]

/-- In a line that does not turn back, the ancestors have names of their own, and there is a last one. -/
theorem IsAcyclic.exists_line (contained : n.chain.Contained s) (acyclic : n.IsAcyclic s d) :
    ∃ above, n.IsLine s d (d :: above) ∧ (above.map Decl.qualifiedName).Nodup := by
  cases next : n.parent? s d with
  | none => exact ⟨[], .top next, List.nodup_nil⟩
  | some e =>
    obtain ⟨above, lineage, -⟩ := exists_lineage contained e
    exact ⟨above, .up next (lineage.isLine contained acyclic next), lineage.distinct⟩

/-- The lineage of a declaration ends before the first namesake of it in the line above, if there is one. -/
theorem IsLine.isLineage {above : List Decl} (is : n.IsLine s d (d :: above))
    (distinct : (above.map Decl.qualifiedName).Nodup) :
    n.IsLineage s d (d :: above.takeWhile (·.qualifiedName != d.qualifiedName)) where
  follows i inside := by
    rw [← is]
    cases i with
    | zero => rfl
    | succ i =>
      have inside := Nat.lt_of_succ_lt_succ inside
      simp only [List.getElem?_cons_succ, List.getElem?_eq_getElem inside]
      exact (List.prefix_iff_getElem?.mp (List.takeWhile_prefix _) i inside).symm
  distinct := by
    rw [List.map_cons, List.nodup_cons]
    refine ⟨fun mem => ?_, distinct.sublist ((List.takeWhile_sublist _).map _)⟩
    obtain ⟨e, mem, same⟩ := List.mem_map.mp mem
    simpa [same] using List.mem_takeWhile_imp mem
  longest e beyond := by
    rw [← is, List.length_cons, List.getElem?_cons_succ] at beyond
    have namesake := eq_false_of_getElem?_takeWhile beyond
    simp only [bne_eq_false_iff_eq] at namesake
    simp [namesake]

/-- The columns of a declaration are those of the line up to the first namesake. -/
theorem IsLine.value_columns {above : List Decl} (is : n.IsLine s d (d :: above)) (contained : n.chain.Contained s)
    (distinct : (above.map Decl.qualifiedName).Nodup) :
    (n.columns s d).value = .ok (n.collector.columns d ++
      (above.takeWhile (·.qualifiedName != d.qualifiedName)).flatMap n.collector.columns) := by
  obtain ⟨stretch, lineage, -, columns, -⟩ := exists_lineage contained d
  obtain rfl := lineage.unique (is.isLineage distinct)
  exact columns

/-- In a line of ancestors that does not turn back, the columns of a declaration are its own and those of its ancestors,
in order, up to an ancestor that has the qualified name of the declaration; and if no ancestor has it, then those of the
whole line. -/
theorem columns_of_isAcyclic (n : Nesting) (s : Store) (contained : n.chain.Contained s) {d : Decl}
    (acyclic : n.IsAcyclic s d) :
    ∃ above, n.IsLine s d (d :: above) ∧
      (n.columns s d).value = .ok (n.collector.columns d ++
        (above.takeWhile (·.qualifiedName != d.qualifiedName)).flatMap n.collector.columns) ∧
      ((∀ e ∈ above, e.qualifiedName ≠ d.qualifiedName) →
        (n.columns s d).value = .ok ((d :: above).flatMap n.collector.columns)) := by
  obtain ⟨above, line, distinct⟩ := acyclic.exists_line contained
  have columns := line.value_columns contained distinct
  refine ⟨above, line, columns, fun others => ?_⟩
  rw [columns, List.takeWhile_eq_self_iff.mpr (by simpa using others)]
  rfl

/-- A class that comes above its namesake, with a class between them. -/
def namesakeLine : Store where
  root := .dir [("A.java", .file (Text.Utf8.encode ("class O { static class A { @Column int x; } } " ++
    "class B extends O.A { @Column int z; } @Table class A extends B { @Column int y; }").toList))]
  cwd := []

/-- The class at the top of the line. -/
def innerNamesake : Decl :=
  ⟨⟨"A", .classKind, .extensible none, none, [], [], some "A.java", ["O"]⟩, [.field ⟨"x", [⟨"Column", []⟩]⟩]⟩

/-- The class in the middle of the line. -/
def betweenNamesakes : Decl :=
  ⟨⟨"B", .classKind, .extensible (some ⟨"O.A"⟩), none, [], [], some "A.java", []⟩, [.field ⟨"z", [⟨"Column", []⟩]⟩]⟩

/-- The class at the start of the line. -/
def outerNamesake : Decl :=
  ⟨⟨"A", .classKind, .extensible (some ⟨"B"⟩), none, [⟨"Table", []⟩], [], some "A.java", []⟩,
    [.field ⟨"y", [⟨"Column", []⟩]⟩]⟩

/-- All declarations of the file. -/
def aroundNamesakes : List Placed :=
  [⟨"A.java", [0], ⟨⟨"O", .classKind, .extensible none, none, [], [], some "A.java", []⟩, [innerNamesake.toItem]⟩⟩,
    ⟨"A.java", [0, 0], innerNamesake⟩, ⟨"A.java", [1], betweenNamesakes⟩, ⟨"A.java", [2], outerNamesake⟩]

theorem scan_namesakeLine :
    ((Collector.standard .here .java17).extract namesakeLine "" fun _ => true).value = .ok aroundNamesakes := by
  decide +kernel

theorem parent?_namesakeLine {owner : Decl} {ref : TypeRef} (extended : owner.supertype? = some ref) :
    (Nesting.standard "" (.standard .here .java17)).parent? namesakeLine owner =
      (((Supertype.Stage.stated? ref owner).bind fun name =>
        aroundNamesakes.find? fun q => q.decl.qualifiedName == name).or
          (Supertype.besideOrFirst aroundNamesakes owner ref.simpleName)).map (·.decl) := by
  have finds := Supertype.supertype_of_scan (Package.normalize "") scan_namesakeLine extended
  rw [parent?, Nesting.standard, finds]

theorem isLine_betweenNamesakes :
    (Nesting.standard "" (.standard .here .java17)).IsLine namesakeLine betweenNamesakes
      [betweenNamesakes, innerNamesake] :=
  .up ((parent?_namesakeLine rfl).trans (by decide +kernel)) (.top (by decide +kernel))

theorem columns_of_isAcyclic_betweenNamesakes :
    let n := Nesting.standard "" (.standard .here .java17)
    n.chain.Contained namesakeLine ∧ n.IsAcyclic namesakeLine betweenNamesakes ∧
      (n.columns namesakeLine betweenNamesakes).value = .ok ["z", "x"] := by
  intro n
  have contained := Supertype.Chain.contained_standard n.collector n.package namesakeLine
  have acyclic : n.IsAcyclic namesakeLine betweenNamesakes := isLine_betweenNamesakes.isAcyclic (by decide)
  obtain ⟨above, line, -, whole⟩ := columns_of_isAcyclic n namesakeLine contained acyclic
  obtain rfl : above = [innerNamesake] := List.tail_eq_of_cons_eq (line.unique isLine_betweenNamesakes)
  exact ⟨contained, acyclic, whole (by decide)⟩

/-- The walk up stops at a namesake: three declarations in a line that does not turn back, and the columns of two. -/
theorem columns_of_outerNamesake :
    let n := Nesting.standard "" (.standard .here .java17)
    let line := [outerNamesake, betweenNamesakes, innerNamesake]
    (n.collector.extract namesakeLine "" fun _ => true).value = .ok aroundNamesakes ∧
      (∀ d ∈ line, d ∈ aroundNamesakes.map (·.decl)) ∧
      n.IsLine namesakeLine outerNamesake line ∧ n.IsAcyclic namesakeLine outerNamesake ∧
      line.flatMap n.collector.columns = ["y", "z", "x"] ∧
      (n.columns namesakeLine outerNamesake).value = .ok ["y", "z"] := by
  intro n line
  have is : n.IsLine namesakeLine outerNamesake line :=
    .up ((parent?_namesakeLine rfl).trans (by decide +kernel)) isLine_betweenNamesakes
  have contained := Supertype.Chain.contained_standard n.collector n.package namesakeLine
  exact ⟨scan_namesakeLine, by decide, is, is.isAcyclic (by decide), by decide,
    is.value_columns contained (by decide)⟩

end Nesting

end EntityAtlas
