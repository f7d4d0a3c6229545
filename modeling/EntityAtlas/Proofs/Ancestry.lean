import EntityAtlas.Nesting
import EntityAtlas.Proofs.ChainSearch
import Mathlib.Data.Finset.Card

/-!
# Ancestors

The walk up from a declaration follows a relation that is read from arbitrary sources and may well be cyclic. It ends
all the same: every step but the first goes to a declared type, and none goes to a qualified name that was met before.
What it passes is the longest stretch of the chain of supertypes in which no qualified name occurs twice.
-/

namespace EntityAtlas.Nesting

variable (n : Nesting) (s : Store)

/-- The supertype that is found for a declaration, if one is. -/
def parent? (d : Decl) : Option Decl :=
  match (n.chain.supertype s d).value with
  | .ok found => found.map (·.decl)
  | .error _ => none

/-- The declaration some steps up the chain of supertypes. -/
def ancestor? (d : Decl) : Nat → Option Decl
  | 0 => some d
  | i + 1 => (ancestor? d i).bind (n.parent? s)

/-- The longest initial stretch of a declaration's chain of supertypes in which no qualified name occurs twice. -/
structure IsLineage (d : Decl) (stretch : List Decl) : Prop where
  follows : ∀ i < stretch.length, stretch[i]? = n.ancestor? s d i
  distinct : (stretch.map Decl.qualifiedName).Nodup
  longest : ∀ e, n.ancestor? s d stretch.length = some e → e.qualifiedName ∈ stretch.map Decl.qualifiedName

/-- The qualified names that are declared where supertypes are looked for. -/
def declaredNames : Finset String :=
  ((n.chain.collector.declared s).map (·.decl.qualifiedName)).toFinset

theorem ancestor?_succ (d : Decl) (i : Nat) :
    n.ancestor? s d (i + 1) = (n.parent? s d).bind fun e => n.ancestor? s e i := by
  induction i with
  | zero => simp [ancestor?]
  | succ i ih =>
    rw [ancestor?, ih, Option.bind_assoc]
    rfl

/-- A stretch without repetition that cannot be longer is the only one. -/
theorem IsLineage.unique {n : Nesting} {s : Store} {d : Decl} {stretch stretch' : List Decl}
    (is : n.IsLineage s d stretch) (is' : n.IsLineage s d stretch') : stretch = stretch' := by
  have notLonger : ∀ {l l' : List Decl}, n.IsLineage s d l → n.IsLineage s d l' → ¬ l.length < l'.length := by
    intro l l' lineage lineage' shorter
    have next := lineage'.follows l.length shorter
    obtain ⟨e, at_end⟩ : ∃ e, l'[l.length]? = some e := ⟨_, List.getElem?_eq_getElem shorter⟩
    have repeated := lineage.longest e (next.symm.trans at_end)
    obtain ⟨before, mem, same⟩ := List.mem_map.mp repeated
    obtain ⟨i, inside, rfl⟩ := List.mem_iff_getElem.mp mem
    have earlier : l'[i]? = some l[i] := by
      rw [lineage'.follows i (by omega), ← lineage.follows i inside, List.getElem?_eq_getElem inside]
    have nodup := lineage'.distinct
    have positions := (List.nodup_iff_getElem?_ne_getElem?.mp nodup) i l.length inside (by simpa using shorter)
    exact positions (by simp [List.getElem?_map, earlier, at_end, same])
  have equal : stretch.length = stretch'.length := by
    have := notLonger is is'
    have := notLonger is' is
    omega
  apply List.ext_getElem?
  intro i
  by_cases inside : i < stretch.length
  · rw [is.follows i inside, is'.follows i (equal ▸ inside)]
  · rw [List.getElem?_eq_none (by omega), List.getElem?_eq_none (by omega)]

/-- A whole walk up from a declaration when some qualified names were met before, and the declarations that it passes:
it ends at a name that was met, or where no supertype is found. -/
inductive Climb : List String → Decl → List Decl → Prop where
  | again {visited d} (met : d.qualifiedName ∈ visited) : Climb visited d []
  | top {visited d} (new : d.qualifiedName ∉ visited) (last : n.parent? s d = none) : Climb visited d [d]
  | up {visited d e stretch} (new : d.qualifiedName ∉ visited) (next : n.parent? s d = some e)
      (rest : Climb (d.qualifiedName :: visited) e stretch) : Climb visited d (d :: stretch)

variable {n : Nesting} {s : Store}

theorem value_supertype_eq (contained : n.chain.Contained s) (d : Decl) :
    (n.chain.supertype s d).value = .ok (n.chain.found s d) ∧
      n.parent? s d = (n.chain.found s d).map (·.decl) := by
  have value := Supertype.Chain.value_supertype contained d
  exact ⟨value, by rw [parent?, value]⟩

theorem qualifiedName_mem_of_parent? (contained : n.chain.Contained s) {d e : Decl} (next : n.parent? s d = some e) :
    e.qualifiedName ∈ n.declaredNames s := by
  rw [(value_supertype_eq contained d).2] at next
  obtain ⟨p, finds, rfl⟩ := Option.map_eq_some_iff.mp next
  exact List.mem_toFinset.mpr (List.mem_map_of_mem (Supertype.Chain.mem_declared_of_found finds))

/-- Every walk up ends. What shrinks is the set of declared names that were not met. -/
theorem exists_climb (contained : n.chain.Contained s) (visited : List String) (d : Decl) :
    ∃ stretch, Climb n s visited d stretch ∧
      stretch.length ≤ 1 + (n.declaredNames s \ (d.qualifiedName :: visited).toFinset).card := by
  induction measure : (n.declaredNames s \ (d.qualifiedName :: visited).toFinset).card using Nat.strong_induction_on
    generalizing visited d with
  | _ size ih =>
    by_cases met : d.qualifiedName ∈ visited
    · exact ⟨[], .again met, by simp⟩
    cases next : n.parent? s d with
    | none => exact ⟨[d], .top met next, by simp⟩
    | some e =>
      by_cases met' : e.qualifiedName ∈ d.qualifiedName :: visited
      · exact ⟨[d], .up met next (.again met'), by simp⟩
      have fewer : (n.declaredNames s \ (e.qualifiedName :: d.qualifiedName :: visited).toFinset).card + 1 = size := by
        rw [← measure, List.toFinset_cons, Finset.sdiff_insert]
        apply Finset.card_erase_add_one
        simpa using ⟨qualifiedName_mem_of_parent? contained next, by simpa using met'⟩
      obtain ⟨stretch, climb, bound⟩ := ih _ (by omega) (d.qualifiedName :: visited) e rfl
      exact ⟨d :: stretch, .up met next climb, by simp only [List.length_cons]; omega⟩

theorem Climb.fresh {visited : List String} {d : Decl} {stretch : List Decl} (climb : Climb n s visited d stretch) :
    (stretch.map Decl.qualifiedName).Nodup ∧ ∀ name ∈ stretch.map Decl.qualifiedName, name ∉ visited := by
  induction climb with
  | again met => simp
  | top new last => simpa using new
  | up new next rest ih =>
    obtain ⟨nodup, fresh⟩ := ih
    refine ⟨?_, fun name mem => ?_⟩
    · rw [List.map_cons, List.nodup_cons]
      exact ⟨fun mem => fresh _ mem List.mem_cons_self, nodup⟩
    · rcases List.mem_cons.mp mem with rfl | mem
      · exact new
      · exact fun old => fresh name mem (List.mem_cons_of_mem _ old)

theorem Climb.follows {visited : List String} {d : Decl} {stretch : List Decl} (climb : Climb n s visited d stretch) :
    ∀ i < stretch.length, stretch[i]? = n.ancestor? s d i := by
  induction climb with
  | again met => simp
  | top new last => simp [ancestor?]
  | up new next rest ih =>
    intro i inside
    cases i with
    | zero => rfl
    | succ i => simpa [ancestor?_succ, next] using ih i (by simpa using inside)

theorem Climb.longest {visited : List String} {d : Decl} {stretch : List Decl} (climb : Climb n s visited d stretch) :
    ∀ e, n.ancestor? s d stretch.length = some e →
      e.qualifiedName ∈ visited ∨ e.qualifiedName ∈ stretch.map Decl.qualifiedName := by
  induction climb with
  | again met =>
    rintro e here
    exact .inl (Option.some.inj here ▸ met)
  | top new last =>
    intro e beyond
    simp [ancestor?, last] at beyond
  | up new next rest ih =>
    intro e beyond
    rw [List.length_cons, ancestor?_succ, next] at beyond
    rcases ih e beyond with old | inside
    · rcases List.mem_cons.mp old with same | old
      · exact .inr (by simp [same])
      · exact .inl old
    · exact .inr (List.mem_cons_of_mem _ inside)

/-- What a walk up passes that has met nothing before is the lineage of its start. -/
theorem Climb.isLineage {d : Decl} {stretch : List Decl} (climb : Climb n s [] d stretch) :
    n.IsLineage s d stretch where
  follows := climb.follows
  distinct := climb.fresh.1
  longest e beyond := by simpa using climb.longest e beyond

theorem columnsFrom_top {first d : Decl} {visited : List String} (new : d.qualifiedName ∉ visited)
    (last : (n.chain.supertype s d).value = .ok none) (fuel : Nat) :
    n.columnsFrom s first (fuel + 1) visited d = do
      let _ ← n.chain.supertype s d
      return .ok (n.collector.columns d) := by
  simp [columnsFrom, new, bind, last, pure]

theorem columnsFrom_up {first d : Decl} {visited : List String} {p : Placed} (new : d.qualifiedName ∉ visited)
    (next : (n.chain.supertype s d).value = .ok (some p)) (fuel : Nat) :
    n.columnsFrom s first (fuel + 1) visited d = do
      let _ ← n.chain.supertype s d
      let above ← n.columnsFrom s first fuel (d.qualifiedName :: visited) p.decl
      return above.map (n.collector.columns d ++ ·) := by
  simp [columnsFrom, new, bind, next, pure]

/-- More steps than the walk up takes make no difference, and the columns are those of the declarations it passes. -/
theorem Climb.columnsFrom_eq {visited : List String} {d : Decl} {stretch : List Decl} (contained : n.chain.Contained s)
    (first : Decl) (climb : Climb n s visited d stretch) (fuel fuel' : Nat) (enough : stretch.length < fuel)
    (enough' : stretch.length < fuel') :
    n.columnsFrom s first fuel visited d = n.columnsFrom s first fuel' visited d ∧
      (n.columnsFrom s first fuel visited d).value = .ok (stretch.flatMap n.collector.columns) := by
  induction climb generalizing fuel fuel' with
  | again met =>
    obtain ⟨fuel, rfl⟩ := Nat.exists_eq_add_one.mpr enough
    obtain ⟨fuel', rfl⟩ := Nat.exists_eq_add_one.mpr enough'
    simp [columnsFrom, met]
  | @top visited d new last =>
    obtain ⟨fuel, rfl⟩ := Nat.exists_eq_add_one.mpr (Nat.zero_lt_of_lt enough)
    obtain ⟨fuel', rfl⟩ := Nat.exists_eq_add_one.mpr (Nat.zero_lt_of_lt enough')
    obtain ⟨value, parent⟩ := value_supertype_eq contained d
    rw [Option.map_eq_none_iff.mp (parent.symm.trans last)] at value
    simp [columnsFrom_top new value]
  | @up visited d e stretch new next rest ih =>
    obtain ⟨fuel, rfl⟩ := Nat.exists_eq_add_one.mpr (Nat.zero_lt_of_lt enough)
    obtain ⟨fuel', rfl⟩ := Nat.exists_eq_add_one.mpr (Nat.zero_lt_of_lt enough')
    obtain ⟨value, parent⟩ := value_supertype_eq contained d
    obtain ⟨p, finds, rfl⟩ := Option.map_eq_some_iff.mp (parent.symm.trans next)
    rw [finds] at value
    rw [List.length_cons] at enough enough'
    obtain ⟨same, columns⟩ := ih fuel fuel' (by omega) (by omega)
    rw [columnsFrom_up new value, columnsFrom_up new value, same]
    exact ⟨rfl, by simp [← same, columns, Except.map]⟩

/-- The walk up from a declaration: the lineage that it passes, which has at most one declaration more than there are
declared names, and what the search for columns makes of it. -/
theorem exists_lineage (contained : n.chain.Contained s) (d : Decl) :
    ∃ stretch, n.IsLineage s d stretch ∧ stretch.length ≤ 1 + (n.declaredNames s).card ∧
      (n.columns s d).value = .ok (stretch.flatMap n.collector.columns) ∧
      ∀ fuel, stretch.length < fuel → n.columnsFrom s d fuel [] d = n.columns s d := by
  obtain ⟨stretch, climb, bound⟩ := exists_climb contained [] d
  have fewer : stretch.length ≤ 1 + (n.declaredNames s).card :=
    bound.trans (Nat.add_le_add_left (Finset.card_le_card Finset.sdiff_subset) 1)
  have enough : stretch.length < n.heightBound s := by
    have names : (n.declaredNames s).card ≤ n.chain.collector.count s := by
      rw [Collector.count_eq, ← List.length_map]
      exact List.toFinset_card_le _
    rw [heightBound]
    omega
  refine ⟨stretch, climb.isLineage, fewer, (climb.columnsFrom_eq contained d _ _ enough enough).2, fun fuel more => ?_⟩
  exact (climb.columnsFrom_eq contained d fuel _ more enough).1

/-- The columns of a declaration are those of its lineage, level by level, whatever the sources declare. The walk up
passes at most one declaration more than there are declared names; allowing it more steps than it takes changes neither
what it finds nor what it tells. -/
theorem columns_eq_flatMap_lineage (n : Nesting) (s : Store) (contained : n.chain.Contained s) (d : Decl) :
    ∃ stretch, n.IsLineage s d stretch ∧ (∀ other, n.IsLineage s d other → other = stretch) ∧
      stretch.length ≤ 1 + (n.declaredNames s).card ∧
      (n.columns s d).value = .ok (stretch.flatMap n.collector.columns) ∧
      ∀ steps, stretch.length < steps → n.columnsFrom s d steps [] d = n.columns s d := by
  obtain ⟨stretch, lineage, bound, columns, settled⟩ := exists_lineage contained d
  exact ⟨stretch, lineage, fun other is => is.unique lineage, bound, columns, settled⟩

/-- Two classes that extend each other. -/
def mutualSources : Store where
  root := .dir [("A.java", .file (Text.Utf8.encode
    "class A extends B { @Column int x, y; } class B extends A { @Column int x; }".toList))]
  cwd := []

/-- A class that extends one of two classes that extend each other. -/
def belowMutual : Decl :=
  ⟨⟨"C", .classKind, .extensible (some ⟨"A"⟩), none, [], [], none, []⟩, [.field ⟨"z", [⟨"Column", []⟩]⟩]⟩

theorem columns_eq_flatMap_lineage_mutual :
    let n := Nesting.standard "" (.standard .here .java17)
    n.chain.Contained mutualSources ∧ ∃ stretch, n.IsLineage mutualSources belowMutual stretch ∧
      (∀ other, n.IsLineage mutualSources belowMutual other → other = stretch) ∧
      stretch.length ≤ 1 + (n.declaredNames mutualSources).card ∧
      (n.columns mutualSources belowMutual).value = .ok (stretch.flatMap n.collector.columns) ∧
      ∀ steps, stretch.length < steps →
        n.columnsFrom mutualSources belowMutual steps [] belowMutual = n.columns mutualSources belowMutual :=
  ⟨Supertype.Chain.contained_standard _ _ _,
    columns_eq_flatMap_lineage _ _ (Supertype.Chain.contained_standard _ _ _) belowMutual⟩

example : ((Nesting.standard "" (.standard .here .java17)).columns mutualSources belowMutual).value =
    .ok ["z", "x", "y", "x"] := by
  decide +kernel

end EntityAtlas.Nesting
