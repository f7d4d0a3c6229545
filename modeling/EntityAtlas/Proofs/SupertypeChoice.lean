import EntityAtlas.Proofs.ChainSearch
import EntityAtlas.Proofs.DottedNames
import Mathlib.Data.List.Find

/-!
# Which supertype the usual chain finds

The usual chain answers with names, and each name is looked up in a scan of its own. What is found in the end can be
told from one list, all declarations in the order of the walk: the declaration whose name the declaring file states, or
else one with the simple name, in the owner's package if there is one.
-/

namespace EntityAtlas

/-- The first element with a property is the first with a stronger one that it has. -/
theorem find?_eq_of_imp {α : Type} {P Q : α → Bool} {l : List α} {a : α} (first : l.find? P = some a)
    (imp : ∀ b ∈ l, Q b = true → P b = true) (holds : Q a = true) : l.find? Q = some a := by
  obtain ⟨-, before, after, rfl, lacking⟩ := List.find?_eq_some_iff_append.mp first
  refine List.find?_eq_some_iff_append.mpr ⟨holds, before, after, rfl, fun b mem => ?_⟩
  cases other : Q b with
  | false => rfl
  | true => simpa [imp b (List.mem_append_left _ mem) other] using lacking b mem

namespace Supertype

namespace Stage

/-- Of several candidates the first one in the owner's package is chosen, or else the first. -/
theorem choose_eq (owner : Decl) (candidates : List Placed) :
    choose owner candidates =
      (candidates.find? fun p => packageOf p.decl.qualifiedName == owner.head.package.getD "").or candidates.head? := by
  match candidates with
  | [] => rfl
  | [only] =>
    simp only [choose, List.find?_cons, List.find?_nil, List.head?_cons]
    split <;> rfl
  | _ :: _ :: _ => rfl

end Stage

section

variable {c : Collector} {s : Store} {d : Decl} {ref : TypeRef}

/-- Whether a declaration has a simple name and the package of an owner; no package is the same as an empty one. -/
def isBeside (owner : Decl) (name : String) (p : Placed) : Bool :=
  p.decl.name == name && p.decl.head.package.getD "" == owner.head.package.getD ""

/-- Of the declarations with a simple name, the first in the owner's package, or else the first. -/
def besideOrFirst (all : List Placed) (owner : Decl) (name : String) : Option Placed :=
  (all.find? (isBeside owner name)).or (all.find? fun p => p.decl.name == name)

theorem choose_filter (name : String) :
    Stage.choose d ((c.declared s).filter fun p => p.decl.name == name) = besideOrFirst (c.declared s) d name := by
  rw [Stage.choose_eq, besideOrFirst, List.find?_filter, List.head?_filter]
  congr 1
  apply List.find?_congr
  intro p mem
  rw [isBeside, Decl.packageOf_qualifiedName (c.isSegment_of_mem_declaredBelow s mem).2, Bool.decide_and,
    Bool.decide_eq_true, Bool.decide_eq_true]

/-- Looking up the qualified name of the declaration that was chosen gives this declaration again. -/
theorem named?_of_besideOrFirst (listed : (c.listing s "").fault = none) {name : String} {p : Placed}
    (chosen : besideOrFirst (c.declared s) d name = some p) : c.named? s p.decl.qualifiedName = some p := by
  have same : ∀ a ∈ c.declared s, ∀ b ∈ c.declared s, b.decl.qualifiedName == a.decl.qualifiedName →
      b.decl.name = a.decl.name ∧ b.decl.head.package.getD "" = a.decl.head.package.getD "" :=
    fun a memA b memB eq => (Decl.qualifiedName_eq_iff (c.isSegment_of_mem_declaredBelow s memB).2
      (c.isSegment_of_mem_declaredBelow s memA).2).mp (by simpa using eq)
  simp only [Collector.named?, listed]
  rcases Option.or_eq_some_iff.mp chosen with beside | ⟨-, first⟩
  · refine find?_eq_of_imp beside (fun b mem eq => ?_) (by simp)
    obtain ⟨names, packages⟩ := same p (List.mem_of_find?_eq_some beside) b mem eq
    have holds := List.find?_some beside
    simpa [isBeside, names, packages] using holds
  · refine find?_eq_of_imp first (fun b mem eq => ?_) (by simp)
    obtain ⟨names, -⟩ := same p (List.mem_of_find?_eq_some first) b mem eq
    have holds := List.find?_some first
    simpa [names] using holds

theorem name_of_besideOrFirst {all : List Placed} {name : String} {p : Placed}
    (chosen : besideOrFirst all d name = some p) : p ∈ all ∧ p.decl.name = name := by
  rcases Option.or_eq_some_iff.mp chosen with beside | ⟨-, first⟩
  · have holds := List.find?_some beside
    simp only [isBeside, Bool.and_eq_true, beq_iff_eq] at holds
    exact ⟨List.mem_of_find?_eq_some beside, holds.1⟩
  · exact ⟨List.mem_of_find?_eq_some first, by simpa using List.find?_some first⟩

theorem besideOrFirst_eq_none_iff {all : List Placed} {name : String} :
    besideOrFirst all d name = none ↔ ∀ p ∈ all, p.decl.name ≠ name := by
  constructor
  · intro nothing p mem named
    have first := (Option.or_eq_none_iff.mp nothing).2
    simpa [named] using List.find?_eq_none.mp first p mem
  · intro other
    refine Option.or_eq_none_iff.mpr ⟨?_, ?_⟩
    · exact List.find?_eq_none.mpr fun p mem => by simp [isBeside, other p mem]
    · exact List.find?_eq_none.mpr fun p mem => by simp [other p mem]

/-- An empty answer counts as none, and no declaration would be found for it. -/
theorem bind_filter_named? (name : Option String) :
    (name.filter (· != "")).bind (c.named? s) = name.bind (c.named? s) := by
  cases name with
  | none => rfl
  | some name =>
    by_cases empty : name = ""
    · have unknown : c.named? s name = none := by
        cases found : c.named? s name with
        | none => rfl
        | some p =>
          obtain ⟨mem, is⟩ := Collector.mem_declared_of_named? found
          exact absurd (is.trans empty) (Decl.qualifiedName_ne_empty (c.isSegment_of_mem_declaredBelow s mem).1)
      simp [empty] at unknown ⊢
      exact unknown.symm
    · simp [Option.filter, empty]

theorem answer_imports : Stage.imports.answer s ref d = (Stage.stated? ref d).filter (· != "") := rfl

theorem answer_sourceScan (listed : (c.listing s "").fault = none) :
    (Stage.sourceScan c).answer s ref d =
      ((besideOrFirst (c.declared s) d ref.simpleName).map (·.decl.qualifiedName)).filter (· != "") := by
  simp [Stage.answer, Stage.sourceScan, Logged.value_bind, Collector.value_findSimple, listed, choose_filter]

theorem answer_synthesized (package : String) :
    (Stage.synthesized package).answer s ref d = (some (Stage.synthesizedName package ref)).filter (· != "") := rfl

/-- A declaration that is found under a name which ends with a simple name has this simple name. -/
theorem name_of_named? {name : String} {p : Placed} (found : c.named? s name = some p) :
    p.decl.name = Text.lastPiece '.' name := by
  obtain ⟨mem, is⟩ := Collector.mem_declared_of_named? found
  rw [← is, Decl.lastPiece_qualifiedName (c.isSegment_of_mem_declaredBelow s mem).2]

/-- A chain that first asks for what the declaring file states and then scans the sources finds the declaration of the
stated name, or else one with the simple name; later stages, which answer names that end with the simple name, add
nothing. -/
theorem found_of_stages (listed : (c.listing s "").fault = none) (extended : d.supertype? = some ref)
    (more : List Stage)
    (ends : ∀ stage ∈ more, ∀ name ∈ stage.answer s ref d, Text.lastPiece '.' name = ref.simpleName) :
    (Chain.mk c (.imports :: .sourceScan c :: more)).found s d =
      ((Stage.stated? ref d).bind (c.named? s)).or (besideOrFirst (c.declared s) d ref.simpleName) := by
  have stated : (Stage.imports.answer s ref d).bind (c.named? s) = (Stage.stated? ref d).bind (c.named? s) := by
    rw [answer_imports, bind_filter_named?]
  have scanned : ((Stage.sourceScan c).answer s ref d).bind (c.named? s) =
      besideOrFirst (c.declared s) d ref.simpleName := by
    rw [answer_sourceScan listed, bind_filter_named?]
    cases chosen : besideOrFirst (c.declared s) d ref.simpleName with
    | none => rfl
    | some p => exact named?_of_besideOrFirst listed chosen
  have nothing (unnamed : besideOrFirst (c.declared s) d ref.simpleName = none) :
      (more.findSome? fun stage => (stage.answer s ref d).bind (c.named? s)) = none := by
    refine List.findSome?_eq_none_iff.mpr fun stage mem => Option.bind_eq_none_iff.mpr fun name answers => ?_
    cases found : c.named? s name with
    | none => rfl
    | some p =>
      have is := (name_of_named? found).trans (ends stage mem name answers)
      exact absurd is (besideOrFirst_eq_none_iff.mp unnamed p (Collector.mem_declared_of_named? found).1)
  simp only [Chain.found, extended, Option.bind_some, List.findSome?_cons, stated, scanned]
  cases (Stage.stated? ref d).bind (c.named? s) with
  | some p => rfl
  | none =>
    cases chosen : besideOrFirst (c.declared s) d ref.simpleName with
    | some p => rfl
    | none => exact nothing chosen

/-- Whatever is found has the simple name. -/
theorem name_of_choice {p : Placed}
    (chosen : ((Stage.stated? ref d).bind (c.named? s)).or (besideOrFirst (c.declared s) d ref.simpleName) = some p) :
    p.decl.name = ref.simpleName := by
  rcases Option.or_eq_some_iff.mp chosen with stated | ⟨-, scanned⟩
  · obtain ⟨name, states, found⟩ := Option.bind_eq_some_iff.mp stated
    exact (name_of_named? found).trans (Stage.lastPiece_stated? states)
  · exact (name_of_besideOrFirst scanned).2

/-- Nothing is found just when nothing has the simple name. -/
theorem choice_eq_none_iff :
    ((Stage.stated? ref d).bind (c.named? s)).or (besideOrFirst (c.declared s) d ref.simpleName) = none ↔
      ∀ p ∈ c.declared s, p.decl.name ≠ ref.simpleName := by
  constructor
  · intro nothing
    exact besideOrFirst_eq_none_iff.mp (Option.or_eq_none_iff.mp nothing).2
  · intro other
    refine Option.or_eq_none_iff.mpr ⟨Option.bind_eq_none_iff.mpr fun name states => ?_, ?_⟩
    · cases found : c.named? s name with
      | none => rfl
      | some p =>
        have is := (name_of_named? found).trans (Stage.lastPiece_stated? states)
        exact absurd is (other p (Collector.mem_declared_of_named? found).1)
    · exact besideOrFirst_eq_none_iff.mpr other

theorem value_extract_all (c : Collector) (s : Store) :
    (c.extract s "" fun _ => true).value = match (c.listing s "").fault with
      | none => .ok (c.declared s)
      | some f => .error ⟨"", c.sources, f⟩ := by
  rw [Collector.value_extract, Collector.declared, List.filter_true]
  rfl

/-- Without the stage that takes the supertype to be in the scanned package nothing else is found. -/
theorem found_standard_eq (package : String) (extended : d.supertype? = some ref) :
    (Chain.standard c package).found s d = (Chain.mk c [.imports, .sourceScan c]).found s d := by
  cases listed : (c.listing s "").fault with
  | none =>
    rw [Chain.standard, found_of_stages listed extended, found_of_stages listed extended]
    · simp
    · rintro stage mem name answers
      rw [List.mem_singleton.mp mem, answer_synthesized] at answers
      rw [← Option.some.inj (Option.filter_eq_some_iff.mp answers).1]
      exact Stage.lastPiece_synthesizedName package ref
  | some f =>
    have unknown : c.named? s = fun _ => none := by
      funext name
      simp [Collector.named?, listed]
    simp [Chain.found, Chain.standard, extended, unknown]

end

/-- What the usual chain finds for a declaration that extends a type. If the source directory can be listed, it is the
first declaration of the name that the declaring file states, or else the first one with the simple name in the owner's
package, or else the first one with the simple name; otherwise it is none. The stage that takes the supertype to be in
the scanned package is of no account. -/
theorem supertype_standard (c : Collector) (package : String) (s : Store) {d : Decl} {ref : TypeRef}
    (extended : d.supertype? = some ref) :
    (∀ all, (c.extract s "" fun _ => true).value = .ok all →
      ((Chain.standard c package).supertype s d).value =
          .ok (((Stage.stated? ref d).bind fun name => all.find? fun p => p.decl.qualifiedName == name).or
            (besideOrFirst all d ref.simpleName)) ∧
        (∀ p, ((Chain.standard c package).supertype s d).value = .ok (some p) → p.decl.name = ref.simpleName) ∧
        (((Chain.standard c package).supertype s d).value = .ok none ↔ ∀ p ∈ all, p.decl.name ≠ ref.simpleName)) ∧
    (∀ e, (c.extract s "" fun _ => true).value = .error e →
      ((Chain.standard c package).supertype s d).value = .ok none) ∧
    ((Chain.mk c [.imports, .sourceScan c]).supertype s d).value =
      ((Chain.standard c package).supertype s d).value := by
  have contained := Chain.contained_standard c package s
  have contained' : (Chain.mk c [.imports, .sourceScan c]).Contained s := by
    intro stage mem
    refine contained stage ?_
    rcases List.mem_cons.mp mem with rfl | mem
    · simp [Chain.standard]
    · simp [Chain.standard, List.mem_singleton.mp mem]
  have shorter := found_standard_eq (c := c) (s := s) package extended
  rw [Chain.value_supertype contained, Chain.value_supertype contained', shorter, value_extract_all]
  cases listed : (c.listing s "").fault with
  | none =>
    have found := found_of_stages listed extended [] (by simp)
    have named : c.named? s = fun name => (c.declared s).find? fun p => p.decl.qualifiedName == name := by
      funext name
      simp [Collector.named?, listed]
    refine ⟨fun all is => ?_, by simp, rfl⟩
    cases is
    rw [found]
    refine ⟨by rw [named], fun p chosen => ?_, ?_⟩
    · exact name_of_choice (Except.ok.inj chosen)
    · rw [Except.ok.injEq, choice_eq_none_iff]
  | some f =>
    have unknown : c.named? s = fun _ => none := by
      funext name
      simp [Collector.named?, listed]
    refine ⟨by simp, fun e _ => ?_, rfl⟩
    simp [Chain.found, extended, unknown]

/-- Two classes of one name, the first of them inside another class. -/
def twinSources : Store where
  root := .dir [("A.java", .file (Text.Utf8.encode "class A { class B { } } class B { }".toList))]
  cwd := []

/-- A class in a package of its own that extends one of two classes. -/
def twinOwner : Decl :=
  ⟨⟨"C", .classKind, .extensible (some ⟨"B"⟩), some "p", [], [], none, []⟩, []⟩

theorem supertype_standard_twins :
    let c := Collector.standard .here .java17
    let scanned := (c.extract twinSources "" fun _ => true).value
    let found := ((Chain.standard c "p").supertype twinSources twinOwner).value
    twinOwner.supertype? = some ⟨"B"⟩ ∧
      (scanned.toOption.map fun all => all.map (·.trail)) = some [[0], [0, 0], [1]] ∧
      (found.toOption.map fun p => p.map (·.trail)) = some (some [0, 0]) ∧
      (∀ all, scanned = .ok all →
        found = .ok (((Stage.stated? ⟨"B"⟩ twinOwner).bind fun name =>
            all.find? fun p => p.decl.qualifiedName == name).or (besideOrFirst all twinOwner "B")) ∧
          (∀ p, found = .ok (some p) → p.decl.name = "B") ∧ (found = .ok none ↔ ∀ p ∈ all, p.decl.name ≠ "B")) ∧
      (∀ e, scanned = .error e → found = .ok none) ∧
      ((Chain.mk c [.imports, .sourceScan c]).supertype twinSources twinOwner).value = found :=
  ⟨rfl, by decide +kernel, by decide +kernel,
    supertype_standard (.standard .here .java17) "p" twinSources rfl⟩

end Supertype

end EntityAtlas
