import EntityAtlas.Proofs.Scanning
import EntityAtlas.Supertype.Chain

/-!
# What the search of a chain comes to

A chain whose stages fail in no other way than a search passes over always comes to an end without a failure, and finds
the first declaration that the answer of a stage names, stage by stage. Names that were tried before are of no account:
they name nothing.
-/

namespace EntityAtlas

/-- The first declaration with a qualified name below the source directory, if that can be listed. -/
def Collector.named? (c : Collector) (s : Store) (name : String) : Option Placed :=
  match (c.listing s "").fault with
  | none => (c.declared s).find? fun p => p.decl.qualifiedName == name
  | some _ => none

theorem Collector.mem_declared_of_named? {c : Collector} {s : Store} {name : String} {p : Placed}
    (found : c.named? s name = some p) : p ∈ c.declared s ∧ p.decl.qualifiedName = name := by
  unfold named? at found
  split at found
  · exact ⟨List.mem_of_find?_eq_some found, by simpa using List.find?_some found⟩
  · cases found

namespace Supertype

/-- The name that a stage answers; an empty one and a failure count as none. -/
def Stage.answer (stage : Stage) (s : Store) (ref : TypeRef) (owner : Decl) : Option String :=
  match (stage.propose s ref owner).value with
  | .ok name => name.filter (· != "")
  | .error _ => none

/-- The stages fail at most in ways that a search passes over. -/
def Chain.Contained (c : Chain) (s : Store) : Prop :=
  ∀ stage ∈ c.stages, ∀ ref owner f, (stage.propose s ref owner).value = .error f → f.isPassedOver = true

namespace Chain

theorem value_lookUp (c : Collector) (s : Store) (stage : Stage) (ref : TypeRef) (owner : Decl) (name : String) :
    (lookUp c s stage ref owner name).value = c.named? s name := by
  simp only [lookUp, Collector.named?, Logged.value_bind, Collector.value_findQualified]
  cases (c.listing s "").fault with
  | some f => rfl
  | none =>
    dsimp only
    cases (c.declared s).find? fun p => p.decl.qualifiedName == name <;> rfl

theorem value_proposal {stage : Stage} {s : Store} {ref : TypeRef} {owner : Decl}
    (contained : ∀ f, (stage.propose s ref owner).value = .error f → f.isPassedOver = true) :
    (proposal stage s ref owner).value = .ok (stage.answer s ref owner) := by
  simp only [proposal, Stage.answer, Logged.value_bind]
  cases outcome : (stage.propose s ref owner).value with
  | ok name => rfl
  | error f => simp [contained f outcome]

/-- A search finds the first declaration that the answer of a stage names. The invariant of the names that were tried is
that they name nothing, which makes passing them over the same as looking them up again. -/
theorem value_search {c : Collector} {s : Store} {ref : TypeRef} {owner : Decl} :
    ∀ (stages : List Stage) (tried : List String),
      (∀ stage ∈ stages, ∀ f, (stage.propose s ref owner).value = .error f → f.isPassedOver = true) →
      (∀ name ∈ tried, c.named? s name = none) →
      (search c s ref owner stages tried).value =
        .ok (stages.findSome? fun stage => (stage.answer s ref owner).bind (c.named? s)) := by
  intro stages
  induction stages with
  | nil => intro tried _ _; rfl
  | cons stage stages ih =>
    intro tried contained unknown
    have rest := fun tried => ih tried fun stage' mem => contained stage' (List.mem_cons_of_mem _ mem)
    simp only [search, Logged.value_bind, value_proposal (contained stage List.mem_cons_self), List.findSome?_cons]
    cases stage.answer s ref owner with
    | none => simpa using rest tried unknown
    | some name =>
      simp only [Option.bind_some]
      by_cases again : name ∈ tried
      · simpa [again, unknown name again] using rest tried unknown
      · simp only [List.contains_eq_mem, again, decide_false, Bool.false_eq_true, ↓reduceIte, Logged.value_bind,
          value_lookUp]
        cases found : c.named? s name with
        | some p => rfl
        | none =>
          apply rest
          intro other mem
          rcases List.mem_cons.mp mem with rfl | mem
          · exact found
          · exact unknown other mem

/-- The supertype of a declaration as the stages find it. -/
def found (c : Chain) (s : Store) (d : Decl) : Option Placed :=
  d.supertype?.bind fun ref => c.stages.findSome? fun stage => (stage.answer s ref d).bind (c.collector.named? s)

/-- When the source directory cannot be listed, nothing is found. -/
theorem found_of_fault {c : Chain} {s : Store} {f : Fault} (listed : (c.collector.listing s "").fault = some f)
    (d : Decl) : c.found s d = none := by
  have unknown : c.collector.named? s = fun _ => none := by
    funext name
    simp [Collector.named?, listed]
  simp [found, unknown]

theorem value_supertype {c : Chain} {s : Store} (contained : c.Contained s) (d : Decl) :
    (c.supertype s d).value = .ok (c.found s d) := by
  unfold supertype found
  cases d.supertype? with
  | none => rfl
  | some ref =>
    simp only [Option.bind_some]
    exact value_search c.stages [] (fun stage mem => contained stage mem ref d) (by simp)

/-- What is found is declared below the source directory. -/
theorem mem_declared_of_found {c : Chain} {s : Store} {d : Decl} {p : Placed} (finds : c.found s d = some p) :
    p ∈ c.collector.declared s := by
  obtain ⟨ref, -, finds⟩ := Option.bind_eq_some_iff.mp finds
  obtain ⟨stage, -, finds⟩ := List.exists_of_findSome?_eq_some finds
  obtain ⟨name, -, finds⟩ := Option.bind_eq_some_iff.mp finds
  exact (Collector.mem_declared_of_named? finds).1

/-- The stages of the usual chain fail only when a directory cannot be listed. -/
theorem contained_standard (c : Collector) (package : String) (s : Store) : (standard c package).Contained s := by
  intro stage mem ref owner f fails
  simp only [standard, List.mem_cons, List.not_mem_nil, or_false] at mem
  rcases mem with rfl | rfl | rfl
  · cases fails
  · simp only [Stage.sourceScan, Logged.value_bind, Collector.value_findSimple] at fails
    cases h : (c.listing s "").fault with
    | none => simp [h] at fails
    | some fault =>
      simp only [h, Logged.value_pure, Except.error.injEq] at fails
      exact fails ▸ rfl
  · cases fails

end Chain

end Supertype

end EntityAtlas
