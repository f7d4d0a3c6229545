import EntityAtlas.Proofs.ChainSearch

/-!
# The first stage that succeeds

A search hands each name on to a look-up of its own, passes over failures and skips names that were tried. What it
finds can be told without any of that: it is what the first stage comes to that comes to a declaration at all. A stage
that comes to none may therefore stand anywhere in a chain.
-/

namespace EntityAtlas.Supertype

namespace Stage

section

variable (stage : Stage) (c : Collector) (s : Store) (ref : TypeRef) (owner : Decl)

/-- The declaration that a stage comes to, if the stage answers a name that is not empty and a look-up of the name finds
a declaration. A stage that fails comes to none, and so does one whose name cannot be looked up. -/
def success? : Option Placed :=
  match (stage.propose s ref owner).value with
  | .error _ => none
  | .ok none => none
  | .ok (some name) =>
    if name = "" then none
    else match (c.findQualified s name).value with
      | .error _ => none
      | .ok found => found

/-- The stage fails in a way that a search passes over, or it passes, or it names nothing that is found. -/
inductive IsIdle : Prop where
  | fails {f : StageFailure} (failed : (stage.propose s ref owner).value = .error f) (passed : f.isPassedOver = true)
  | passes (answered : (stage.propose s ref owner).value = .ok none)
  | unknown {name : String} (answered : (stage.propose s ref owner).value = .ok (some name))
    (nothing : ∀ p, (c.findQualified s name).value ≠ .ok (some p))

end

variable {stage : Stage} {c : Collector} {s : Store} {ref : TypeRef} {owner : Decl}

theorem IsIdle.success?_eq (idle : stage.IsIdle c s ref owner) : stage.success? c s ref owner = none := by
  cases idle with
  | fails failed => simp [success?, failed]
  | passes answered => simp [success?, answered]
  | @unknown name answered nothing =>
    simp only [success?, answered]
    split
    · rfl
    · cases looked : (c.findQualified s name).value with
      | error e => rfl
      | ok found =>
        cases found with
        | none => rfl
        | some p => exact absurd looked (nothing p)

theorem IsIdle.isPassedOver (idle : stage.IsIdle c s ref owner) :
    ∀ f, (stage.propose s ref owner).value = .error f → f.isPassedOver = true := by
  intro f fails
  cases idle with
  | fails failed passed =>
    obtain rfl := Except.error.inj (failed.symm.trans fails)
    exact passed
  | passes answered => cases answered.symm.trans fails
  | unknown answered => cases answered.symm.trans fails

/-- What is found under a name is what a look-up of it finds. -/
theorem named?_eq (name : String) :
    c.named? s name = match (c.findQualified s name).value with
      | .error _ => none
      | .ok found => found := by
  rw [Collector.named?, Collector.value_findQualified]
  cases (c.listing s "").fault <;> rfl

theorem success?_eq_bind_answer :
    stage.success? c s ref owner = (stage.answer s ref owner).bind (c.named? s) := by
  simp only [success?, answer]
  cases (stage.propose s ref owner).value with
  | error f => rfl
  | ok name =>
    cases name with
    | none => rfl
    | some name =>
      by_cases empty : name = ""
      · simp [empty, Option.filter]
      · simp [empty, Option.filter, named?_eq]

end Stage

namespace Chain

/-- Asked for a reference, the stages fail at most in ways that a search passes over. -/
def PassesOver (s : Store) (ref : TypeRef) (owner : Decl) (stages : List Stage) : Prop :=
  ∀ stage ∈ stages, ∀ f, (stage.propose s ref owner).value = .error f → f.isPassedOver = true

/-- A search that looks up every name, also one that was tried before. -/
def searchAll (c : Collector) (s : Store) (ref : TypeRef) (owner : Decl) :
    List Stage → Logged (Except StageFailure (Option Placed))
  | [] => return .ok none
  | stage :: stages => do
    match ← proposal stage s ref owner with
    | .error f => return .error f
    | .ok none => searchAll c s ref owner stages
    | .ok (some name) =>
      match ← lookUp c s stage ref owner name with
      | some p => return .ok (some p)
      | none => searchAll c s ref owner stages

variable {c : Collector} {s : Store} {ref : TypeRef} {owner : Decl} {stages : List Stage}

/-- A search comes to what the first stage comes to that comes to a declaration. -/
theorem value_search_eq_findSome? (contained : PassesOver s ref owner stages) :
    (search c s ref owner stages []).value = .ok (stages.findSome? (Stage.success? · c s ref owner)) := by
  rw [value_search stages [] contained (by simp)]
  simp only [Stage.success?_eq_bind_answer]

/-- Looking up names again makes no difference. -/
theorem value_searchAll (contained : PassesOver s ref owner stages) :
    (searchAll c s ref owner stages).value = (search c s ref owner stages []).value := by
  rw [value_search_eq_findSome? contained]
  induction stages with
  | nil => rfl
  | cons stage stages ih =>
    have rest := ih fun stage' mem => contained stage' (List.mem_cons_of_mem _ mem)
    simp only [searchAll, Logged.value_bind, value_proposal (contained stage List.mem_cons_self), List.findSome?_cons,
      stage.success?_eq_bind_answer]
    cases stage.answer s ref owner with
    | none => exact rest
    | some name =>
      simp only [Logged.value_bind, value_lookUp, Option.bind_some]
      cases c.named? s name with
      | some p => rfl
      | none => exact rest

/-- A stage that comes to nothing makes no difference, wherever it stands. -/
theorem value_search_of_idle {stage : Stage} {before after : List Stage}
    (contained : PassesOver s ref owner (before ++ after)) (idle : stage.IsIdle c s ref owner) :
    (search c s ref owner (before ++ stage :: after) []).value = (search c s ref owner (before ++ after) []).value := by
  have contained' : PassesOver s ref owner (before ++ stage :: after) := by
    intro stage' mem
    rcases List.mem_append.mp mem with mem | mem
    · exact contained stage' (List.mem_append_left _ mem)
    · rcases List.mem_cons.mp mem with rfl | mem
      · exact idle.isPassedOver
      · exact contained stage' (List.mem_append_right _ mem)
  rw [value_search_eq_findSome? contained, value_search_eq_findSome? contained', List.findSome?_append,
    List.findSome?_append, List.findSome?_cons, idle.success?_eq]

/-- The name for a reference is the first answer. -/
theorem value_firstName (contained : PassesOver s ref owner stages) :
    (firstName s ref owner stages).value = .ok (stages.findSome? (Stage.answer · s ref owner)) := by
  induction stages with
  | nil => rfl
  | cons stage stages ih =>
    simp only [firstName, Logged.value_bind, value_proposal (contained stage List.mem_cons_self), List.findSome?_cons]
    cases stage.answer s ref owner with
    | some name => rfl
    | none => exact ih fun stage' mem => contained stage' (List.mem_cons_of_mem _ mem)

/-- If the first answer names a declaration, the search ends there. -/
theorem value_search_of_firstName {name : String} {p : Placed} (contained : PassesOver s ref owner stages)
    (names : (firstName s ref owner stages).value = .ok (some name)) (found : c.named? s name = some p) :
    (search c s ref owner stages []).value = .ok (some p) := by
  rw [value_firstName contained, Except.ok.injEq] at names
  rw [value_search stages [] contained (by simp), Except.ok.injEq]
  clear contained
  induction stages with
  | nil => cases names
  | cons stage stages ih =>
    rw [List.findSome?_cons] at names ⊢
    cases answered : stage.answer s ref owner with
    | none =>
      rw [answered] at names
      exact ih names
    | some other =>
      rw [answered] at names
      obtain rfl := Option.some.inj names
      simp [found]

/-- What is found for a declaration that extends a type, when stages fail only in ways that a search passes over. It is
what the first stage comes to that comes to a declaration, so it makes no difference that names are not looked up
twice, nor whether a stage that comes to none is there; and if the first name that is answered is the name of a
declaration, it is this declaration. -/
theorem supertype_eq_first_success (chain : Chain) (s : Store) (contained : chain.Contained s) {d : Decl}
    {ref : TypeRef} (extended : d.supertype? = some ref) :
    (chain.supertype s d).value = .ok (chain.stages.findSome? (Stage.success? · chain.collector s ref d)) ∧
      (searchAll chain.collector s ref d chain.stages).value = (chain.supertype s d).value ∧
      (∀ before stage after, chain.stages = before ++ after → stage.IsIdle chain.collector s ref d →
        ((Chain.mk chain.collector (before ++ stage :: after)).supertype s d).value = (chain.supertype s d).value) ∧
      (∀ before stage after, chain.stages = before ++ stage :: after → stage.IsIdle chain.collector s ref d →
        ((Chain.mk chain.collector (before ++ after)).supertype s d).value = (chain.supertype s d).value) ∧
      ∀ name p, (chain.resolveName s ref d).value = .ok (some name) →
        (chain.collector.findQualified s name).value = .ok (some p) → (chain.supertype s d).value = .ok (some p) := by
  have passesOver : PassesOver s ref d chain.stages := fun stage mem => contained stage mem ref d
  have searched (stages : List Stage) :
      (Chain.mk chain.collector stages).supertype s d = search chain.collector s ref d stages [] := by
    rw [supertype, extended]
  have here : chain.supertype s d = search chain.collector s ref d chain.stages [] := searched chain.stages
  rw [here]
  refine ⟨value_search_eq_findSome? passesOver, value_searchAll passesOver, fun before stage after is idle => ?_,
    fun before stage after is idle => ?_, fun name p names looked => ?_⟩
  · rw [searched, is]
    exact value_search_of_idle (is ▸ passesOver) idle
  · have others : PassesOver s ref d (before ++ after) := by
      intro stage' mem
      refine passesOver stage' ?_
      rw [is]
      rcases List.mem_append.mp mem with mem | mem
      · exact List.mem_append_left _ mem
      · exact List.mem_append_right _ (List.mem_cons_of_mem _ mem)
    rw [searched, is]
    exact (value_search_of_idle others idle).symm
  · exact value_search_of_firstName passesOver names (by rw [Stage.named?_eq, looked])

/-- Two classes. -/
def plainSources : Store where
  root := .dir [("A.java", .file (Text.Utf8.encode "class A { } class B { }".toList))]
  cwd := []

/-- A class that extends another one. -/
def plainOwner : Decl :=
  ⟨⟨"C", .classKind, .extensible (some ⟨"Base"⟩), none, [], [], none, []⟩, []⟩

/-- Stages of which the first six come to nothing, for four reasons, and the other two name a class each. -/
def plainStages : List Stage :=
  [.fixed "broken" (.error (.system "disk gone")), .fixed "refused" (.error (.metadata "no answer")),
    .fixed "silent" (.ok none), .fixed "empty" (.ok (some "")), .fixed "stale" (.ok (some "q.A")),
    .fixed "again" (.ok (some "q.A")), .fixed "first" (.ok (some "B")), .fixed "second" (.ok (some "A"))]

theorem supertype_eq_first_success_plain :
    let chain : Chain := ⟨.standard .here .java17, plainStages⟩
    chain.Contained plainSources ∧ plainOwner.supertype? = some ⟨"Base"⟩ ∧
      (Stage.fixed "stale" (.ok (some "q.A"))).IsIdle chain.collector plainSources ⟨"Base"⟩ plainOwner ∧
      ((chain.supertype plainSources plainOwner).value.toOption.map fun found => found.map (·.trail)) =
        some (some [1]) ∧
      ((Chain.mk chain.collector (.fixed "stale" (.ok (some "q.A")) :: plainStages)).supertype
        plainSources plainOwner).value = (chain.supertype plainSources plainOwner).value := by
  intro chain
  have contained : chain.Contained plainSources := by
    intro stage mem ref owner f fails
    simp only [chain, plainStages, List.mem_cons, List.not_mem_nil, or_false] at mem
    rcases mem with rfl | rfl | rfl | rfl | rfl | rfl | rfl | rfl <;> cases fails <;> rfl
  have idle : (Stage.fixed "stale" (.ok (some "q.A"))).IsIdle chain.collector plainSources ⟨"Base"⟩ plainOwner := by
    have nothing : (chain.collector.findQualified plainSources "q.A").value = .ok none := by decide +kernel
    exact .unknown rfl fun p found => by cases nothing.symm.trans found
  obtain ⟨first, -, put, -⟩ := supertype_eq_first_success chain plainSources contained (rfl : plainOwner.supertype? = _)
  refine ⟨contained, rfl, idle, ?_, put [] _ plainStages rfl idle⟩
  rw [first]
  decide +kernel

end Chain

end EntityAtlas.Supertype
