import EntityAtlas.Nesting
import EntityAtlas.Proofs.Scanning

/-!
# Scans that are stopped

A scan is stopped by the first file of its walk whose declarations lie too deep inside one another, and by nothing else.
What a scan does depends only on the walk, on the texts of the files that are listed, and on the machine; so what comes
of it in two stores that agree in these is the same, the log and what stops it included.
-/

namespace EntityAtlas

namespace Collector

variable (c : Collector) (s : Store)

/-- Whether a file can be read and declares what lies too deep. -/
def stopsAt (p : Path) : Bool :=
  (c.readUnit s p).value.any (c.isTooDeep s.machine)

/-- A file stops scans just where a lenient reader takes what stands in it and finds declarations that lie deeper inside
one another than the machine bears. -/
theorem stopsAt_iff {p : Path} : c.stopsAt s p = true ↔ c.level.reader ≠ .strict ∧ ∃ cs outline,
    s.readText p = .ok cs ∧ Java.Outline.ofSource c.parser c.level (some p.text) cs = .ok outline ∧
      s.machine.depth < outline.unit.depth := by
  rw [stopsAt, readUnit, Logged.value_bind]
  cases s.readText p with
  | error f => simp
  | ok cs =>
    cases read : Java.Outline.ofSource c.parser c.level (some p.text) cs with
    | error f => simp [read]
    | ok outline => simp [read, isTooDeep]

theorem stop_tellProblems (p : Path) (problems : List Java.Problem) : (tellProblems p problems).stop = none := by
  induction problems with
  | nil => rfl
  | cons problem rest ih => simp [tellProblems, ih]

theorem stop_readUnit (p : Path) : (c.readUnit s p).stop = if c.stopsAt s p then some ⟨p.text⟩ else none := by
  rw [stopsAt, readUnit, Logged.value_bind, Logged.stop_bind, Logged.stop_write, Option.none_or]
  cases s.readText p with
  | error f => simp [complain]
  | ok cs =>
    cases read : Java.Outline.ofSource c.parser c.level (some p.text) cs with
    | error f => simp [read, complain]
    | ok outline =>
      by_cases deep : c.isTooDeep s.machine outline.unit = true
      · simp [read, checkDepth, deep, Logged.stopWith]
      · simp [read, checkDepth, deep, stop_tellProblems]

theorem stop_declarationsInAll (ps : List Path) :
    (c.declarationsInAll s ps).stop = (ps.find? (c.stopsAt s)).map fun p => ⟨p.text⟩ := by
  induction ps with
  | nil => rfl
  | cons p ps ih =>
    have first : (c.declarationsIn s p).stop = if c.stopsAt s p then some ⟨p.text⟩ else none := by
      rw [declarationsIn, Logged.stop_bind, stop_readUnit]
      cases (c.readUnit s p).value <;> simp
    rw [declarationsInAll, Logged.stop_bind, Logged.stop_bind, first, ih]
    by_cases deep : c.stopsAt s p = true
    · simp [deep]
    · simp [deep]

/-- A scan is stopped at the first file that stops it. -/
theorem stop_extract (package : String) (wanted : Decl → Bool) :
    (c.extract s package wanted).stop = ((c.listing s package).files.find? (c.stopsAt s)).map fun p => ⟨p.text⟩ := by
  simp only [extract, Logged.stop_bind, Logged.stop_write, Option.none_or, stop_declarationsInAll, listing]
  cases (s.findFiles c.ending (c.directory package)).fault <;> simp

end Collector

section Congruence

variable {s s' : Store}

namespace Collector

variable {c : Collector}

theorem readUnit_congr (machine : s'.machine = s.machine) {p : Path} (same : s'.readText p = s.readText p) :
    c.readUnit s' p = c.readUnit s p := by
  simp only [readUnit, same, machine]

theorem stopsAt_congr (machine : s'.machine = s.machine) {p : Path} (same : s'.readText p = s.readText p) :
    c.stopsAt s' p = c.stopsAt s p := by
  rw [stopsAt, stopsAt, readUnit_congr machine same, machine]

theorem declarationsInAll_congr (machine : s'.machine = s.machine) {ps : List Path}
    (same : ∀ p ∈ ps, s'.readText p = s.readText p) : c.declarationsInAll s' ps = c.declarationsInAll s ps := by
  induction ps with
  | nil => rfl
  | cons p ps ih =>
    obtain ⟨first, same⟩ := List.forall_mem_cons.mp same
    simp only [declarationsInAll, declarationsIn, readUnit_congr machine first, ih same]

/-- What is below a directory reads the same in two stores. -/
structure SeesAlike (c : Collector) (s s' : Store) (package : String) : Prop where
  machine : s'.machine = s.machine
  listing : c.listing s' package = c.listing s package
  texts : ∀ p ∈ (c.listing s package).files, s'.readText p = s.readText p

namespace SeesAlike

variable {package : String}

theorem extract_eq (alike : c.SeesAlike s s' package) (wanted : Decl → Bool) :
    c.extract s' package wanted = c.extract s package wanted := by
  have listing : s'.findFiles c.ending (c.directory package) = s.findFiles c.ending (c.directory package) :=
    alike.listing
  have found : c.declarationsInAll s' (s.findFiles c.ending (c.directory package)).files =
      c.declarationsInAll s (s.findFiles c.ending (c.directory package)).files :=
    declarationsInAll_congr alike.machine alike.texts
  simp only [extract, listing, found]

theorem entities_eq (alike : c.SeesAlike s s' package) : c.entities s' package = c.entities s package := by
  rw [entities, entities, alike.extract_eq]

theorem findQualified_eq (alike : c.SeesAlike s s' "") (name : String) :
    c.findQualified s' name = c.findQualified s name := by
  rw [findQualified, findQualified, alike.extract_eq]

theorem findSimple_eq (alike : c.SeesAlike s s' "") (name : String) : c.findSimple s' name = c.findSimple s name :=
  alike.extract_eq _

theorem declaredBelow_eq (alike : c.SeesAlike s s' package) :
    c.declaredBelow s' package = c.declaredBelow s package := by
  rw [declaredBelow, declaredBelow, alike.listing, ← value_declarationsInAll, ← value_declarationsInAll,
    declarationsInAll_congr alike.machine alike.texts]

end SeesAlike

end Collector

variable {c : Collector}

namespace Supertype.Chain

/-- The usual stages propose alike. -/
theorem propose_congr (alike : c.SeesAlike s s' "") {package : String} {stage : Stage}
    (mem : stage ∈ (standard c package).stages) (ref : TypeRef) (owner : Decl) :
    stage.propose s' ref owner = stage.propose s ref owner := by
  simp only [standard, List.mem_cons, List.not_mem_nil, or_false] at mem
  rcases mem with rfl | rfl | rfl
  · rfl
  · simp only [Stage.sourceScan, alike.findSimple_eq]
  · rfl

theorem search_congr (alike : c.SeesAlike s s' "") {stages : List Stage} {ref : TypeRef} {owner : Decl}
    (same : ∀ stage ∈ stages, stage.propose s' ref owner = stage.propose s ref owner) (tried : List String) :
    search c s' ref owner stages tried = search c s ref owner stages tried := by
  induction stages generalizing tried with
  | nil => rfl
  | cons stage stages ih =>
    obtain ⟨first, same⟩ := List.forall_mem_cons.mp same
    simp only [search, proposal, first, lookUp, alike.findQualified_eq, ih same]

theorem supertype_congr (alike : c.SeesAlike s s' "") (package : String) (d : Decl) :
    (standard c package).supertype s' d = (standard c package).supertype s d := by
  unfold supertype
  split
  · rfl
  · exact search_congr alike (fun stage mem => propose_congr alike mem _ _) []

end Supertype.Chain

namespace Nesting

theorem columnsFrom_congr (alike : c.SeesAlike s s' "") (package : String) (first : Decl) (fuel : Nat)
    (visited : List String) (d : Decl) :
    (standard package c).columnsFrom s' first fuel visited d =
      (standard package c).columnsFrom s first fuel visited d := by
  induction fuel generalizing visited d with
  | zero => rfl
  | succ fuel ih =>
    have next : (standard package c).chain.supertype s' d = (standard package c).chain.supertype s d :=
      Supertype.Chain.supertype_congr alike _ d
    simp only [columnsFrom, ih, next]

theorem allColumns_congr (alike : c.SeesAlike s s' "") (package : String) (height : Nat) (ps : List Placed) :
    (standard package c).allColumns s' height ps = (standard package c).allColumns s height ps := by
  induction ps with
  | nil => rfl
  | cons p ps ih => simp only [allColumns, columnsFrom_congr alike, ih]

/-- A scan of two stores comes to the same where the package and the whole sources read the same. -/
theorem scan_eq_of_seesAlike {package : String} (alike : c.SeesAlike s s' (Package.normalize package))
    (whole : c.SeesAlike s s' "") : (standard package c).scan s' = (standard package c).scan s := by
  have height : (standard package c).heightBound s' = (standard package c).heightBound s := by
    have count : c.count s' = c.count s := by
      rw [Collector.count_eq, Collector.count_eq]
      exact congrArg List.length whole.declaredBelow_eq
    exact congrArg (· + 2) count
  have entities : (standard package c).collector.entities s' (standard package c).package =
      (standard package c).collector.entities s (standard package c).package :=
    alike.entities_eq
  rw [scan, scan, entities, height]
  simp only [allColumns_congr whole]

end Nesting

end Congruence

end EntityAtlas
