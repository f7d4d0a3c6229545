import EntityAtlas.Collector
import EntityAtlas.Proofs.LenientNames
import EntityAtlas.Proofs.StrictNames

/-!
# Scans without their log

What a scan finds, apart from what it reports: every declaration below a directory that can be listed, file by file. A
question to a collector picks from these declarations, so that all questions about one directory see the same ones in
the same order.
-/

namespace EntityAtlas.Collector

variable (c : Collector) (s : Store)

/-- The walk below the directory of a package. -/
def listing (package : String) : Store.Listing := s.findFiles c.ending (c.directory package)

/-- All declarations of a file, if it can be read. -/
def declaredIn (p : Path) : List Placed := (c.declarationsIn s p).value

/-- All declarations below the directory of a package, as far as it can be listed. -/
def declaredBelow (package : String) : List Placed := (c.listing s package).files.flatMap (c.declaredIn s)

/-- All declarations below the source directory. -/
def declared : List Placed := c.declaredBelow s ""

theorem value_declarationsInAll (ps : List Path) : (c.declarationsInAll s ps).value = ps.flatMap (c.declaredIn s) := by
  induction ps with
  | nil => rfl
  | cons p ps ih => simp [declarationsInAll, declaredIn, ih]

theorem value_declarationsIn (p : Path) : c.declaredIn s p = ((c.readUnit s p).value.map (·.walk p.text)).getD [] := by
  simp only [declaredIn, declarationsIn, Logged.value_bind]
  cases (c.readUnit s p).value <;> rfl

/-- A scan succeeds if the directory can be listed, and then gives the declarations that are wanted. -/
theorem value_extract (package : String) (wanted : Decl → Bool) :
    (c.extract s package wanted).value = match (c.listing s package).fault with
      | none => .ok ((c.declaredBelow s package).filter fun p => wanted p.decl)
      | some f => .error ⟨package, c.directory package, f⟩ := by
  simp only [extract, Logged.value_bind, value_declarationsInAll, declaredBelow, listing]
  cases (s.findFiles c.ending (c.directory package)).fault <;> rfl

theorem value_entities (package : String) :
    (c.entities s package).value = (c.extract s package c.isEntity).value := by
  rw [entities, Logged.value_bind]

theorem value_findQualified (name : String) :
    (c.findQualified s name).value = match (c.listing s "").fault with
      | none => .ok ((c.declared s).find? fun p => p.decl.qualifiedName == name)
      | some f => .error ⟨"", c.sources, f⟩ := by
  simp only [findQualified, Logged.value_bind, Logged.value_pure, value_extract]
  cases (c.listing s "").fault with
  | none => simp [Except.map, List.head?_filter, declared]
  | some f => rfl

theorem value_findSimple (name : String) :
    (c.findSimple s name).value = match (c.listing s "").fault with
      | none => .ok ((c.declared s).filter fun p => p.decl.name == name)
      | some f => .error ⟨"", c.sources, f⟩ := by
  rw [findSimple, value_extract]
  rfl

theorem count_eq : c.count s = (c.declared s).length := by
  rw [count, value_declarationsInAll]
  rfl

/-- A unit that can be read comes from a text, which the reader of the level has read. -/
theorem outline_of_readUnit {p : Path} {u : CompilationUnit} (reads : (c.readUnit s p).value = some u) :
    ∃ cs outline, Java.Outline.ofSource c.parser c.level (some p.text) cs = .ok outline ∧ outline.unit = u := by
  simp only [readUnit, Logged.value_bind] at reads
  split at reads
  · cases reads
  · rename_i cs _
    split at reads
    · cases reads
    · rename_i outline is
      simp only [Logged.value_bind, Logged.value_pure, Option.some.injEq] at reads
      exact ⟨cs, outline, is, reads⟩

/-- Whatever is declared is called by one segment of a dotted name. -/
theorem isSegment_of_mem_declaredBelow {package : String} {p : Placed} (mem : p ∈ c.declaredBelow s package) :
    Text.IsSegment p.decl.name := by
  obtain ⟨file, -, mem⟩ := List.mem_flatMap.mp mem
  rw [value_declarationsIn] at mem
  cases reads : (c.readUnit s file).value with
  | none => simp [reads] at mem
  | some u =>
    simp only [reads, Option.map_some, Option.getD_some] at mem
    obtain ⟨cs, outline, is, rfl⟩ := outline_of_readUnit c s reads
    simp only [Java.Outline.ofSource] at is
    split at is
    · obtain ⟨source, isSource, rfl⟩ : ∃ source, Java.Strict.Source.ofChars cs = .ok source ∧
          ⟨source.toUnit (some file.text), []⟩ = outline := by
        cases reads : Java.Strict.Source.ofChars cs with
        | error f => simp [reads, Except.map] at is
        | ok source => exact ⟨source, rfl, by simpa [reads, Except.map] using is⟩
      exact Java.Strict.Source.isSegment_of_mem_walk isSource mem
    · cases is
      exact Java.Outline.isSegment_of_mem_walk (c.parser.tidy cs) mem

end EntityAtlas.Collector
