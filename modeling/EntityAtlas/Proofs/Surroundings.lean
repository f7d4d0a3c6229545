import EntityAtlas.Proofs.ReadUnits
import EntityAtlas.Proofs.Scanning

/-!
# Surroundings of declarations

A declaration names its package and the declarations around it, outermost first, as they are handed down to it by both
readers. So all declarations of a source have one package, and every name around one is the name of another.
-/

namespace EntityAtlas

namespace Item.Within

variable {package : Option String} {around : List String}

theorem package_of_mem_ofItems {items : List Item} (within : Within package around items) {file : String}
    {trail : List Nat} {k : Nat} {p : Placed} (mem : p ∈ Placed.ofItems file trail k items) :
    p.decl.head.package = package := by
  induction within generalizing trail k with
  | nil => simp at mem
  | field f others ih => exact ih mem
  | type told inside others ihInside ihOthers =>
    rcases List.mem_cons.mp mem with rfl | mem
    · exact told.1
    · rcases List.mem_append.mp mem with mem | mem
      · exact ihInside mem
      · exact ihOthers mem

/-- The names around a find are those around the walk, and then names of declarations that the walk finds. -/
theorem enclosing_of_mem_ofItems {items : List Item} (within : Within package around items) {file : String}
    {trail : List Nat} {k : Nat} {p : Placed} (mem : p ∈ Placed.ofItems file trail k items) :
    ∃ more, p.decl.head.enclosing = around ++ more ∧
      ∀ name ∈ more, ∃ q ∈ Placed.ofItems file trail k items, q.decl.name = name := by
  induction within generalizing trail k with
  | nil => simp at mem
  | field f others ih => exact ih mem
  | @type around h is rest told inside others ihInside ihOthers =>
    rcases List.mem_cons.mp mem with rfl | mem
    · exact ⟨[], by simpa using told.2, by simp⟩
    rcases List.mem_append.mp mem with mem | mem
    · obtain ⟨more, names, declared⟩ := ihInside mem
      refine ⟨h.name :: more, by simp [names], fun name mem => ?_⟩
      rcases List.mem_cons.mp mem with rfl | mem
      · exact ⟨_, List.mem_cons_self, rfl⟩
      · obtain ⟨q, found, is⟩ := declared name mem
        exact ⟨q, List.mem_cons_of_mem _ (List.mem_append_left _ found), is⟩
    · obtain ⟨more, names, declared⟩ := ihOthers mem
      refine ⟨more, names, fun name mem => ?_⟩
      obtain ⟨q, found, is⟩ := declared name mem
      exact ⟨q, List.mem_cons_of_mem _ (List.mem_append_right _ found), is⟩

end Item.Within

namespace Collector

/-- The declarations of a file tell the package and the names around them. -/
theorem within_of_readUnit {c : Collector} {s : Store} {p : Path} {u : CompilationUnit}
    (reads : (c.readUnit s p).value = some u) : Item.Within u.package [] (u.types.map Decl.toItem) := by
  obtain ⟨cs, outline, is, rfl⟩ := outline_of_readUnit c s reads
  exact (Java.Outline.handsDown_ofSource is).within

/-- A declaration that a scan finds stands in a file that can be read, and its package is the one of the file. -/
theorem exists_unit_of_mem_declaredBelow {c : Collector} {s : Store} {package : String} {p : Placed}
    (mem : p ∈ c.declaredBelow s package) :
    ∃ file u, (c.readUnit s file).value = some u ∧ p.decl.head.package = u.package ∧
      (∀ q ∈ u.walk file.text, q ∈ c.declaredBelow s package) ∧ p ∈ u.walk file.text := by
  obtain ⟨file, listed, mem⟩ := List.mem_flatMap.mp mem
  have found := mem
  rw [value_declarationsIn] at found
  cases reads : (c.readUnit s file).value with
  | none => simp [reads] at found
  | some u =>
    simp only [reads, Option.map_some, Option.getD_some] at found
    refine ⟨file, u, reads, (within_of_readUnit reads).package_of_mem_ofItems found, fun q walked => ?_, found⟩
    refine List.mem_flatMap.mpr ⟨file, listed, ?_⟩
    rw [value_declarationsIn, reads]
    exact walked

/-- The package of a strictly read declaration has segments for its pieces. -/
theorem isSegment_of_mem_pieces {c : Collector} {s : Store} {package : String} (strict : c.level.reader = .strict)
    {p : Placed} (mem : p ∈ c.declaredBelow s package) :
    ∀ q ∈ p.decl.head.package, ∀ piece ∈ Text.pieces '.' q, Text.IsSegment piece := by
  obtain ⟨file, u, reads, same, -⟩ := exists_unit_of_mem_declaredBelow mem
  obtain ⟨cs, outline, is, rfl⟩ := outline_of_readUnit c s reads
  rw [Java.Outline.ofSource, strict] at is
  cases parsed : Java.Strict.Source.ofChars cs with
  | error f => simp [parsed, Except.map] at is
  | ok source =>
    obtain rfl : ⟨source.toUnit (some file.text), []⟩ = outline := by simpa [parsed, Except.map] using is
    rw [same]
    exact (Java.Strict.Source.sound_of_ofChars parsed).package

/-- Every name around a declaration is the name of a declaration that the same scan finds. -/
theorem exists_name_of_mem_enclosing {c : Collector} {s : Store} {package : String} {p : Placed}
    (mem : p ∈ c.declaredBelow s package) {name : String} (around : name ∈ p.decl.head.enclosing) :
    ∃ q ∈ c.declaredBelow s package, q.decl.name = name := by
  obtain ⟨file, u, reads, -, inside, found⟩ := exists_unit_of_mem_declaredBelow mem
  obtain ⟨more, names, declared⟩ := (within_of_readUnit reads).enclosing_of_mem_ofItems found
  obtain ⟨q, found', is⟩ := declared name (by simpa [names] using around)
  exact ⟨q, inside q found', is⟩

end Collector

end EntityAtlas
