import EntityAtlas.Proofs.FileWalk
import EntityAtlas.Proofs.Locality

/-!
# Packages in the scan of all sources

The walk below the source directory comes by the directory of a package, if only directories lead there, and goes on
with it before anything else. So what a scan of the package finds is a stretch of what a scan of all sources finds, and
the searches for supertypes see it. A link on the way to the package is followed by the scan of the package alone.
-/

namespace EntityAtlas

namespace Store

variable {s : Store} {ending : String}

/-- The walk below a directory that is there, with the given entries. -/
def walkDir (s : Store) (ending : String) (dir : Path) (es : List (String × Entry)) : Listing :=
  .concat ((inNameOrder (s.walkEach ending dir es)).map (·.2))

theorem findFiles_eq_walkDir {dir : Path} {es : List (String × Entry)} (nulFree : hasNul dir = false)
    (found : s.entry? dir = .ok (some (.dir es))) : s.findFiles ending dir = s.walkDir ending dir es := by
  rw [findFiles, isDirectory_eq_true_iff.mpr ⟨nulFree, es, found⟩, found]
  rfl

/-- Entries that stand in the order of their names are walked as they stand. -/
theorem findFiles_of_pairwise {dir : Path} {es : List (String × Entry)} (nulFree : hasNul dir = false)
    (found : s.entry? dir = .ok (some (.dir es))) (ordered : es.Pairwise fun p q => p.1 ≤ q.1) :
    s.findFiles ending dir = .concat ((s.walkEach ending dir es).map (·.2)) := by
  rw [findFiles_eq_walkDir nulFree found, walkDir, inNameOrder, List.mergeSort_of_pairwise]
  rw [walkEach_eq_map, List.pairwise_map]
  simpa using ordered

/-- The walk below an entry is a part of the walk below its directory, and meets no fault if that one meets none. -/
theorem walkEntry_infix {dir : Path} {es : List (String × Entry)} (clear : (s.walkDir ending dir es).fault = none)
    {name : String} {e : Entry} (mem : (name, e) ∈ es) :
    (s.walkEntry ending dir name e).fault = none ∧
      (s.walkEntry ending dir name e).files <:+: (s.walkDir ending dir es).files := by
  have among : s.walkEntry ending dir name e ∈ (inNameOrder (s.walkEach ending dir es)).map (·.2) := by
    refine List.mem_map.mpr ⟨(name, s.walkEntry ending dir name e), ?_, rfl⟩
    rw [inNameOrder, (List.mergeSort_perm _ _).mem_iff, walkEach_eq_map]
    exact List.mem_map_of_mem mem
  have each := Listing.fault_concat.mp clear
  refine ⟨each _ among, ?_⟩
  rw [walkDir, Listing.files_concat each]
  simpa using ((List.singleton_infix_iff _ _).mpr among).flatMap (·.files)

/-- So is the walk below a directory to which names lead down. -/
theorem walkDir_infix {names : List String} {dir : Path} {es es' : List (String × Entry)}
    (sound : (Entry.dir es).Sound) (clear : (s.walkDir ending dir es).fault = none)
    (there : (Entry.dir es).at? names = some (.dir es')) :
    (s.walkDir ending (dir.below names) es').files <:+: (s.walkDir ending dir es).files := by
  induction names generalizing dir es with
  | nil =>
    obtain rfl := Entry.dir.inj (Option.some.inj there)
    rw [Path.below_nil]
  | cons name names ih =>
    obtain ⟨e, child, inside⟩ := Option.bind_eq_some_iff.mp there
    obtain ⟨inner, rfl⟩ : ∃ inner, e = .dir inner := by
      cases names with
      | nil => exact ⟨es', Option.some.inj inside⟩
      | cons n names =>
        cases e with
        | dir inner => exact ⟨inner, rfl⟩
        | file => cases inside
        | link => cases inside
    have isName : Entry.IsName name := by
      cases sound with | dir distinct isNames each => exact isNames _ (mem_of_lookup child)
    obtain ⟨clear', part⟩ := walkEntry_infix clear (mem_of_lookup child)
    have walk : s.walkEntry ending dir name (.dir inner) = s.walkDir ending (dir.below [name]) inner := by
      rw [walkEntry, ofString_entryText dir isName]
      rfl
    rw [walk] at clear' part
    rw [below_cons]
    exact (ih (sound.child? child) clear' inside).trans part

/-- Where names lead down to a directory, their path leads to it, if to anything. -/
theorem entry?_below_of_at? (sound : s.Sound) {dir : Path} {es es' : List (String × Entry)}
    (found : s.entry? dir = .ok (some (.dir es))) {names : List String}
    (there : (Entry.dir es).at? names = some (.dir es')) {e : Entry}
    (found' : s.entry? (dir.below names) = .ok (some e)) : e = .dir es' := by
  obtain ⟨here, leads, isDir⟩ := entry?_eq_ok_some.mp found
  obtain ⟨place, located, is⟩ := entry?_eq_ok_some.mp found'
  rcases List.eq_nil_or_concat' names with rfl | ⟨names, name, rfl⟩
  · rw [Path.below_nil] at found'
    exact Option.some.inj ((Except.ok.inj (found'.symm.trans found)).trans there)
  rw [Entry.at?_of_at? isDir, ← List.append_assoc] at there
  obtain ⟨left, -, at_end⟩ := exists_locate_below leads isDir
  rw [at_end s sound.tree rfl (.refl _) names name _ there] at located
  split at located
  · have isName := sound.tree.isName_of_at? there name (by simp)
    cases locateFrom_eq_ok_iff.mp located with
    | up => exact absurd rfl isName.2
    | stay => exact absurd isName.1.1 (by decide)
    | down _ _ arrives =>
      cases arrives
      exact Option.some.inj (is.symm.trans there)
    | file _ isFile => cases there.symm.trans isFile
    | link _ isLink => cases there.symm.trans isLink
  · cases located

end Store

namespace Collector

variable {c : Collector} {s : Store} {package : String} {wanted : Decl → Bool} {found all : List Placed}

/-- The directory of a package is reached from the source directory through directories alone. -/
def IsInside (c : Collector) (s : Store) (package : String) : Prop :=
  ∃ names es, c.directory package = c.sources.below names ∧ s.entryBelow? c.sources names = some (.dir es)

/-- What a scan finds, if it succeeds. -/
theorem eq_of_extract (scans : (c.extract s package wanted).value = .ok found) :
    (c.listing s package).fault = none ∧ found = (c.declaredBelow s package).filter fun p => wanted p.decl := by
  rw [value_extract] at scans
  cases listed : (c.listing s package).fault with
  | none =>
    rw [listed] at scans
    exact ⟨rfl, (Except.ok.inj scans).symm⟩
  | some f =>
    rw [listed] at scans
    cases scans

theorem directory_empty (c : Collector) : c.directory "" = c.sources := rfl

theorem listing_empty (c : Collector) (s : Store) : c.listing s "" = s.findFiles c.ending c.sources := rfl

/-- The files of a package that is reached through directories are a stretch of all files. -/
theorem listing_infix (sound : s.Sound) (inside : c.IsInside s package)
    (listed : (c.listing s package).fault = none) (listed' : (c.listing s "").fault = none) :
    (c.listing s package).files <:+: (c.listing s "").files := by
  obtain ⟨names, es', is, there⟩ := inside
  obtain ⟨nulFree, es, found⟩ : _ ∧ ∃ es, s.entry? c.sources = .ok (some (.dir es)) :=
    Store.exists_of_fault_findFiles listed'
  obtain ⟨nulFree', es'', found'⟩ := Store.exists_of_fault_findFiles listed
  rw [Store.entryBelow?_eq found] at there
  rw [is] at found' nulFree'
  obtain rfl := Entry.dir.inj (Store.entry?_below_of_at? sound found there found')
  rw [listing_empty, Store.findFiles_eq_walkDir nulFree found] at listed' ⊢
  rw [listing, is, Store.findFiles_eq_walkDir nulFree' found']
  obtain ⟨here, -, isDir⟩ := Store.entry?_eq_ok_some.mp found
  exact Store.walkDir_infix (sound.tree.at? isDir) listed' there

/-- A package with a file that is one of all files is reached through directories, like the file. -/
theorem isInside_of_mem_listing (sound : s.Sound)
    (listed : (c.listing s package).fault = none) (listed' : (c.listing s "").fault = none) {f : Path}
    (mem : f ∈ (c.listing s package).files) (mem' : f ∈ (c.listing s "").files) : c.IsInside s package := by
  obtain ⟨names, areNames, is⟩ := Package.exists_directory_eq c.sources package
  have is : c.directory package = c.sources.below names := is
  obtain ⟨-, es', found', -, rows', -, files', among'⟩ := Store.exists_rows_of_findFiles sound listed
  obtain ⟨-, es, found, -, rows, -, files, among⟩ := Store.exists_rows_of_findFiles sound listed'
  have found : s.entry? c.sources = .ok (some (.dir es)) := found
  rw [listing, files'] at mem
  rw [listing, files, directory_empty] at mem'
  obtain ⟨row', listed', rfl⟩ := List.mem_map.mp mem
  obtain ⟨row, listed, same⟩ := List.mem_map.mp mem'
  -- the names on the way to the file begin with those on the way to the package
  rw [is, ← Path.below_append] at same
  have source := (among row).mp listed
  have source' := (among' row').mp listed'
  obtain ⟨here, -, isDir⟩ := Store.entry?_eq_ok_some.mp found
  obtain ⟨here', -, isDir'⟩ := Store.entry?_eq_ok_some.mp found'
  have areNames' : ∀ name ∈ names ++ row', Entry.IsName name :=
    List.forall_mem_append.mpr ⟨areNames, source'.areNames (sound.tree.at? isDir')⟩
  obtain rfl := Store.below_inj (source.areNames (sound.tree.at? isDir)) areNames' same
  obtain ⟨name, rest, -, rfl, -⟩ := source'.exists_cons
  obtain ⟨e, there⟩ := source.exists_at?
  obtain ⟨inner, there⟩ := Entry.exists_dir_above there
  exact ⟨names, inner, is, by rw [Store.entryBelow?_eq found, there]⟩

/-- Declarations of files that are told apart by their texts. -/
theorem exists_file_of_mem (sound : s.Sound) (listed : (c.listing s package).fault = none)
    {p : Placed} (mem : p ∈ c.declaredBelow s package) :
    ∃ f ∈ (c.listing s package).files, Path.ofString p.file = f := by
  obtain ⟨f, among, mem⟩ := List.mem_flatMap.mp mem
  obtain ⟨told, -⟩ := Store.eq_of_mem_findFiles [] sound listed
  exact ⟨f, among, by rw [file_of_mem_declaredIn c mem, told f among]⟩

/-- The searches for a declaration by its names, which look through all sources, find it, or another one first. -/
theorem searches_find {p : Placed} (listed : (c.listing s "").fault = none) (mem : p ∈ c.declared s) :
    (∃ found, (c.findSimple s p.decl.name).value = .ok found ∧ p ∈ found) ∧
      ∃ q, (c.findQualified s p.decl.qualifiedName).value = .ok (some q) ∧
        q.decl.qualifiedName = p.decl.qualifiedName := by
  constructor
  · refine ⟨(c.declared s).filter fun q => q.decl.name == p.decl.name, ?_, ?_⟩
    · rw [value_findSimple, listed]
    · exact List.mem_filter.mpr ⟨mem, beq_self_eq_true _⟩
  · cases finds : (c.declared s).find? fun q => q.decl.qualifiedName == p.decl.qualifiedName with
    | none => exact absurd (beq_self_eq_true _) (List.find?_eq_none.mp finds p mem)
    | some q =>
      have same := List.find?_some finds
      exact ⟨q, by rw [value_findQualified, listed, finds], beq_iff_eq.mp same⟩

/-- What a scan of a package finds is a stretch of what a scan of all sources finds, in the same order, if only
directories lead from the source directory to that of the package; the searches for supertypes, which look through all
sources, then see all of it. If a link leads there, the scan of all sources finds nothing in the files of the package.
-/
theorem extract_infix (c : Collector) (sound : s.Sound) (package : String)
    (wanted : Decl → Bool) (scans : (c.extract s package wanted).value = .ok found)
    (scansAll : (c.extract s "" wanted).value = .ok all) :
    (c.IsInside s package → found <:+: all ∧ ∀ p ∈ found,
      (∃ simple, (c.findSimple s p.decl.name).value = .ok simple ∧ p ∈ simple) ∧
        ∃ q, (c.findQualified s p.decl.qualifiedName).value = .ok (some q) ∧
          q.decl.qualifiedName = p.decl.qualifiedName) ∧
      (¬ c.IsInside s package → ∀ p ∈ found, ∀ q ∈ all, p.file ≠ q.file) := by
  obtain ⟨listed, isFound⟩ := eq_of_extract scans
  obtain ⟨listedAll, isAll⟩ := eq_of_extract scansAll
  rw [isFound, isAll]
  refine ⟨fun inside => ?_, fun outside p mem q mem' same => ?_⟩
  · have part := listing_infix sound inside listed listedAll
    have stretch := (part.flatMap (c.declaredIn s)).filter fun p => wanted p.decl
    exact ⟨stretch, fun p mem => searches_find listedAll (List.mem_filter.mp (stretch.subset mem)).1⟩
  · obtain ⟨f, among, is⟩ := exists_file_of_mem sound listed (List.mem_filter.mp mem).1
    obtain ⟨g, among', is'⟩ := exists_file_of_mem sound listedAll (List.mem_filter.mp mem').1
    obtain rfl : f = g := is.symm.trans ((congrArg Path.ofString same).trans is')
    exact outside (isInside_of_mem_listing sound listed listedAll among among')

/-- The collector of the sources below `src`. -/
def ofSrc : Collector := standard (.ofString "src") .java17

/-- A class in a directory outside the sources, to which a package of the sources is linked. -/
def linkedPackage : Store where
  root := .dir [("other", .dir [("A.java", .file (Text.Utf8.encode "package p; class A { }".toList))]),
    ("src", .dir [("p", .link "../other")])]
  cwd := []

/-- The class, by its path in the package. -/
def packagedClass : Placed :=
  ⟨"src/p/A.java", [0], ⟨⟨"A", .classKind, .extensible none, some "p", [], [], some "src/p/A.java", []⟩, []⟩⟩

theorem extract_package_linkedPackage :
    (ofSrc.extract linkedPackage "p" fun _ => true).value = .ok [packagedClass] := by
  have files : ofSrc.listing linkedPackage "p" = ⟨[.ofString "src/p/A.java"], none⟩ := by
    have found : linkedPackage.entry? (ofSrc.directory "p") = .ok (linkedPackage.root.at? ["other"]) := by rfl
    rw [listing, Store.findFiles_of_pairwise (by decide +kernel) found (by simp)]
    decide +kernel
  rw [value_extract, declaredBelow, files]
  decide +kernel

/-- The scan of the package follows the link, and the scan of all sources does not. -/
theorem extract_linkedPackage :
    linkedPackage.Sound ∧
      (ofSrc.extract linkedPackage "p" fun _ => true).value = .ok [packagedClass] ∧
      (ofSrc.extract linkedPackage "" fun _ => true).value = .ok [] ∧ ¬ [packagedClass] <:+: [] := by
  have files : ofSrc.listing linkedPackage "" = ⟨[], none⟩ := by
    have found : linkedPackage.entry? ofSrc.sources = .ok (linkedPackage.root.at? ["src"]) := by rfl
    rw [listing_empty, Store.findFiles_of_pairwise (by decide +kernel) found (by simp)]
    decide +kernel
  refine ⟨⟨by decide +kernel, rfl⟩, extract_package_linkedPackage, ?_, by simp⟩
  rw [value_extract, declaredBelow, files]
  rfl

/-- A package and a class that is in none. -/
def packagedSources : Store where
  root := .dir [("src", .dir [("B.java", .file (Text.Utf8.encode "class B { }".toList)),
    ("p", .dir [("A.java", .file (Text.Utf8.encode "package p; class A { }".toList))])])]
  cwd := []

theorem extract_infix_packaged :
    packagedSources.Sound ∧ ofSrc.IsInside packagedSources "p" ∧ ∃ all,
      (ofSrc.extract packagedSources "p" fun _ => true).value = .ok [packagedClass] ∧
        (ofSrc.extract packagedSources "" fun _ => true).value = .ok all ∧ [packagedClass] <:+: all := by
  have sound : packagedSources.Sound := ⟨by decide +kernel, rfl⟩
  have inside : ofSrc.IsInside packagedSources "p" := ⟨["p"], _, by rfl, by rfl⟩
  have files : ofSrc.listing packagedSources "p" = ⟨[.ofString "src/p/A.java"], none⟩ := by
    have found : packagedSources.entry? (ofSrc.directory "p") = .ok (packagedSources.root.at? ["src", "p"]) := by rfl
    rw [listing, Store.findFiles_of_pairwise (by decide +kernel) found (by simp)]
    decide +kernel
  have scans : (ofSrc.extract packagedSources "p" fun _ => true).value = .ok [packagedClass] := by
    rw [value_extract, declaredBelow, files]
    decide +kernel
  have listed : (ofSrc.listing packagedSources "").fault = none :=
    Store.fault_findFiles_of_isLinkFree sound (by decide) ".java" (by decide +kernel)
      (show packagedSources.entry? ofSrc.sources = .ok (packagedSources.root.at? ["src"]) by rfl)
  have scansAll : (ofSrc.extract packagedSources "" fun _ => true).value = .ok (ofSrc.declared packagedSources) := by
    rw [value_extract, listed, declared, List.filter_true]
  obtain ⟨stretch, -⟩ := extract_infix ofSrc sound "p" _ scans scansAll
  exact ⟨sound, inside, _, scans, scansAll, (stretch inside).1⟩

end Collector

end EntityAtlas
