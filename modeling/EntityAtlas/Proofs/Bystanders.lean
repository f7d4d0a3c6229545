import EntityAtlas.Proofs.PackageStretch

/-!
# Entries that no scan takes notice of

A file or a link under a name without the ending is looked at by a walk and left out. So it changes nothing when one is
added to a directory, as long as nothing else comes by its place: no link of the tree, and, if it is a link, no path of
a directory to be scanned. What a scan finds then stays as it was, and so does a failure.
-/

namespace EntityAtlas

namespace Entry

variable {e new : Entry} {dir : List String} {name : String} {es : List (String × Entry)}

/-- An entry that holds none, at a free place of a directory, is all that is new. -/
theorem sameBut_insertAt (leaf : ∀ n l, new.at? (n :: l) = none) (here : e.at? dir = some (.dir es))
    (free : e.at? (dir ++ [name]) = none) : SameBut (· = dir ++ [name]) e (insertAt new (dir ++ [name]) e) where
  same l other := by
    refine sameKind_insertAt [] here free leaf ?_
    by_cases onWay : l <+: dir ++ [name]
    · -- what is in front of the place is a directory
      obtain ⟨more, rfl⟩ := (List.prefix_concat_iff.mp onWay).resolve_left other
      cases more with
      | nil =>
        rw [List.append_nil] at here
        exact .inl (by rw [here]; rfl)
      | cons n more =>
        obtain ⟨es', isDir⟩ := exists_dir_above here
        exact .inl (by rw [isDir]; rfl)
    · exact .inr onWay
  free l is := is ▸ free

theorem grows_insertLeaf (leaf : ∀ n l, new.at? (n :: l) = none) (here : e.at? dir = some (.dir es))
    (free : e.at? (dir ++ [name]) = none) : Grows [dir ++ [name]] e (insertAt new (dir ++ [name]) e) := by
  have nothing (l : List String) : e.at? (dir ++ name :: l) = none := at?_eq_none_of_prefix free ⟨l, by simp⟩
  change Grows ([[]].map fun l => dir ++ name :: l) _ _
  refine grows_insertAt here (fun l c there => ?_) fun l elsewhere content => ?_
  · cases (nothing l).symm.trans there
  · cases l with
    | nil => exact absurd List.mem_cons_self elsewhere
    | cons n l => rw [nothing, leaf]

end Entry

namespace Store

/-- A path comes by a place: what is there is asked for when the path is followed. -/
def ComesBy (s : Store) (p : Path) (loc : List String) : Prop :=
  Visits s.root (maxLinks + 1) p.parts (s.start p) loc

/-- A link of the tree comes by a place. -/
def IsOnLink (s : Store) (loc : List String) : Prop :=
  ∃ dir name target, s.root.at? (dir ++ [name]) = some (.link target) ∧ Visits s.root (maxLinks + 1) [name] dir loc

section Free

variable {root root' : Entry} {loc : List String} {links : Nat} {parts here : List String}

theorem locateFrom_free {name : String} {rest : List String} (plain : IsPlain name)
    (free : root.at? (here ++ [name]) = none) :
    locateFrom root (links + 1) (name :: rest) here =
      if rest.isEmpty then .ok (.absent here name) else .error .missing := by
  simp [locateFrom, advance, plain.up, plain.stay, Nat.not_lt.mpr plain.short, free]

theorem locateFrom_file {name : String} {rest : List String} {content : List UInt8} (plain : IsPlain name)
    (there : root.at? (here ++ [name]) = some (.file content)) :
    locateFrom root (links + 1) (name :: rest) here =
      if rest.isEmpty then .ok (.present (here ++ [name])) else .error .notADirectory := by
  simp [locateFrom, advance, plain.up, plain.stay, Nat.not_lt.mpr plain.short, there]

/-- A way that comes by a free place ends there. -/
theorem locateFrom_of_free (free : root.at? loc = none) (visits : Visits root links parts here loc) :
    locateFrom root links parts here = .error .missing ∨
      ∃ dir name, locateFrom root links parts here = .ok (.absent dir name) := by
  induction visits with
  | @here links name rest here plain =>
    rw [locateFrom_free plain free]
    cases rest with
    | nil => exact .inr ⟨here, name, rfl⟩
    | cons => exact .inl rfl
  | up _ ih => exact ih free
  | stay _ ih => exact ih free
  | down plain isDir _ ih => exact locateFrom_down plain isDir ▸ ih free
  | link plain isLink _ ih => exact locateFrom_link plain isLink ▸ ih free

/-- So what is there is not reached through a free place. -/
theorem not_comesBy_of_locate {s : Store} {p : Path} (free : s.root.at? loc = none)
    (leads : s.locate p = .ok (.present here)) : ¬ s.ComesBy p loc := by
  intro comes
  rw [locate] at leads
  rcases locateFrom_of_free free comes with ends | ⟨dir, name, ends⟩
  all_goals cases ends.symm.trans leads

/-- If a file is put there, it ends at the file. -/
theorem locateFrom_of_file (keeps : Entry.Keeps root root') {content : List UInt8}
    (there : root'.at? loc = some (.file content)) (visits : Visits root links parts here loc) :
    locateFrom root' links parts here = .error .notADirectory ∨
      locateFrom root' links parts here = .ok (.present loc) := by
  induction visits with
  | @here links name rest here plain =>
    rw [locateFrom_file plain there]
    cases rest with
    | nil => exact .inr rfl
    | cons => exact .inl rfl
  | up _ ih => exact ih there
  | stay _ ih => exact ih there
  | down plain isDir _ ih =>
    obtain ⟨c, isDir', alike⟩ := keeps _ _ isDir
    cases alike
    exact locateFrom_down plain isDir' ▸ ih there
  | link plain isLink _ ih =>
    obtain ⟨c, isLink', alike⟩ := keeps _ _ isLink
    cases alike
    exact locateFrom_link plain isLink' ▸ ih there

end Free

/-- The store with an entry at a place. -/
def withEntry (s : Store) (loc : List String) (new : Entry) : Store :=
  { s with root := Entry.insertAt new loc s.root }

/-- A file or a link that may be added under a free name of a directory: the name has not the ending of a source, and no
link of the tree comes by it. -/
structure IsBystander (s : Store) (ending : String) (loc : List String) (new : Entry) : Prop where
  leaf : ∀ es, new ≠ .dir es
  inside : ∃ dir name es, loc = dir ++ [name] ∧ Entry.IsName name ∧ s.root.at? dir = some (.dir es)
  free : s.root.at? loc = none
  other : Text.endsWith (loc.getLastD "") ending = false
  aside : ¬ s.IsOnLink loc

/-- A walk below a path passes by a new link: the path does not come by the link, and the link, by its path below that
one, leads to something, or to a place that is not there. -/
structure PassesBy (s : Store) (p : Path) (loc : List String) (new : Entry) : Prop where
  aside : ¬ s.ComesBy p loc
  settled : ∀ here names, s.locate p = .ok (.present here) → here ++ names = loc →
    ∀ b, Store.entry? (s.withEntry loc new) (p.below names) = .error b → b = .missing

section Bystander

variable {s : Store} {ending : String} {loc : List String} {new : Entry} (sound : s.Sound)
  (bystander : s.IsBystander ending loc new)

include bystander

theorem IsBystander.at?_cons (n : String) (l : List String) : new.at? (n :: l) = none := by
  cases new with
  | dir es => exact absurd rfl (bystander.leaf es)
  | file => rfl
  | link => rfl

theorem IsBystander.sameBut : Entry.SameBut (· = loc) s.root (s.withEntry loc new).root := by
  obtain ⟨dir, name, es, rfl, -, here⟩ := bystander.inside
  exact Entry.sameBut_insertAt bystander.at?_cons here bystander.free

theorem IsBystander.files {l : List String} (elsewhere : l ≠ loc) (content : List UInt8) :
    (s.withEntry loc new).root.at? l = some (.file content) ↔ s.root.at? l = some (.file content) := by
  obtain ⟨dir, name, es, rfl, -, here⟩ := bystander.inside
  exact (Entry.grows_insertLeaf bystander.at?_cons here bystander.free).files l (by simpa using elsewhere) content

include sound

theorem IsBystander.sound_withEntry : (s.withEntry loc new).Sound := by
  obtain ⟨dir, name, es, rfl, isName, here⟩ := bystander.inside
  have fresh : new.Sound := by
    cases new with
    | dir es => exact absurd rfl (bystander.leaf es)
    | file content => exact .file content
    | link target => exact .link target
  have isNames : ∀ n ∈ dir ++ [name], Entry.IsName n := by
    simpa [or_imp, forall_and] using ⟨sound.tree.isName_of_at? here, isName⟩
  refine ⟨.insertAt fresh isNames sound.tree, ?_⟩
  cases dir <;> rfl

omit sound in
/-- No link below a directory comes by the new entry. -/
theorem IsBystander.avoids (here : List String) : s.Avoids here (· = loc) := by
  rintro names name target there place visits rfl
  exact bystander.aside ⟨here ++ names, name, target, there, visits⟩

/-- Below a path that leads to a directory, the new entry is the only one whose walk may be another. -/
theorem IsBystander.walksAlike {p : Path} {here : List String} {es es' : List (String × Entry)}
    (found : s.locate p = .ok (.present here)) (isDir : s.root.at? here = some (.dir es))
    (isDir' : (s.withEntry loc new).root.at? here = some (.dir es'))
    (passed : ∀ target, new = .link target → s.PassesBy p loc new) :
    s.WalksAlike (s.withEntry loc new) ending p (.dir es) (.dir es') := by
  have adds := bystander.sameBut
  refine ⟨fun names c => ?_, fun names target there => ?_, fun names c missing there => ?_⟩
  · rw [Entry.at?_of_at? isDir, Entry.at?_of_at? isDir']
    exact adds.keeps _ _
  · rw [Entry.at?_of_at? isDir] at there
    have nonempty := ne_nil_of_link isDir there
    refine isRegularFile_congr (locate_below_eq sound (bystander.sound_withEntry sound) rfl adds found isDir
      (bystander.avoids here) nonempty there) fun place located => adds.same place ?_
    rintro rfl
    obtain ⟨c, present⟩ := exists_at?_of_locate_below sound found isDir nonempty there located
    cases present.symm.trans bystander.free
  · rw [Entry.at?_of_at? isDir] at missing
    rw [Entry.at?_of_at? isDir'] at there
    -- what is new is the entry itself
    have is : here ++ names = loc := by
      by_contra other
      have same := adds.same _ other
      rw [missing, there] at same
      cases same
    obtain rfl : new = c := Option.some.inj ((Entry.at?_insertAt new loc s.root).symm.trans (is ▸ there))
    refine ⟨fun _ => ?_, fun target link => (passed target link).settled here names found is⟩
    have nonempty : names ≠ [] := by
      rintro rfl
      rw [List.append_nil, isDir] at missing
      cases missing
    have sound' := bystander.sound_withEntry sound
    have areNames := (sound'.tree.at? isDir').isName_of_at? ((Entry.at?_of_at? isDir' _).trans there)
    obtain ⟨front, name, rfl⟩ := (List.eq_nil_or_concat' names).resolve_left nonempty
    have other := bystander.other
    rw [← is] at other
    simpa [parts_below areNames] using other

omit sound in
/-- Where a path comes by the new entry, there was no directory before and there is none now; other paths lead where
they led. -/
theorem IsBystander.isDirectory_eq {p : Path} (passed : ∀ target, new = .link target → s.PassesBy p loc new) :
    (s.withEntry loc new).isDirectory p = s.isDirectory p := by
  have adds := bystander.sameBut
  have there : (s.withEntry loc new).root.at? loc = some new := Entry.at?_insertAt new loc s.root
  rw [isDirectory, isDirectory, entry?, entry?]
  by_cases comes : s.ComesBy p loc
  · obtain ⟨content, rfl⟩ : ∃ content, new = .file content := by
      cases new with
      | dir es => exact absurd rfl (bystander.leaf es)
      | file content => exact ⟨content, rfl⟩
      | link target => exact absurd comes (passed target rfl).aside
    have before := locateFrom_of_free bystander.free comes
    have after := locateFrom_of_file adds.keeps there comes
    rw [← locate] at before
    change (s.withEntry loc (.file content)).locate p = _ ∨ (s.withEntry loc (.file content)).locate p = _ at after
    rcases before with before | ⟨dir, name, before⟩ <;> rcases after with after | after
    all_goals simp [before, after, Except.map, there, Entry.isDir]
  · have located : (s.withEntry loc new).locate p = s.locate p :=
      (locateFrom_congr fun place visits => adds.same place fun is => comes (is ▸ visits)).symm
    by_cases at_new : s.locate p = .ok (.present loc)
    · have leaf : new.isDir = false := by
        cases new with
        | dir es => exact absurd rfl (bystander.leaf es)
        | file => rfl
        | link => rfl
      simp [located, at_new, Except.map, there, bystander.free, leaf]
    · rw [← entry?, ← entry?, ← isDirectory, ← isDirectory]
      refine isDirectory_congr located fun place leads => adds.same place ?_
      rintro rfl
      exact at_new leads

/-- A walk finds what it found, and meets the fault that it met. -/
theorem IsBystander.findFiles_eq {p : Path} (passed : ∀ target, new = .link target → s.PassesBy p loc new) :
    (s.withEntry loc new).findFiles ending p = s.findFiles ending p := by
  refine findFiles_congr sound (bystander.sound_withEntry sound) (bystander.isDirectory_eq passed) ?_
  intro here here' es es' found isDir found' isDir'
  have cwd : (s.withEntry loc new).cwd = s.cwd := rfl
  obtain ⟨again, -⟩ := locate_dir cwd bystander.sameBut.keeps found isDir
  obtain rfl := Place.present.inj (Except.ok.inj (again.symm.trans found'))
  exact bystander.walksAlike sound found isDir isDir' passed

/-- What a walk finds is read as before. -/
theorem IsBystander.readText_eq {p : Path} {here : List String} {es : List (String × Entry)}
    (found : s.locate p = .ok (.present here)) (isDir : s.root.at? here = some (.dir es)) {names : List String}
    (is : s.IsSource ending p (.dir es) names) :
    (s.withEntry loc new).readText (p.below names) = s.readText (p.below names) := by
  have adds := bystander.sameBut
  obtain ⟨first, rest, -, isCons, -⟩ := is.exists_cons
  have nonempty : names ≠ [] := isCons ▸ List.cons_ne_nil first rest
  obtain ⟨e, there⟩ := is.exists_at?
  rw [Entry.at?_of_at? isDir] at there
  refine Store.readText_eq (locate_below_eq sound (bystander.sound_withEntry sound) rfl adds found isDir
    (bystander.avoids here) nonempty there) fun place leads => ?_
  have old : place ≠ loc := by
    rintro rfl
    obtain ⟨c, present⟩ := exists_at?_of_locate_below sound found isDir nonempty there leads
    cases present.symm.trans bystander.free
  exact ⟨adds.same place old, bystander.files old⟩

end Bystander

end Store

namespace Collector

variable (c : Collector) {s : Store} {loc : List String} {new : Entry}

section

variable (sound : s.Sound) (bystander : s.IsBystander c.ending loc new) {package : String}
  (passed : ∀ target, new = .link target → s.PassesBy (c.directory package) loc new)

include sound bystander passed

/-- What is below a package's directory reads as before. -/
theorem seesAlike_withEntry : c.SeesAlike s (s.withEntry loc new) package := by
  refine ⟨rfl, bystander.findFiles_eq sound passed, fun f mem => ?_⟩
  obtain ⟨here, es, names, leads, isDir, rfl, is⟩ := Store.exists_of_mem_findFiles sound mem
  exact bystander.readText_eq sound leads isDir is

end

/-- A file or a link that is added under a free name of a directory, where the name has not the ending of a source and
no link of the tree comes by it, changes neither what a scan finds nor whether it fails or is stopped, and so no search
for a supertype finds another one. A link must also be passed by: the directory that is scanned is not reached through
it, and it leads to something, or to a place that is not there. -/
theorem extract_withEntry (sound : s.Sound) (bystander : s.IsBystander c.ending loc new) :
    (∀ package wanted, (∀ target, new = .link target → s.PassesBy (c.directory package) loc new) →
        c.extract (s.withEntry loc new) package wanted = c.extract s package wanted) ∧
      ((∀ target, new = .link target → s.PassesBy c.sources loc new) → ∀ package d,
        (Supertype.Chain.standard c package).supertype (s.withEntry loc new) d =
          (Supertype.Chain.standard c package).supertype s d) :=
  ⟨fun _ wanted passed => (c.seesAlike_withEntry sound bystander passed).extract_eq wanted,
    fun passed package d => Supertype.Chain.supertype_congr (c.seesAlike_withEntry sound bystander passed) package d⟩

/-- A class outside the sources, and no source. -/
def emptySources : Store where
  root := .dir [("other", .dir [("A.java", .file (Text.Utf8.encode "package p; class A { }".toList))]),
    ("src", .dir [])]
  cwd := []

/-- The only class of some sources. -/
def loneClass : Placed :=
  ⟨"src/B.java", [0], ⟨⟨"B", .classKind, .extensible none, none, [], [], some "src/B.java", []⟩, []⟩⟩

def loneSource : Store where
  root := .dir [("src", .dir [("B.java", .file (Text.Utf8.encode "class B { }".toList))])]
  cwd := []

/-- Where no link is, none comes by a new entry. -/
theorem isBystander_of_isLinkFree (linkFree : s.root.isLinkFree = true) (dir : List String) (name : String)
    {es : List (String × Entry)} (here : s.root.at? dir = some (.dir es)) (free : s.root.at? (dir ++ [name]) = none)
    (isName : Entry.IsName name) (leaf : ∀ es, new ≠ .dir es) {ending : String}
    (other : Text.endsWith name ending = false) : s.IsBystander ending (dir ++ [name]) new where
  leaf := leaf
  inside := ⟨dir, name, es, rfl, isName, here⟩
  free := free
  other := by simpa using other
  aside := by
    rintro ⟨_, _, target, there, -⟩
    cases Entry.isLinkFree_of_at? linkFree there

theorem extract_loneSource : (ofSrc.extract loneSource "" fun _ => true).value = .ok [loneClass] := by
  have files : ofSrc.listing loneSource "" = ⟨[.ofString "src/B.java"], none⟩ := by
    have found : loneSource.entry? ofSrc.sources = .ok (loneSource.root.at? ["src"]) := by rfl
    rw [listing_empty, Store.findFiles_of_pairwise (by decide +kernel) found (by simp)]
    decide +kernel
  rw [value_extract, declaredBelow, files]
  decide +kernel

/-- A new link can make a package that is scanned, and one that goes round in a circle makes a scan fail. -/
theorem extract_withLink :
    (emptySources.Sound ∧ emptySources.IsBystander ofSrc.ending ["src", "p"] (.link "../other") ∧
      (ofSrc.extract emptySources "p" fun _ => true).value =
        .error ⟨"p", .ofString "src/p", .noSourceDirectory "src/p"⟩ ∧
      (ofSrc.extract (emptySources.withEntry ["src", "p"] (.link "../other")) "p" fun _ => true).value =
        .ok [packagedClass]) ∧
    loneSource.Sound ∧ loneSource.IsBystander ofSrc.ending ["src", "loop"] (.link "loop") ∧
      (ofSrc.extract loneSource "" fun _ => true).value = .ok [loneClass] ∧
      (ofSrc.extract (loneSource.withEntry ["src", "loop"] (.link "loop")) "" fun _ => true).value =
        .error ⟨"", .ofString "src", .tooManyLinks "src/loop"⟩ := by
  have leaf (target : String) : ∀ es, Entry.link target ≠ .dir es := by simp
  have missing : ofSrc.listing emptySources "p" = ⟨[], some (.noSourceDirectory "src/p")⟩ := by
    have other : emptySources.isDirectory (ofSrc.directory "p") = .ok false := by decide +kernel
    rw [listing, Store.findFiles, other]
    decide +kernel
  have blocked : ofSrc.listing (loneSource.withEntry ["src", "loop"] (.link "loop")) "" =
      ⟨[.ofString "src/B.java"], some (.tooManyLinks "src/loop")⟩ := by
    have found : Store.entry? (loneSource.withEntry ["src", "loop"] (.link "loop")) ofSrc.sources =
        .ok ((loneSource.withEntry ["src", "loop"] (.link "loop")).root.at? ["src"]) := by rfl
    rw [listing_empty, Store.findFiles_of_pairwise (by decide +kernel) found (by decide)]
    decide +kernel
  refine ⟨⟨⟨by decide +kernel, rfl⟩, ?_, ?_, extract_package_linkedPackage⟩, ⟨by decide +kernel, rfl⟩, ?_,
    extract_loneSource, ?_⟩
  · exact isBystander_of_isLinkFree (by decide) ["src"] "p" rfl rfl (by decide) (leaf _) (by decide +kernel)
  · rw [value_extract, missing]
    decide +kernel
  · exact isBystander_of_isLinkFree (by decide) ["src"] "loop" rfl rfl (by decide) (leaf _) (by decide +kernel)
  · rw [value_extract, blocked]
    decide +kernel

theorem extract_withEntry_dangling :
    let new := Entry.link "gone"
    loneSource.Sound ∧ loneSource.IsBystander ofSrc.ending ["src", "x"] new ∧
      (∀ target, new = .link target → loneSource.PassesBy ofSrc.sources ["src", "x"] new) ∧
      (ofSrc.extract (loneSource.withEntry ["src", "x"] new) "" fun _ => true).value = .ok [loneClass] ∧
      ∀ d, (Supertype.Chain.standard ofSrc "").supertype (loneSource.withEntry ["src", "x"] new) d =
        (Supertype.Chain.standard ofSrc "").supertype loneSource d := by
  intro new
  have sound : loneSource.Sound := ⟨by decide +kernel, rfl⟩
  have leaf : ∀ es, new ≠ .dir es := nofun
  have bystander : loneSource.IsBystander ofSrc.ending ["src", "x"] new :=
    isBystander_of_isLinkFree (by decide) ["src"] "x" rfl rfl (by decide) leaf (by decide +kernel)
  have passed : loneSource.PassesBy ofSrc.sources ["src", "x"] new := by
    have at_src : loneSource.locate ofSrc.sources = .ok (.present ["src"]) := by rfl
    refine ⟨Store.not_comesBy_of_locate bystander.free at_src, fun here names leads is b blocked => ?_⟩
    obtain rfl := Store.Place.present.inj (Except.ok.inj (at_src.symm.trans leads))
    obtain rfl : names = ["x"] := by simpa using is
    have dangles : Store.entry? (loneSource.withEntry ["src", "x"] new) (ofSrc.sources.below ["x"]) = .ok none := by rfl
    cases dangles.symm.trans blocked
  obtain ⟨scans, finds⟩ := extract_withEntry ofSrc sound bystander
  refine ⟨sound, bystander, fun _ _ => passed, ?_, finds (fun _ _ => passed) ""⟩
  rw [scans "" _ fun _ _ => passed, extract_loneSource]

end Collector

end EntityAtlas
