import EntityAtlas.Proofs.Extending
import EntityAtlas.Proofs.Locality

/-!
# Scans after a run

What a run has written is not seen by a later scan, when no path under the output directory and no path under the
sources denote one place. Links under the sources are the difficulty: one that led nowhere may lead through a directory
that the run has made. It still leads to no file, as long as it goes down from there by names that are not too long.
-/

namespace EntityAtlas.Store

/-- No path under one directory denotes what a path under the other one does. -/
def Apart (s : Store) (output sources : Path) : Prop :=
  ∀ loc, s.IsUnder output loc → ¬ s.IsUnder sources loc

/-- Links under the sources that come by a free place under an output directory, or on the way to it, go down from there
by names that are not too long. -/
def GoesDown (s : Store) (output sources : Path) : Prop :=
  ∀ here name target, s.IsUnder sources here → s.root.at? (here ++ [name]) = some (.link target) →
    ∀ place rest, Breaks s.root [name] here place rest → s.IsOnWay output place →
      ∀ part ∈ rest, part ≠ ".." ∧ part.utf8ByteSize ≤ maxName

variable {s s' : Store} {output sources : Path}

theorem IsUnder.append {p : Path} {here names loc : List String} (under : s.IsUnder p here)
    (areNames : Path.AreNames names) (points : PointsTo s.root names here loc) : s.IsUnder p loc := by
  obtain ⟨above, areAbove, denotes⟩ := under
  refine ⟨above ++ names, fun name mem => ?_, ?_⟩
  · exact (List.mem_append.mp mem).elim (areAbove name) (areNames name)
  · rw [Denotes, Path.below_append, parts_below areNames]
    exact PointsTo.append denotes points

/-- Below a free place, names lead nowhere else. -/
theorem pointsTo_of_free {root : Entry} {place parts : List String} (free : root.at? place = none)
    (down : ".." ∉ parts) : PointsTo root parts place (place ++ parts.filter (· ≠ ".")) :=
  pointsTo_of_linkless down fun l target longer _ _ there => by
    cases there.symm.trans (Entry.at?_eq_none_of_prefix free longer)

theorem IsUnder.append_of_free {p : Path} {place names : List String} (under : s.IsUnder p place)
    (free : s.root.at? place = none) (areNames : Path.AreNames names) : s.IsUnder p (place ++ names) := by
  have points : PointsTo s.root names place (place ++ names) := by
    simpa only [areNames.filter_eq] using pointsTo_of_free free fun mem => (areNames _ mem).2 rfl
  exact under.append areNames points

/-- Where names below a path lead is under it. -/
theorem isUnder_of_locate {p : Path} {names : List String} (areNames : Path.AreNames names) {place : Place}
    (located : s.locate (p.below names) = .ok place) : s.IsUnder p place.loc :=
  ⟨names, areNames, (locateFrom_eq_ok_iff.mp located).pointsTo⟩

namespace Extends

section

variable (extended : s.Extends output s')

include extended

theorem at?_link {l : List String} {target : String} :
    s'.root.at? l = some (.link target) ↔ s.root.at? l = some (.link target) := by
  refine ⟨extended.links l target, fun there => ?_⟩
  obtain ⟨c, there', alike⟩ := extended.keeps l _ there
  cases alike
  exact there'

/-- What was free and is not is on the way to the output directory, or under it. -/
theorem isOnWay {l : List String} (free : s.root.at? l = none) {c : Entry} (there : s'.root.at? l = some c) :
    s.IsOnWay output l := by
  cases c with
  | dir es => exact extended.dirs l es there free
  | link target => cases free.symm.trans (extended.at?_link.mp there)
  | file content =>
    rcases extended.files l content there with old | under
    · cases free.symm.trans old
    · exact under.isOnWay

end

section Links

variable (sound : s.Sound) (extended : s.Extends output s') (apart : s.Apart output sources)
  (down : s.GoesDown output sources)

include sound extended apart down

/-- A link that came by a free place leads to no file, whatever is there now. -/
theorem isIdle_of_breaks {here : List String} {name target : String} (under : s.IsUnder sources here)
    (there : s.root.at? (here ++ [name]) = some (.link target)) {rest dir : List String} {next : String}
    (breaks : Breaks s.root [name] here (dir ++ [next]) rest) (plain : IsPlain next) (links : Nat) :
    IsIdle s'.root (locateFrom s'.root (links + 1) (next :: rest) dir) := by
  have free := breaks.free
  cases taken : s'.root.at? (dir ++ [next]) with
  | none => exact isIdle_of_missing plain taken rest
  | some c =>
    have goesDown := down here name target under there _ rest breaks (extended.isOnWay free taken)
    refine isIdle_of_down plain goesDown fun l longer shorter => ?_
    have missing := Entry.at?_eq_none_of_prefix free longer
    cases there' : s'.root.at? l with
    | none => exact .inl rfl
    | some e =>
      cases e with
      | dir es => exact .inr ⟨es, rfl⟩
      | link target' => cases missing.symm.trans (extended.at?_link.mp there')
      | file content =>
        -- a file would be under the output directory, and the end of the way under both directories
        have isUnder := (extended.files l content there').resolve_left fun old => nomatch missing.symm.trans old
        have isName := sound.tree.isName_of_at? there name (by simp)
        have component : ∀ part ∈ rest, IsComponent part := breaks.isComponent fun part mem => by
          rw [List.mem_singleton.mp mem]
          exact ⟨fun same => absurd (same ▸ isName.1.1) (by decide), isName.1.2⟩
        obtain ⟨more, is⟩ := shorter
        have areNames : Path.AreNames more := by
          obtain ⟨between, rfl⟩ := longer
          have split : between ++ more = rest.filter (· ≠ ".") := by simpa using is
          intro part mem
          obtain ⟨mem, stay⟩ := List.mem_filter.mp (split ▸ List.mem_append_right between mem)
          have isComponent := component part mem
          exact ⟨⟨by simpa [Path.isProper, isComponent.1] using stay, isComponent.2⟩, (goesDown part mem).1⟩
        refine (apart _ (isUnder.append_of_free missing areNames) ?_).elim
        rw [is]
        have isNames : ∀ n ∈ [name], Entry.IsName n := by simpa using isName
        refine under.append isNames ?_
        exact breaks.pointsTo (pointsTo_of_free free fun mem => (goesDown _ mem).1 rfl)

variable {package here : List String} {es : List (String × Entry)} (areNames : Path.AreNames package)
  (found : s.locate (sources.below package) = .ok (.present here)) (isDir : s.root.at? here = some (.dir es))

include areNames found

omit sound down in
/-- No file is there that is new. -/
theorem ne_file_of_missing {es' : List (String × Entry)} (isDir' : s'.root.at? here = some (.dir es'))
    {names : List String} (missing : s.root.at? (here ++ names) = none) (content : List UInt8) :
    s'.root.at? (here ++ names) ≠ some (.file content) := by
  intro there
  have isUnder := (extended.files _ content there).resolve_left fun old => nomatch missing.symm.trans old
  have isNames := (extended.sound.tree.at? isDir').isName_of_at? ((Entry.at?_of_at? isDir' _).trans there)
  have points := (pointsTo_of_at? isNames there nofun).congr fun l target => extended.at?_link.symm
  exact apart _ isUnder ((isUnder_of_locate areNames found).append isNames points)

include isDir

/-- Below a directory of the sources, an entry has the place that it had; or it is a link that led nowhere and does not
lead to a file now. -/
theorem locate_below {names : List String} (nonempty : names ≠ []) {e : Entry}
    (there : s.root.at? (here ++ names) = some e) :
    s'.locate ((sources.below package).below names) = s.locate ((sources.below package).below names) ∨
      (∃ target, e = .link target) ∧ IsIdle s.root (s.locate ((sources.below package).below names)) ∧
        IsIdle s'.root (s'.locate ((sources.below package).below names)) := by
  obtain ⟨names, name, rfl⟩ := (List.eq_nil_or_concat' names).resolve_left nonempty
  rw [← List.append_assoc] at there
  obtain ⟨left, -, at_end⟩ := exists_locate_below found isDir
  obtain ⟨c, there', -⟩ := extended.keeps _ _ there
  rw [at_end s sound.tree rfl (.refl _) names name e there,
    at_end s' extended.sound.tree extended.cwd extended.keeps names name c there']
  split
  · by_cases whole : ∀ place, Visits s.root (left + 1) [name] (here ++ names) place → s.root.at? place ≠ none
    · exact .inl (locateFrom_of_keeps extended.keeps whole)
    -- a way that came by a free place is one along a link, since the entry itself was there
    · obtain ⟨place, visits, free⟩ : ∃ place, Visits s.root (left + 1) [name] (here ++ names) place ∧
          s.root.at? place = none := by
        simpa using whole
      obtain ⟨target, isLink⟩ : ∃ target, s.root.at? (here ++ names ++ [name]) = some (.link target) := by
        cases visits with
        | here => cases there.symm.trans free
        | up onward => cases onward
        | stay onward => cases onward
        | down _ _ onward => cases onward
        | link _ isLink => exact ⟨_, isLink⟩
      obtain ⟨rest, breaks, links, front, next, rfl, plain, onward⟩ := visits.exists_breaks free
      have isNames := (sound.tree.at? isDir).isName_of_at? ((Entry.at?_of_at? isDir names).trans
        (Entry.exists_dir isLink).choose_spec)
      have under' : s.IsUnder sources (here ++ names) := by
        obtain ⟨es', isDir'⟩ := Entry.exists_dir isLink
        exact (isUnder_of_locate areNames found).append isNames
          (pointsTo_of_at? isNames isDir' nofun)
      refine .inr ⟨⟨target, Option.some.inj (there.symm.trans isLink)⟩, ?_, ?_⟩
      · rw [onward s.root (.refl _)]
        exact isIdle_of_missing plain free rest
      · rw [onward s'.root extended.keeps]
        exact isIdle_of_breaks sound extended apart down under' isLink breaks plain links
  · exact .inl rfl

/-- A walk there is the walk that it was: what is new adds nothing to it. -/
theorem walksAlike {es' : List (String × Entry)} (isDir' : s'.root.at? here = some (.dir es')) (ending : String) :
    s.WalksAlike s' ending (sources.below package) (.dir es) (.dir es') := by
  refine ⟨fun names c => ?_, fun names target there shown => ?_, fun names c missing there => ?_⟩
  · rw [Entry.at?_of_at? isDir, Entry.at?_of_at? isDir']
    exact extended.keeps _ c
  · rw [Entry.at?_of_at? isDir] at there
    have nonempty := ne_nil_of_link isDir there
    rcases locate_below sound extended apart down areNames found isDir nonempty there with same | ⟨-, idle, idle'⟩
    · refine isRegularFile_congr same (fun loc located => ?_) shown
      obtain ⟨c, present⟩ := exists_at?_of_locate_below sound found isDir nonempty there located
      obtain ⟨c', present', alike⟩ := extended.keeps loc c present
      exact present ▸ present' ▸ .some alike
    · rw [idle.isRegularFile_eq, idle'.isRegularFile_eq]
  · rw [Entry.at?_of_at? isDir] at missing
    rw [Entry.at?_of_at? isDir'] at there
    cases c with
    | dir es => exact ⟨fun leaf => absurd rfl (leaf es), nofun⟩
    | link target => cases missing.symm.trans (extended.at?_link.mp there)
    | file content => exact absurd there (extended.ne_file_of_missing apart areNames found isDir' missing content)

/-- What a walk lists there is read as it was. -/
theorem readText_eq_of_isSource {ending : String} {names : List String}
    (is : s.IsSource ending (sources.below package) (.dir es) names) :
    s'.readText ((sources.below package).below names) = s.readText ((sources.below package).below names) := by
  have kinds := is.2
  simp only [Entry.at?_of_at? isDir] at kinds
  have isNames := is.areNames (sound.tree.at? isDir)
  obtain ⟨e, there⟩ := is.exists_at?
  rw [Entry.at?_of_at? isDir] at there
  obtain ⟨name, rest, -, rfl, -⟩ := is.exists_cons
  rcases locate_below sound extended apart down areNames found isDir (by simp) there with
    same | ⟨⟨target, rfl⟩, idle, -⟩
  · refine readText_eq same fun loc located => ?_
    obtain ⟨c, present⟩ := exists_at?_of_locate_below sound found isDir (by simp) there located
    have under : s.IsUnder sources loc := by
      rw [← Path.below_append] at located
      refine isUnder_of_locate (fun n mem => ?_) located
      exact (List.mem_append.mp mem).elim (areNames n) (isNames n)
    obtain ⟨c', present', alike⟩ := extended.keeps loc c present
    have kept {content : List UInt8} (isFile : s'.root.at? loc = some (.file content)) :
        s.root.at? loc = some (.file content) :=
      (extended.files loc content isFile).resolve_right fun isUnder => apart loc isUnder under
    refine ⟨present ▸ present' ▸ .some alike, fun content => ⟨kept, fun isFile => ?_⟩⟩
    obtain rfl := Option.some.inj (present.symm.trans isFile)
    cases alike with
    | file _ content' => exact present'.trans ((kept present').symm.trans isFile)
  · -- a link that leads to no file is not listed
    rcases kinds with ⟨content, isFile⟩ | ⟨-, isFile⟩
    · cases there.symm.trans isFile
    · exact absurd isFile idle.not_isFile

end Links

section Scans

variable {c : Collector} (sound : s.Sound) (extended : s.Extends output s') (apart : s.Apart output c.sources)
  (down : s.GoesDown output c.sources)

include sound extended apart down

/-- What is below a directory of the sources reads as it did. -/
theorem seesAlike {package : String} {here : List String} {es : List (String × Entry)}
    (found : s.locate (c.directory package) = .ok (.present here)) (isDir : s.root.at? here = some (.dir es)) :
    c.SeesAlike s s' package := by
  obtain ⟨names, areNames, is⟩ := Package.exists_directory_eq c.sources package
  have is : c.directory package = c.sources.below names := is
  rw [is] at found
  obtain ⟨found', es', isDir'⟩ := locate_dir extended.cwd extended.keeps found isDir
  have isDirectory : s'.isDirectory (c.sources.below names) = s.isDirectory (c.sources.below names) := by
    refine isDirectory_congr (found'.trans found.symm) fun loc located => ?_
    obtain rfl := Place.present.inj (Except.ok.inj (found.symm.trans located))
    rw [isDir, isDir']
    exact .some (.dir es es')
  constructor
  case machine => exact extended.machine
  case listing =>
    rw [Collector.listing, Collector.listing, is]
    refine findFiles_congr sound extended.sound isDirectory fun there there' ds ds' leads isDs leads' isDs' => ?_
    obtain rfl := Place.present.inj (Except.ok.inj (found.symm.trans leads))
    obtain rfl := Place.present.inj (Except.ok.inj (found'.symm.trans leads'))
    exact walksAlike sound extended apart down areNames found isDs isDs' c.ending
  case texts =>
    intro f mem
    rw [Collector.listing, is] at mem
    obtain ⟨there, ds, row, leads, isDs, rfl, source⟩ := exists_of_mem_findFiles sound mem
    exact readText_eq_of_isSource sound extended apart down areNames leads isDs source

/-- A scan that succeeds comes to the same after the run, its log and what could stop it included. -/
theorem scan_eq {package : String} {scan : Nesting.Scan}
    (succeeds : ((Nesting.standard package c).scan s).value = .ok scan) :
    (Nesting.standard package c).scan s' = (Nesting.standard package c).scan s := by
  obtain ⟨entities, scans⟩ := Nesting.exists_entities succeeds
  have listed : (c.listing s (Package.normalize package)).fault = none := c.fault_listing_of_entities scans
  obtain ⟨nulFree, es, found⟩ := exists_of_fault_findFiles listed
  obtain ⟨here, found, isDir⟩ := entry?_eq_ok_some.mp found
  obtain ⟨-, front, es', whole, isDir'⟩ := c.exists_locate_sources found isDir nulFree
  have below : c.SeesAlike s s' (Package.normalize package) := seesAlike sound extended apart down found isDir
  have everywhere : c.SeesAlike s s' "" := seesAlike sound extended apart down whole isDir'
  exact Nesting.scan_eq_of_seesAlike below everywhere

end Scans

end Extends

end EntityAtlas.Store
