import EntityAtlas.Proofs.Additions
import EntityAtlas.Proofs.MetadataFiles
import EntityAtlas.Proofs.Surroundings

/-!
# Confinement to the output directory

The files of a run have paths below the output directory, as long as no piece of a package is a path of its own that
starts at the root. Whatever a run makes or changes, it succeeds or not, is then reached by a path that goes from the
output directory downwards; only directories that the output directory is to stand in may be made above it.
-/

namespace EntityAtlas

/-- A text without a slash does not start with one. -/
theorem Text.startsWith_slash_eq_false {s : String} (slashless : '/' ∉ s.toList) : startsWith s "/" = false := by
  refine eq_false_of_ne_true fun starts => slashless ?_
  have front : s.toList.take 1 = ['/'] := by simpa [startsWith] using starts
  exact List.mem_of_mem_take (front ▸ List.mem_singleton_self '/' : '/' ∈ s.toList.take 1)

namespace Path

/-- A path is the base or goes from it downwards. -/
def LeadsDown (base p : Path) : Prop :=
  ∃ names, ".." ∉ names ∧ p = base.below names

/-- What lies on the way to a path that goes down lies on the way to the base, or goes down itself. -/
theorem LeadsDown.of_isWithin {base p q : Path} (down : base.LeadsDown p) (within : q.isWithin p = true) :
    q.isWithin base = true ∨ base.LeadsDown q := by
  obtain ⟨names, free, rfl⟩ := down
  obtain ⟨more, is⟩ := isWithin_iff.mp within
  have anchor' : base.anchor = q.anchor := congrArg (·.anchor) is
  have parts := congrArg (·.parts) is
  rw [parts_below, parts_below] at parts
  rcases List.append_eq_append_iff.mp parts with ⟨rest, longer, rest'⟩ | ⟨rest, longer, rest'⟩
  · refine .inr ⟨rest, fun mem => free (List.mem_of_mem_filter (rest' ▸ List.mem_append_left _ mem)), ?_⟩
    rw [below, anchor', ← longer, ofParts_parts]
  · exact .inl (isWithin_iff.mpr ⟨rest, by rw [below, ← anchor', ← longer, ofParts_parts]⟩)

theorem join_eq {p : Path} {s : String} (relative : Text.startsWith s "/" = false) :
    p.join s = p.below (ofString s).parts := by
  have here : (ofString s).anchor = .here := by
    change anchorOf s.toList = .here
    unfold anchorOf
    split
    all_goals first
      | rfl
      | simp_all [Text.startsWith]
  refine Path.ext ?_ ?_
  · simp [join, append, here]
  · rw [parts_below_of_areParts p (ofString s).clean]
    simp [join, append, here]

/-- The components of a path hold characters of its text only. -/
theorem mem_of_mem_parts {s part : String} (mem : part ∈ (ofString s).parts) {c : Char} (among : c ∈ part.toList) :
    c ∈ s.toList :=
  Text.mem_of_mem_pieces (List.mem_filter.mp mem).1 among

/-- Names by which a path goes down: they can be names of entries. -/
def AreNames (names : List String) : Prop :=
  ∀ name ∈ names, Entry.IsName name

theorem areNames_parts {s : String} (dotless : '.' ∉ s.toList) : AreNames (ofString s).parts := by
  refine fun name mem => ⟨(ofString s).clean name mem, ?_⟩
  rintro rfl
  exact dotless (mem_of_mem_parts mem (by decide))

theorem exists_joinAll_eq {p : Path} {texts : List String}
    (relative : ∀ text ∈ texts, '.' ∉ text.toList ∧ Text.startsWith text "/" = false) :
    ∃ names, AreNames names ∧ p.joinAll texts = p.below names := by
  induction texts generalizing p with
  | nil => exact ⟨[], by simp [AreNames], (below_nil p).symm⟩
  | cons text texts ih =>
    obtain ⟨⟨dotless, start⟩, relative⟩ := List.forall_mem_cons.mp relative
    obtain ⟨names, areNames, is⟩ := ih (p := p.join text) relative
    refine ⟨(ofString text).parts ++ names, fun name mem => ?_, ?_⟩
    · rcases List.mem_append.mp mem with mem | mem
      · exact areNames_parts dotless name mem
      · exact areNames name mem
    · rw [below_append, ← join_eq start, ← is]
      rfl

end Path

/-- No piece of a package is a path that starts at the root. In a source that could only be a comment after a dot. -/
def Package.IsRelative (package : Option String) : Prop :=
  ∀ p ∈ package, ∀ piece ∈ Text.pieces '.' p, Text.startsWith piece "/" = false

namespace Package

theorem isRelative_of_isSegment {package : Option String}
    (segments : ∀ p ∈ package, ∀ piece ∈ Text.pieces '.' p, Text.IsSegment piece) : IsRelative package := by
  intro p mem piece among
  exact Text.startsWith_slash_eq_false (segments p mem piece among).slashless

theorem exists_outputDirectory_eq (output : Path) {package : Option String} (relative : IsRelative package) :
    ∃ names, Path.AreNames names ∧ outputDirectory output package = output.below names := by
  unfold outputDirectory
  split
  · exact ⟨[], by simp [Path.AreNames], (Path.below_nil output).symm⟩
  · rename_i p
    split
    · exact ⟨[], by simp [Path.AreNames], (Path.below_nil output).symm⟩
    · exact Path.exists_joinAll_eq fun piece mem => ⟨Text.not_mem_of_mem_pieces mem, relative p rfl piece mem⟩

end Package

namespace Generate

/-- The file of a class goes down from the output directory. -/
theorem exists_file_eq (output : Path) {package : Option String} (relative : Package.IsRelative package)
    {name : String} (slashless : '/' ∉ name.toList) :
    ∃ names, Path.AreNames names ∧
      (Package.outputDirectory output package).join (name ++ ".java") = output.below names := by
  obtain ⟨names, areNames, is⟩ := Package.exists_outputDirectory_eq output relative
  have free : '/' ∉ (name ++ ".java").toList := by simp [slashless]
  have start : Text.startsWith (name ++ ".java") "/" = false := Text.startsWith_slash_eq_false free
  have parts : ∀ part ∈ (Path.ofString (name ++ ".java")).parts, part = name ++ ".java" := by
    intro part mem
    have piece := (List.mem_filter.mp mem).1
    rw [Text.pieces_of_not_mem free] at piece
    exact List.mem_singleton.mp piece
  refine ⟨names ++ (Path.ofString (name ++ ".java")).parts, fun part mem => ?_, ?_⟩
  · rcases List.mem_append.mp mem with mem | mem
    · exact areNames part mem
    · refine ⟨Path.clean _ part mem, ?_⟩
      rintro rfl
      have letter : 'j' ∈ (name ++ ".java").toList := by simp
      rw [← parts _ mem] at letter
      exact absurd letter (by decide)
  · rw [Path.join_eq start, is, Path.below_append]

/-- The files of a plan that names classes without slashes go down from the output directory. -/
theorem Plan.exists_target_eq (plan : Plan) {d : Decl} (relative : Package.IsRelative d.head.package)
    (slashless : '/' ∉ (plan.naming d.name).toList) :
    ∃ names, Path.AreNames names ∧ plan.target d = plan.output.below names :=
  exists_file_eq plan.output relative slashless

theorem Holder.exists_path_eq (output : Path) :
    ∃ names, Path.AreNames names ∧ Holder.path output = output.below names :=
  exists_file_eq output (by simpa [Package.IsRelative] using by decide) (by decide)

/-- The files that a plan is to write for a graph. -/
def Plan.IsFile (plan : Plan) (g : EntityGraph) (p : Path) : Prop :=
  p = Holder.path plan.output ∨ ∃ r ∈ g.roots, p = plan.target r.decl

namespace Plan

variable (plan : Plan) {g : EntityGraph} {columnsOf : Placed → List String}

theorem mem_of_mem_assign {taken : List (Path × Placed)} {roots : List Placed} {row : Placed × Path × Option Placed}
    (mem : row ∈ plan.assign taken roots) : row.1 ∈ roots := by
  induction roots generalizing taken with
  | nil => cases mem
  | cons r roots ih =>
    rw [assign] at mem
    split at mem
    all_goals
      rcases List.mem_cons.mp mem with rfl | mem
      · exact List.mem_cons_self
      · exact List.mem_cons_of_mem _ (ih mem)

theorem writeEntities_adds {ends : Path → Prop} {written : List Path} {s : Store}
    {rows : List (Placed × Path × Option Placed)}
    (each : ∀ row ∈ rows, ends (plan.target row.1.decl) ∧ s.Begins (plan.target row.1.decl)) :
    Store.AddsAt (fun q => ∃ p, ends p ∧ q.isWithin p = true) ends s
      (plan.writeEntities g columnsOf written s rows).value.store := by
  induction rows generalizing written s with
  | nil => exact .refl s
  | cons row rows ih =>
    obtain ⟨⟨isEnd, begins⟩, others⟩ := List.forall_mem_cons.mp each
    obtain ⟨r, file, earlier⟩ := row
    cases earlier with
    | some e => exact ih others
    | none =>
      have adds : Store.AddsAt (fun q => ∃ p, ends p ∧ q.isWithin p = true) ends s
          (s.save (plan.document g columnsOf r).1 (plan.document g columnsOf r).2).2 :=
        (Store.save_adds s (plan.document g columnsOf r).2 begins).mono (fun q within => ⟨_, isEnd, within⟩)
          fun p (same : p = _) => same ▸ isEnd
      rw [value_writeEntities_cons, value_writeEntity]
      cases saved : s.save (plan.document g columnsOf r).1 (plan.document g columnsOf r).2 with
      | mk outcome s' =>
        rw [saved] at adds
        cases outcome with
        | error f => exact adds
        | ok =>
          refine adds.trans (ih fun row mem => ?_)
          obtain ⟨isEnd, begins⟩ := others row mem
          exact ⟨isEnd, adds.begins begins⟩

/-- Whatever comes of writing, it adds the files of the plan and directories on the way to them. -/
theorem write_adds (columnsOf : Placed → List String) (s : Store)
    (begins : ∀ p, plan.IsFile g p → s.Begins p) :
    Store.AddsAt (fun q => ∃ p, plan.IsFile g p ∧ q.isWithin p = true) (plan.IsFile g) s
      (plan.write g columnsOf s).value.store := by
  have isFile : plan.IsFile g (Holder.path plan.output) := .inl rfl
  have adds : Store.AddsAt (fun q => ∃ p, plan.IsFile g p ∧ q.isWithin p = true) (plan.IsFile g) s
      (s.save (Holder.path plan.output) (Text.Utf8.encode plan.holderText.toList)).2 :=
    (Store.save_adds s _ (begins _ isFile)).mono (fun q within => ⟨_, isFile, within⟩)
      fun p (same : p = _) => same ▸ isFile
  simp only [write, Logged.value_bind, value_writeHolder]
  cases saved : s.save (Holder.path plan.output) (Text.Utf8.encode plan.holderText.toList) with
  | mk outcome s' =>
    rw [saved] at adds
    cases outcome with
    | error f => exact adds
    | ok =>
      refine adds.trans (plan.writeEntities_adds fun row mem => ?_)
      have isFile' : plan.IsFile g (plan.target row.1.decl) := .inr ⟨row.1, plan.mem_of_mem_assign mem, rfl⟩
      exact ⟨isFile', adds.begins (begins _ isFile')⟩

end Plan

end Generate

namespace Entry

mutual

/-- Whether there is no link in a tree. -/
def isLinkFree : Entry → Bool
  | .file _ => true
  | .link _ => false
  | .dir es => areLinkFree es

/-- Whether there is no link in several trees. -/
def areLinkFree : List (String × Entry) → Bool
  | [] => true
  | (_, e) :: es => e.isLinkFree && areLinkFree es

end

theorem isLinkFree_of_mem {es : List (String × Entry)} (free : areLinkFree es = true) {p : String × Entry}
    (mem : p ∈ es) : p.2.isLinkFree = true := by
  induction es with
  | nil => cases mem
  | cons e es ih =>
    obtain ⟨here, others⟩ := Bool.and_eq_true_iff.mp free
    rcases List.mem_cons.mp mem with rfl | mem
    · exact here
    · exact ih others mem

theorem isLinkFree_of_at? {e e' : Entry} (free : e.isLinkFree = true) {loc : List String}
    (found : e.at? loc = some e') : e'.isLinkFree = true := by
  induction loc generalizing e with
  | nil => exact Option.some.inj found ▸ free
  | cons name loc ih =>
    obtain ⟨c, child, found⟩ := Option.bind_eq_some_iff.mp found
    refine ih ?_ found
    cases e with
    | dir es => exact isLinkFree_of_mem free (mem_of_lookup child)
    | file content => cases child
    | link target => cases child

end Entry

namespace Store

/-- Without links a way that goes down ends below where it starts, at the place that it spells out. -/
theorem Leads.loc_eq {root : Entry} (free : root.isLinkFree = true) {links : Nat} {parts here : List String}
    {place : Place} (leads : Leads root links parts here place) (down : ∀ part ∈ parts, part ≠ "..") :
    place.loc = here ++ parts.filter (· ≠ ".") := by
  induction leads with
  | arrive => exact (List.append_nil _).symm
  | up => exact absurd rfl (down ".." List.mem_cons_self)
  | stay _ ih => exact ih fun part mem => down part (List.mem_cons_of_mem _ mem)
  | down plain _ _ ih =>
    rw [ih fun part mem => down part (List.mem_cons_of_mem _ mem), List.filter_cons_of_pos (by simpa using plain.stay),
      List.append_assoc, List.singleton_append]
  | file plain => simp [Place.loc, plain.stay]
  | free plain => simp [Place.loc, plain.stay]
  | link _ there => cases Entry.isLinkFree_of_at? free there

/-- Without links a path that goes down from an anchored one leads to a place below that one. -/
theorem prefix_of_leadsDown {s : Store} (free : s.root.isLinkFree = true) {base p : Path}
    (anchored : base.anchor ≠ .here) (up : ".." ∉ base.parts)
    (down : base.LeadsDown p) {loc : List String} (found : s.locate p = .ok (.present loc)) : base.parts <+: loc := by
  obtain ⟨names, free', rfl⟩ := down
  have start : s.start (base.below names) = [] := by
    unfold start
    split
    · rename_i here
      exact absurd here anchored
    · rfl
  rw [locate, start] at found
  have place := (locateFrom_eq_ok_iff.mp found).loc_eq free fun part mem => ?_
  · have kept : (base.below names).parts.filter (· ≠ ".") = (base.below names).parts :=
      List.filter_eq_self.mpr fun part mem => by
        simpa using fun same : part = "." => (base.below names).dot_not_mem_parts (same ▸ mem)
    rw [kept, Path.parts_below, List.nil_append] at place
    exact (show loc = _ from place) ▸ List.prefix_append _ _
  · rintro rfl
    rw [Path.parts_below] at mem
    exact (List.mem_append.mp mem).elim up fun mem => free' (List.mem_of_mem_filter mem)

end Store

namespace Run

/-- The store after a run: as before it, or as writing has left it. -/
theorem store_of_generate (settings : Settings) (date : String) (s : Store) :
    (generate settings date s).value.store = s ∨ ∃ scan, (settings.scan s).value = .ok scan ∧
      (generate settings date s).value.store =
        ((plan settings s date).write scan.graph scan.columnsOf s).value.store := by
  rcases generate_cases settings date s with ⟨f, failed⟩ | ⟨scan, -, found, ends⟩
  · rw [failed]
    exact .inl rfl
  · rw [ends]
    exact .inr ⟨scan, found, rfl⟩

/-- The roots of a scan are declared in the sources. -/
theorem declared_of_mem_roots {settings : Settings} {s : Store} (sound : s.Sound) {scan : Nesting.Scan}
    (found : (settings.scan s).value = .ok scan) {r : Placed} (mem : r ∈ scan.graph.roots) :
    r ∈ settings.nesting.collector.declaredBelow s settings.nesting.package := by
  obtain ⟨entities, scans, holds, -⟩ :=
    Nesting.holds_of_scan (Supertype.Chain.contained_standard _ _ s) sound found
  rw [holds.roots_eq] at mem
  have isEntity := (List.mem_filter.mp mem).1
  rw [Collector.value_entities_eq_ok _ scans] at isEntity
  exact (List.mem_filter.mp isEntity).1

theorem nodup_roots {settings : Settings} {s : Store} (sound : s.Sound) {scan : Nesting.Scan}
    (found : (settings.scan s).value = .ok scan) : scan.graph.roots.Nodup := by
  obtain ⟨entities, scans, holds, -⟩ :=
    Nesting.holds_of_scan (Supertype.Chain.contained_standard _ _ s) sound found
  exact holds.nodup.filter _

/-- The files of a run go down from the output directory, if no package is told by a path from the root. -/
theorem exists_names_of_isFile (date : String) {settings : Settings} {s : Store} (sound : s.Sound)
    {scan : Nesting.Scan} (found : (settings.scan s).value = .ok scan)
    (relative : ∀ r ∈ scan.graph.roots, Package.IsRelative r.decl.head.package) {p : Path}
    (isFile : (plan settings s date).IsFile scan.graph p) :
    ∃ names, Path.AreNames names ∧ p = (plan settings s date).output.below names := by
  rcases isFile with rfl | ⟨r, isRoot, rfl⟩
  · exact Generate.Holder.exists_path_eq _
  · have segment := Collector.isSegment_of_mem_declaredBelow _ _ (declared_of_mem_roots sound found isRoot)
    refine (plan settings s date).exists_target_eq (relative r isRoot) ?_
    simpa [plan, Naming.standard] using segment.slashless

/-- Writing adds these files and directories on the way to them. -/
theorem addsAt_of_scan (date : String) {settings : Settings} {s : Store} (sound : s.Sound) {scan : Nesting.Scan}
    (found : (settings.scan s).value = .ok scan)
    (relative : ∀ r ∈ scan.graph.roots, Package.IsRelative r.decl.head.package) :
    Store.AddsAt (fun q => ∃ p, (plan settings s date).IsFile scan.graph p ∧ q.isWithin p = true)
      ((plan settings s date).IsFile scan.graph) s
      ((plan settings s date).write scan.graph scan.columnsOf s).value.store := by
  refine (plan settings s date).write_adds scan.columnsOf s fun p isFile => ?_
  obtain ⟨names, areNames, rfl⟩ := exists_names_of_isFile date sound found relative isFile
  exact sound.begins (anchor_output settings s date)

/-- Whatever a run makes or changes is reached by a path that goes from the output directory downwards, or it is a
directory on the way to the output directory. It is of no account whether the run succeeds. Sources that are read
leniently must have packages none of whose pieces is a path from the root. -/
theorem generate_confined (settings : Settings) (date : String) {s : Store} (sound : s.Sound)
    (relative : settings.level = .java8 ∨ ∀ scan, (settings.scan s).value = .ok scan →
      ∀ r ∈ scan.graph.roots, Package.IsRelative r.decl.head.package) :
    ∀ change ∈ s.changes (generate settings date s).value.store,
      ∃ p, (generate settings date s).value.store.locate p = .ok (.present change.loc) ∧
        ((plan settings s date).output.LeadsDown p ∨
          change = .directory change.loc ∧ p.isWithin (plan settings s date).output = true) := by
  intro change mem
  rcases store_of_generate settings date s with same | ⟨scan, found, same⟩
  · rw [same] at mem ⊢
    obtain ⟨fits, new⟩ := Store.fits_of_mem_changes sound.tree.distinct mem
    exact absurd fits new
  rw [same] at mem ⊢
  have relative' : ∀ r ∈ scan.graph.roots, Package.IsRelative r.decl.head.package := by
    rcases relative with strict | relative
    · intro r mem
      have reader : settings.nesting.collector.level.reader = .strict := congrArg Java.Level.reader strict
      have declared := declared_of_mem_roots sound found mem
      exact Package.isRelative_of_isSegment (Collector.isSegment_of_mem_pieces reader declared)
    · exact relative scan found
  have adds := addsAt_of_scan date sound found relative'
  obtain ⟨p, reached, isFile | ⟨isDirectory, file, isFile, within⟩⟩ := adds.of_mem_changes sound.tree.distinct mem
  · obtain ⟨names, areNames, is⟩ := exists_names_of_isFile date sound found relative' isFile
    exact ⟨p, reached, .inl ⟨names, fun mem => (areNames _ mem).2 rfl, is⟩⟩
  · obtain ⟨names, areNames, is⟩ := exists_names_of_isFile date sound found relative' isFile
    have leads : (plan settings s date).output.LeadsDown file := ⟨names, fun mem => (areNames _ mem).2 rfl, is⟩
    rcases leads.of_isWithin within with onWay | leads
    · exact ⟨p, reached, .inr ⟨isDirectory, onWay⟩⟩
    · exact ⟨p, reached, .inl leads⟩

/-- A class in a package whose name is written with a comment after a dot. -/
def commentedSources : Store where
  root := .dir [("A.java", .file (Text.Utf8.encode "package a./**/b; @Table class A { }".toList))]
  cwd := []

/-- A class in a package. -/
def plainSources : Store where
  root := .dir [("A.java", .file (Text.Utf8.encode "package a.b; @Table class A { }".toList))]
  cwd := []

/-- Settings that read the working directory and write to a directory inside another one. -/
def nestedOutput : Settings := ⟨.here, "", .ofString "out/gen", .here, .java17, "r2dbc"⟩

theorem sound_plainSources : plainSources.Sound where
  tree := .dir (by decide) (by simpa using by decide) (by simpa using .file _)
  isDir := rfl

theorem sound_commentedSources : commentedSources.Sound where
  tree := .dir (by decide) (by simpa using by decide) (by simpa using .file _)
  isDir := rfl

theorem generate_confined_plain :
    let plan := plan nestedOutput plainSources "2024-01-01"
    let after := (generate nestedOutput "2024-01-01" plainSources).value.store
    plainSources.Sound ∧ (∃ c ∈ plainSources.changes after, c.loc = ["out", "gen", "a", "b", "A_.java"]) ∧
      ∀ change ∈ plainSources.changes after, ∃ p, after.locate p = .ok (.present change.loc) ∧
        (plan.output.LeadsDown p ∨ change = .directory change.loc ∧ p.isWithin plan.output = true) := by
  intro plan after
  have packages : (match (nestedOutput.scan plainSources).value with
      | .ok scan => decide (∀ r ∈ scan.graph.roots, r.decl.head.package = some "a.b")
      | .error _ => false) = true := by
    decide +kernel
  have relative : ∀ scan, (nestedOutput.scan plainSources).value = .ok scan →
      ∀ r ∈ scan.graph.roots, Package.IsRelative r.decl.head.package := by
    intro scan found r mem
    rw [found] at packages
    rw [of_decide_eq_true packages r mem]
    simpa [Package.IsRelative] using by decide
  exact ⟨sound_plainSources, by decide +kernel,
    generate_confined nestedOutput "2024-01-01" sound_plainSources (.inr relative)⟩

/-- A missing directory that is to hold the output directory is made, and a package with a comment after a dot leads to
the root: neither is reached by a path that goes from the output directory downwards. -/
theorem generate_outside_output :
    let plan := plan nestedOutput commentedSources "2024-01-01"
    let after := (generate nestedOutput "2024-01-01" commentedSources).value.store
    commentedSources.Sound ∧
      (∃ c ∈ commentedSources.changes after, c.loc = ["out"]) ∧
      (∃ c ∈ commentedSources.changes after, c.loc = ["**", "b", "A_.java"]) ∧
      ∀ p, plan.output.LeadsDown p →
        after.locate p ≠ .ok (.present ["out"]) ∧ after.locate p ≠ .ok (.present ["**", "b", "A_.java"]) := by
  intro plan after
  have free : after.root.isLinkFree = true := by decide +kernel
  refine ⟨sound_commentedSources, by decide +kernel, by decide +kernel, fun p down => ?_⟩
  have below {loc : List String} (found : after.locate p = .ok (.present loc)) : ["out", "gen"] <+: loc :=
    Store.prefix_of_leadsDown free (by decide) (by decide) down found
  exact ⟨fun found => absurd (below found) (by decide), fun found => absurd (below found) (by decide)⟩

end Run

end EntityAtlas
