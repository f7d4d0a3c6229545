import EntityAtlas.Proofs.Blocks
import EntityAtlas.Proofs.NestingForest
import EntityAtlas.Proofs.Saving
import EntityAtlas.Run

/-!
# Metadata files

A run that succeeds writes one file for each root entity that is the first with its file. The class blocks of these
files stand for the entities below these roots, and no other file changes but the one of the accessor class.
-/

namespace EntityAtlas

/-! ## Where paths start -/

theorem Path.anchor_append {p : Path} (anchored : p.anchor ≠ .here) (q : Path) : (p.append q).anchor ≠ .here := by
  cases above : q.anchor with
  | here => simpa [Path.append, above] using anchored
  | root => simp [Path.append, above]
  | doubleRoot => simp [Path.append, above]

/-- An anchored path begins at the root. -/
theorem Store.Sound.begins {s : Store} (sound : s.Sound) {p : Path} (anchored : p.anchor ≠ .here) : s.Begins p := by
  have start : s.start p = [] := by
    unfold Store.start
    split
    · rename_i here
      exact absurd here anchored
    · rfl
  rw [Store.Begins, start]
  cases tree : s.root with
  | dir es => exact ⟨es, rfl⟩
  | file content => simpa [tree, Entry.isDir] using sound.isDir
  | link target => simpa [tree, Entry.isDir] using sound.isDir

/-- What is told below a path starts where the path does, or at the root. -/
theorem Store.Begins.append {s : Store} {p : Path} (begins : s.Begins p) (q : Path) : s.Begins (p.append q) := by
  cases above : q.anchor with
  | here => simpa [Path.append, above, Store.Begins, Store.start] using begins
  | root => simpa [Path.append, above, Store.Begins, Store.start] using begins.rooted
  | doubleRoot => simpa [Path.append, above, Store.Begins, Store.start] using begins.rooted

theorem Store.Begins.joinAll {s : Store} {p : Path} (begins : s.Begins p) (texts : List String) :
    s.Begins (p.joinAll texts) := by
  induction texts generalizing p with
  | nil => exact begins
  | cons text texts ih => exact ih (begins.append (.ofString text))

theorem Store.Begins.outputDirectory {s : Store} {output : Path} (begins : s.Begins output) (package : Option String) :
    s.Begins (Package.outputDirectory output package) := by
  unfold Package.outputDirectory
  split
  · exact begins
  · split
    · exact begins
    · exact begins.joinAll _

namespace Generate.Plan

variable (plan : Plan) {g : EntityGraph} {columnsOf : Placed → List String}

/-! ## Roots that get a file -/

/-- The roots that are the first with their file. -/
def firsts (roots : List Placed) : List Placed :=
  roots.filter fun r => roots.find? (fun q => plan.target q.decl == plan.target r.decl) == some r

/-- The roots that get a file when `taken` files belong to earlier roots. -/
def chosen (taken : List (Path × Placed)) (roots : List Placed) : List Placed :=
  ((plan.assign taken roots).filter (·.2.2.isNone)).map (·.1)

theorem assign_cons_of_some {taken : List (Path × Placed)} {r e : Placed} (roots : List Placed)
    (earlier : taken.lookup (plan.target r.decl) = some e) :
    plan.assign taken (r :: roots) = (r, plan.target r.decl, some e) :: plan.assign taken roots := by
  rw [assign, earlier]

theorem assign_cons_of_none {taken : List (Path × Placed)} {r : Placed} (roots : List Placed)
    (new : taken.lookup (plan.target r.decl) = none) :
    plan.assign taken (r :: roots) =
      (r, plan.target r.decl, none) :: plan.assign ((plan.target r.decl, r) :: taken) roots := by
  rw [assign, new]

theorem chosen_cons_of_some {taken : List (Path × Placed)} {r e : Placed} (roots : List Placed)
    (earlier : taken.lookup (plan.target r.decl) = some e) :
    plan.chosen taken (r :: roots) = plan.chosen taken roots := by
  rw [chosen, assign_cons_of_some plan roots earlier]
  rfl

theorem chosen_cons_of_none {taken : List (Path × Placed)} {r : Placed} (roots : List Placed)
    (new : taken.lookup (plan.target r.decl) = none) :
    plan.chosen taken (r :: roots) = r :: plan.chosen ((plan.target r.decl, r) :: taken) roots := by
  rw [chosen, assign_cons_of_none plan roots new]
  rfl

theorem chosen_eq {roots : List Placed} (nodup : roots.Nodup) (taken : List (Path × Placed)) :
    plan.chosen taken roots = roots.filter fun r => (taken.lookup (plan.target r.decl)).isNone &&
      roots.find? (fun q => plan.target q.decl == plan.target r.decl) == some r := by
  induction roots generalizing taken with
  | nil => rfl
  | cons r roots ih =>
    obtain ⟨new, nodup⟩ := List.nodup_cons.mp nodup
    have others (q : Placed) (mem : q ∈ roots) : q ≠ r := fun same => new (same ▸ mem)
    cases earlier : taken.lookup (plan.target r.decl) with
    | some e =>
      rw [chosen_cons_of_some plan roots earlier, ih nodup, List.filter_cons_of_neg (by simp [earlier])]
      refine List.filter_congr fun q mem => ?_
      -- a root with the file of `r` is dropped too, others are not held up by `r`
      by_cases same : plan.target r.decl = plan.target q.decl
      · simp [← same, earlier]
      · simp [same]
    | none =>
      rw [chosen_cons_of_none plan roots earlier, ih nodup, List.filter_cons_of_pos (by simp [earlier])]
      congr 1
      -- from now on the file is taken, and `r` is the first root that has it
      refine List.filter_congr fun q mem => ?_
      by_cases same : plan.target r.decl = plan.target q.decl
      · simp [← same, (others q mem).symm]
      · simp [List.lookup_cons, same, beq_false_of_ne (Ne.symm same)]

theorem chosen_eq_firsts {roots : List Placed} (nodup : roots.Nodup) : plan.chosen [] roots = plan.firsts roots := by
  rw [chosen_eq plan nodup]
  rfl

theorem mem_of_mem_firsts {roots : List Placed} {r : Placed} (mem : r ∈ plan.firsts roots) : r ∈ roots :=
  (List.mem_filter.mp mem).1

/-- Two roots that are the first with one file are the same. -/
theorem eq_of_target {roots : List Placed} {r r' : Placed} (mem : r ∈ plan.firsts roots) (mem' : r' ∈ plan.firsts roots)
    (same : plan.target r.decl = plan.target r'.decl) : r = r' := by
  have first := (List.mem_filter.mp mem).2
  have first' := (List.mem_filter.mp mem').2
  rw [beq_iff_eq] at first first'
  rw [same] at first
  exact Option.some.inj (first.symm.trans first')

/-! ## Writing -/

/-- The file of a root and its bytes. -/
def document (g : EntityGraph) (columnsOf : Placed → List String) (r : Placed) : Path × List UInt8 :=
  (plan.target r.decl, Text.Utf8.encode (plan.entityText g columnsOf r).toList)

/-- The accessor class and the files of roots, with their bytes. -/
def documents (g : EntityGraph) (columnsOf : Placed → List String) : List (Path × List UInt8) :=
  (Holder.path plan.output, Text.Utf8.encode plan.holderText.toList) ::
    (plan.firsts g.roots).map (plan.document g columnsOf)

theorem map_fst_documents (g : EntityGraph) (columnsOf : Placed → List String) :
    (plan.documents g columnsOf).map Prod.fst =
      Holder.path plan.output :: (plan.firsts g.roots).map fun r => plan.target r.decl := by
  rw [documents, List.map_cons, List.map_map]
  rfl

theorem value_writeEntity (s : Store) (r : Placed) :
    (plan.writeEntity g columnsOf s r).value =
      s.save (plan.document g columnsOf r).1 (plan.document g columnsOf r).2 := by
  simp only [writeEntity, Logged.value_bind, saveText, document]
  rcases s.save _ _ with ⟨_ | _, s'⟩ <;> rfl

theorem value_writeHolder (s : Store) :
    (plan.writeHolder s).value = s.save (Holder.path plan.output) (Text.Utf8.encode plan.holderText.toList) := by
  unfold writeHolder saveText
  rcases s.save _ _ with ⟨_ | _, s'⟩ <;> rfl

theorem value_writeEntities_cons (written : List Path) (s : Store) (r : Placed) (file : Path)
    (rows : List (Placed × Path × Option Placed)) :
    (plan.writeEntities g columnsOf written s ((r, file, none) :: rows)).value =
      (match (plan.writeEntity g columnsOf s r).value with
        | (.error f, s') => (pure ⟨.error f, s'⟩ : Logged Written)
        | (.ok (), s') => plan.writeEntities g columnsOf (written ++ [file]) s' rows).value := by
  rfl

theorem writeEntities_spec {taken : List (Path × Placed)} {roots : List Placed} {written files : List Path}
    {s s' : Store}
    (ended : (plan.writeEntities g columnsOf written s (plan.assign taken roots)).value = ⟨.ok files, s'⟩) :
    files = written ++ (plan.chosen taken roots).map (fun r => plan.target r.decl) ∧
      Store.Saves s ((plan.chosen taken roots).map (plan.document g columnsOf)) s' := by
  induction roots generalizing taken written s with
  | nil =>
    obtain ⟨same, rfl⟩ := Written.mk.inj ended
    rw [← Except.ok.inj same]
    exact ⟨(List.append_nil written).symm, .nil s⟩
  | cons r roots ih =>
    cases earlier : taken.lookup (plan.target r.decl) with
    | some e =>
      rw [chosen_cons_of_some plan roots earlier]
      rw [assign_cons_of_some plan roots earlier] at ended
      exact ih ended
    | none =>
      rw [chosen_cons_of_none plan roots earlier]
      rw [assign_cons_of_none plan roots earlier, value_writeEntities_cons, value_writeEntity] at ended
      cases saved : s.save (plan.document g columnsOf r).1 (plan.document g columnsOf r).2 with
      | mk outcome s₁ =>
        rw [saved] at ended
        cases outcome with
        | error f => cases ended
        | ok =>
          obtain ⟨rest, saves⟩ := ih ended
          exact ⟨by rw [rest, List.append_assoc, List.singleton_append, List.map_cons], .cons saved saves⟩

/-- Writing without a fault saves the accessor class and then the files of the roots that are the first with theirs. -/
theorem write_spec {s s' : Store} {files : List Path} (nodup : g.roots.Nodup)
    (ended : (plan.write g columnsOf s).value = ⟨.ok files, s'⟩) :
    files = (plan.documents g columnsOf).map Prod.fst ∧ Store.Saves s (plan.documents g columnsOf) s' := by
  simp only [write, Logged.value_bind, value_writeHolder] at ended
  cases saved : s.save (Holder.path plan.output) (Text.Utf8.encode plan.holderText.toList) with
  | mk outcome s₁ =>
    rw [saved] at ended
    cases outcome with
    | error f => cases ended
    | ok =>
      obtain ⟨rest, saves⟩ := writeEntities_spec plan ended
      rw [chosen_eq_firsts plan nodup] at rest saves
      exact ⟨rest.trans (plan.map_fst_documents g columnsOf).symm, .cons saved saves⟩

/-! ## What the files hold in the end -/

/-- Every file that is written starts where the output directory does, or at the root. -/
theorem begins_documents {s : Store} (begins : s.Begins plan.output) (g : EntityGraph)
    (columnsOf : Placed → List String) : ∀ f ∈ plan.documents g columnsOf, s.Begins f.1 := by
  intro f mem
  rcases List.mem_cons.mp mem with rfl | mem
  · exact (begins.outputDirectory _).append _
  · obtain ⟨r, -, rfl⟩ := List.mem_map.mp mem
    exact (begins.outputDirectory _).append _

theorem begins_of_mem_documents {s : Store} (sound : s.Sound) (anchored : plan.output.anchor ≠ .here)
    {f : Path × List UInt8} (mem : f ∈ plan.documents g columnsOf) : s.Begins f.1 :=
  plan.begins_documents (sound.begins anchored) g columnsOf f mem

/-- The file of a root that is the first with it has the text of the root in the end. -/
theorem readBytes_target {s s' : Store} (nodup : g.roots.Nodup) (saves : Store.Saves s (plan.documents g columnsOf) s')
    (begins : ∀ f ∈ plan.documents g columnsOf, s.Begins f.1)
    (apart : ∀ r ∈ g.roots, ∀ r' ∈ g.roots, plan.target r.decl ≠ plan.target r'.decl →
      s'.locate (plan.target r.decl) ≠ s'.locate (plan.target r'.decl))
    {r : Placed} (mem : r ∈ plan.firsts g.roots) :
    s'.readBytes (plan.target r.decl) = .ok (Text.Utf8.encode (textOf
      (header plan.date ++ preamble r.decl.head.package ++ (plan.block g columnsOf r).lines 0)).toList) := by
  rw [← entityText_eq]
  obtain ⟨before, after, split⟩ := List.append_of_mem mem
  have documents : plan.documents g columnsOf =
      ((Holder.path plan.output, Text.Utf8.encode plan.holderText.toList) :: before.map (plan.document g columnsOf)) ++
        plan.document g columnsOf r :: after.map (plan.document g columnsOf) := by
    simp [Plan.documents, split]
  rw [documents] at saves begins
  refine saves.readBytes begins fun f among => ?_
  obtain ⟨r', later, rfl⟩ := List.mem_map.mp among
  have mem' : r' ∈ plan.firsts g.roots := split ▸ List.mem_append_right _ (List.mem_cons_of_mem _ later)
  have distinct : (before ++ r :: after).Nodup := split ▸ nodup.filter _
  refine apart r' (plan.mem_of_mem_firsts mem') r (plan.mem_of_mem_firsts mem) fun same => ?_
  rw [plan.eq_of_target mem' mem same] at later
  exact (List.nodup_cons.mp (List.nodup_append.mp distinct).2.1).1 later

end Generate.Plan

/-! ## Whole runs -/

namespace Nesting

variable {n : Nesting} {s : Store}

/-- What a scan tells of the columns of an entity are the columns of its lineage. -/
theorem columnsOf_eq (contained : n.chain.Contained s) {scan : Scan}
    (each : ∀ e ∈ scan.columns, (n.columns s e.1.decl).value = .ok e.2) {p : Placed}
    (mem : p ∈ scan.columns.map Prod.fst) :
    ∃ stretch, n.IsLineage s p.decl stretch ∧ scan.columnsOf p = stretch.flatMap n.collector.columns := by
  obtain ⟨stretch, lineage, -, own, -⟩ := exists_lineage contained p.decl
  refine ⟨stretch, lineage, ?_⟩
  obtain ⟨e, listed, same⟩ := List.mem_map.mp mem
  obtain ⟨columns, found⟩ := Option.isSome_iff_exists.mp
    (List.lookup_isSome_iff.mpr ⟨e, listed, beq_iff_eq.mpr same.symm⟩)
  have told := each _ (mem_of_lookup found)
  rw [Scan.columnsOf, found]
  exact Except.ok.inj (told.symm.trans own)

end Nesting

namespace Run

/-- Telling of a failure changes nothing. -/
theorem value_generate (settings : Settings) (date : String) (s : Store) :
    (generate settings date s).value = (execute settings date s).value := by
  simp only [generate, Logged.value_bind]
  split
  · exact Logged.value_pure _
  · rw [Logged.value_bind, Logged.value_pure]

/-- The one generator is chosen under its name and when no name is given. -/
theorem value_select (settings : Settings) :
    (select settings).value = if Text.strip settings.generator ∈ ["", "r2dbc"]
      then .ok ⟨"r2dbc", "R2dbcMetadataGeneratorFactory"⟩
      else .error (.unknown settings.generator ["r2dbc"]) := by
  have registered : (Generate.Registry.register [] Generate.Registry.known).value = .ok Generate.Registry.known := rfl
  rw [select, Logged.value_bind, registered]
  by_cases blank : Text.strip settings.generator = ""
  · simp [Generate.Registry.choose, Generate.Registry.known, Generate.Registry.isBlank, blank]
  · by_cases named : "r2dbc" = Text.strip settings.generator
    · simp [Generate.Registry.choose, Generate.Registry.known, Generate.Registry.isBlank, ← named]
    · simp [Generate.Registry.choose, Generate.Registry.known, Generate.Registry.isBlank, blank, named, Ne.symm named,
        Generate.Registry.names]

/-- What a run comes to once the files are written, or one of them cannot be. -/
def Finished.ofWritten (scan : Nesting.Scan) (output : Path) (written : Generate.Written) : Finished where
  outcome := match written.outcome with
    | .error f => .error (.writing f)
    | .ok files => .ok ⟨scan, output, files⟩
  store := written.store

section Phases

variable {settings : Settings} {s : Store}

theorem value_generate_of_unknown (unknown : Text.strip settings.generator ∉ ["", "r2dbc"]) (date : String) :
    (generate settings date s).value = ⟨.error (.selection (.unknown settings.generator ["r2dbc"])), s⟩ := by
  rw [value_generate, execute, Logged.value_bind, value_select, if_neg unknown, Logged.value_pure]

theorem value_generate_of_stop (known : Text.strip settings.generator ∈ ["", "r2dbc"]) {o : Overflow}
    (stopped : (settings.scan s).stop = some o) (date : String) :
    (generate settings date s).value = ⟨.error (.overflow o), s⟩ := by
  rw [value_generate, execute, Logged.value_bind, value_select, if_pos known, Logged.value_bind,
    Logged.value_outcome_of_stop stopped, Logged.value_pure]

theorem value_generate_of_scan_error (known : Text.strip settings.generator ∈ ["", "r2dbc"]) {f : Nesting.Failure}
    (through : (settings.scan s).stop = none) (failed : (settings.scan s).value = .error f) (date : String) :
    (generate settings date s).value = ⟨.error (.scan f), s⟩ := by
  rw [value_generate, execute, Logged.value_bind, value_select, if_pos known, Logged.value_bind,
    Logged.value_outcome_of_through through, failed, Logged.value_pure]

theorem value_generate_of_scan (known : Text.strip settings.generator ∈ ["", "r2dbc"]) {scan : Nesting.Scan}
    (through : (settings.scan s).stop = none) (found : (settings.scan s).value = .ok scan) (date : String) :
    (generate settings date s).value = .ofWritten scan (plan settings s date).output
      ((plan settings s date).write scan.graph scan.columnsOf s).value := by
  rw [value_generate, execute, Logged.value_bind, value_select, if_pos known, Logged.value_bind,
    Logged.value_outcome_of_through through, found, Logged.value_bind]
  cases ((plan settings s date).write scan.graph scan.columnsOf s).value with
  | mk outcome after => cases outcome <;> rfl

/-- A run fails before it writes, or it ends as its writing does. -/
theorem generate_cases (settings : Settings) (date : String) (s : Store) :
    (∃ f, (generate settings date s).value = ⟨.error f, s⟩) ∨
      ∃ scan, (settings.scan s).stop = none ∧ (settings.scan s).value = .ok scan ∧
        (generate settings date s).value = .ofWritten scan (plan settings s date).output
          ((plan settings s date).write scan.graph scan.columnsOf s).value := by
  by_cases known : Text.strip settings.generator ∈ ["", "r2dbc"]
  · cases stopped : (settings.scan s).stop with
    | some o => exact .inl ⟨_, value_generate_of_stop known stopped date⟩
    | none =>
      cases found : (settings.scan s).value with
      | error f => exact .inl ⟨_, value_generate_of_scan_error known stopped found date⟩
      | ok scan => exact .inr ⟨scan, rfl, rfl, value_generate_of_scan known stopped found date⟩
  · exact .inl ⟨_, value_generate_of_unknown known date⟩

end Phases

/-- What a run that succeeds has found and written. -/
theorem exists_of_generate {settings : Settings} {date : String} {s : Store} {result : Result}
    (succeeds : (generate settings date s).value.outcome = .ok result) :
    (settings.scan s).stop = none ∧ (settings.scan s).value = .ok result.scan ∧
      ((plan settings s date).write result.scan.graph result.scan.columnsOf s).value =
        ⟨.ok result.files, (generate settings date s).value.store⟩ := by
  rcases generate_cases settings date s with ⟨f, failed⟩ | ⟨scan, through, found, ends⟩
  · rw [failed] at succeeds
    cases succeeds
  · rw [ends] at succeeds ⊢
    cases ended : ((plan settings s date).write scan.graph scan.columnsOf s).value with
    | mk outcome after =>
      rw [ended] at succeeds
      cases outcome with
      | error f => cases succeeds
      | ok files =>
        obtain rfl := Except.ok.inj succeeds
        exact ⟨through, found, ended⟩

/-- The output directory is told from the root on. -/
theorem anchor_output (settings : Settings) (s : Store) (date : String) :
    (plan settings s date).output.anchor ≠ .here :=
  Path.anchor_append (by simp [Store.cwdPath, Path.ofParts]) settings.outputDirectory

/-- A run that succeeds, when roots with different files have files at different places in the end: it writes the
accessor class and a file for each root that is the first with its file, and no other file changes. The class blocks of
these files mirror the entities below these roots. A block names its entity in full, and has the constants of the
entity's columns, its own and then those of its ancestors, each of them for the first column that gives it. The line
that opens the class, the one with the class literal and those of the constants stand in the file of the root. -/
theorem generate_mirrors (settings : Settings) (date : String) {s : Store} (sound : s.Sound) {result : Result}
    (succeeds : (generate settings date s).value.outcome = .ok result)
    (apart : ∀ r ∈ result.scan.graph.roots, ∀ r' ∈ result.scan.graph.roots,
      (plan settings s date).target r.decl ≠ (plan settings s date).target r'.decl →
        (generate settings date s).value.store.locate ((plan settings s date).target r.decl) ≠
          (generate settings date s).value.store.locate ((plan settings s date).target r'.decl)) :
    let plan := plan settings s date
    let after := (generate settings date s).value.store
    let graph := result.scan.graph
    let firsts := plan.firsts graph.roots
    result.files = Generate.Holder.path plan.output :: firsts.map (fun r => plan.target r.decl) ∧
      (∀ loc content, (∀ file ∈ result.files, after.locate file ≠ .ok (.present loc)) →
        (after.root.at? loc = some (.file content) ↔ s.root.at? loc = some (.file content))) ∧
      ∃ block spot, plan.Mirrors graph firsts block spot ∧
        (∀ r ∈ firsts, after.readBytes (plan.target r.decl) = .ok (Text.Utf8.encode (Generate.textOf
          (Generate.header date ++ Generate.preamble r.decl.head.package ++ (block r).lines 0)).toList)) ∧
        ∀ r ∈ firsts, ∀ p, Relation.ReflTransGen graph.Leads r p →
          ∃ stretch inner, settings.nesting.IsLineage s p.decl stretch ∧
            let constants := ((stretch.flatMap settings.nesting.collector.columns).map fun f =>
              (Naming.constant f, f)).eraseDupsBy fun later first => later.1 == first.1
            (block r).at? (spot p).2 = some (.node (Naming.standard p.decl.name) p.decl.nestedName constants inner) ∧
            ∃ before rest, after.readBytes (plan.target r.decl) = .ok (Text.Utf8.encode (Generate.textOf (before ++
              ([Generate.Block.indent (spot p).2.length ++
                  (if (spot p).2.length = 0 then "public final class " else "public static final class ") ++
                  Naming.standard p.decl.name ++ " \x7b",
                "",
                Generate.Block.indent ((spot p).2.length + 1) ++ "private static final Table TABLE_ = " ++
                  "StaticR2dbcEntityTemplateAccessor_.getTable(" ++ p.decl.nestedName ++ ".class);",
                ""] ++
              constants.map fun c => Generate.Block.indent ((spot p).2.length + 1) ++
                "public static final Column " ++ c.1 ++ " = column(\"" ++ c.2 ++ "\");") ++ rest)).toList) := by
  obtain ⟨-, found, ended⟩ := exists_of_generate succeeds
  have contained : settings.nesting.chain.Contained s := Supertype.Chain.contained_standard _ _ s
  obtain ⟨entities, scans, holds, names, each⟩ := Nesting.holds_of_scan contained sound found
  have forest := settings.nesting.collector.isForest sound scans
  have nodup : result.scan.graph.roots.Nodup := holds.nodup.filter _
  obtain ⟨files, saves⟩ := (plan settings s date).write_spec nodup ended
  have anchored := anchor_output settings s date
  have begins (f : Path × List UInt8)
      (mem : f ∈ (plan settings s date).documents result.scan.graph result.scan.columnsOf) : s.Begins f.1 :=
    (plan settings s date).begins_of_mem_documents sound anchored mem
  obtain ⟨locs, grows, -, places⟩ := saves.grows begins
  obtain ⟨spot, mirrors, there⟩ := (plan settings s date).exists_mirrors result.scan.columnsOf holds forest
    (fun r mem => (plan settings s date).mem_of_mem_firsts mem)
    (fun r mem r' mem' same => (plan settings s date).eq_of_target mem mem' same)
  have read (r : Placed) (mem : r ∈ (plan settings s date).firsts result.scan.graph.roots) :=
    (plan settings s date).readBytes_target nodup saves (fun f mem => begins f mem) apart mem
  refine ⟨files.trans (Generate.Plan.map_fst_documents _ _ _), fun loc content elsewhere => ?_,
    (plan settings s date).block result.scan.graph result.scan.columnsOf, spot, mirrors, read, fun r mem p path => ?_⟩
  · refine grows.root.files loc (fun mem => ?_) content
    obtain ⟨f, mem, found⟩ := places loc mem
    exact elsewhere f.1 (files ▸ List.mem_map_of_mem mem) found
  · have root := (holds.mem_roots r).mp ((plan settings s date).mem_of_mem_firsts mem)
    have among := holds.mem_of_below forest root.1 path
    obtain ⟨stretch, lineage, columns⟩ := Nesting.columnsOf_eq contained each (names ▸ among)
    have block := there r mem p path
    rw [Generate.Plan.block_eq _ _ holds forest among, Generate.constants_eq, columns] at block
    obtain ⟨before, rest, lines⟩ := Generate.Block.start_infix block
    rw [Generate.Block.opening_eq] at lines
    refine ⟨stretch, _, lineage, block,
      Generate.header date ++ Generate.preamble r.decl.head.package ++ before, rest, ?_⟩
    rw [read r mem, ← lines]
    simp only [List.append_assoc]
    rfl

/-- Three entities outside one another, two of them with the same file, and one inside that has an inherited column
again. -/
def twinSources : Store where
  root := .dir [("A.java", .file (Text.Utf8.encode
    ("@Table class A \x7b @Column int a; @Table class B extends A { @Column int b, a; } " ++
      "class C { @Table class A { } @Table class D { } } \x7d").toList))]
  cwd := []

/-- Settings that read the working directory. -/
def twinSettings : Settings := ⟨.here, "", .ofString "out", .here, .java17, "r2dbc"⟩

theorem sound_twinSources : twinSources.Sound where
  tree := .dir (by decide) (by simpa using by decide) (by simpa using .file _)
  isDir := rfl

theorem generate_mirrors_twins :
    let plan := plan twinSettings twinSources "2024-01-01"
    let finished := (generate twinSettings "2024-01-01" twinSources).value
    twinSources.Sound ∧ ∃ result, finished.outcome = .ok result ∧
      (∀ r ∈ result.scan.graph.roots, ∀ r' ∈ result.scan.graph.roots, plan.target r.decl ≠ plan.target r'.decl →
        finished.store.locate (plan.target r.decl) ≠ finished.store.locate (plan.target r'.decl)) ∧
      ∃ block spot, plan.Mirrors result.scan.graph (plan.firsts result.scan.graph.roots) block spot := by
  intro plan finished
  have runs : finished.outcome.toOption.any (fun result =>
      decide (∀ r ∈ result.scan.graph.roots, ∀ r' ∈ result.scan.graph.roots,
        plan.target r.decl ≠ plan.target r'.decl →
          finished.store.locate (plan.target r.decl) ≠ finished.store.locate (plan.target r'.decl))) = true := by
    decide +kernel
  cases succeeds : finished.outcome with
  | error f =>
    rw [succeeds] at runs
    cases runs
  | ok result =>
    rw [succeeds] at runs
    have apart := of_decide_eq_true runs
    obtain ⟨-, -, block, spot, mirrors, -⟩ :=
      generate_mirrors twinSettings "2024-01-01" sound_twinSources succeeds apart
    exact ⟨sound_twinSources, result, rfl, apart, block, spot, mirrors⟩

example : ((generate twinSettings "2024-01-01" twinSources).value.outcome.toOption.map fun result =>
    (result.files.map Path.text, result.scan.graph.nodes.map fun p => Generate.constants (result.scan.columnsOf p))) =
      some (["/out/org/springframework/data/r2dbc/config/StaticR2dbcEntityTemplateAccessor_.java", "/out/A_.java",
        "/out/D_.java"], [[("A", "a")], [("B", "b"), ("A", "a")], [], []]) := by
  decide +kernel

end Run

end EntityAtlas
