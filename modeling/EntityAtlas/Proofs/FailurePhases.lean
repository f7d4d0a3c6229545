import EntityAtlas.Proofs.MetadataFiles
import EntityAtlas.Proofs.Undisturbed
import EntityAtlas.Service.Response

/-!
# Where a run can fail

A run chooses its generator, lists the entities of the package, and writes files. In each of these phases it can fail;
elsewhere it is ended by a source that lies too deep for the machine only, while a source directory that cannot be
listed just makes walks up end early. A failure before writing leaves the store as it was. A failure of writing leaves
the files written before it, perhaps a part of the next one, and no other file is changed.
-/

namespace EntityAtlas

theorem Text.Utf8.encode_ne_nil {cs : List Char} (nonempty : cs ≠ []) : encode cs ≠ [] := by
  obtain ⟨c, cs, rfl⟩ := List.exists_cons_of_ne_nil nonempty
  rw [encode, List.flatMap_cons]
  refine List.append_ne_nil_of_left_ne_nil ?_ _
  fun_cases encodeChar c <;> simp

/-- Of several elements the last one that is special. -/
theorem exists_split_at_last {α : Type} {special : α → Prop} {l : List α} (any : ∃ a ∈ l, special a) :
    ∃ before a after, l = before ++ a :: after ∧ special a ∧ ∀ b ∈ after, ¬ special b := by
  induction l with
  | nil => simp at any
  | cons a l ih =>
    by_cases later : ∃ b ∈ l, special b
    · obtain ⟨before, b, after, rfl, rest⟩ := ih later
      exact ⟨a :: before, b, after, rfl, rest⟩
    · obtain ⟨b, mem, is⟩ := any
      rcases List.mem_cons.mp mem with rfl | mem
      · exact ⟨[], b, l, rfl, is, fun c mem is => later ⟨c, mem, is⟩⟩
      · exact absurd ⟨b, mem, is⟩ later

namespace Store

/-- Several files have been saved one after another: each has its content unless a later one has its place, and no file
at another place is new or has a new content. Nothing is gone. -/
structure HasSaved (s : Store) (files : List (Path × List UInt8)) (s' : Store) : Prop where
  saved : ∀ before p content later, files = before ++ (p, content) :: later →
    (∀ f ∈ later, s'.locate f.1 ≠ s'.locate p) → s'.readBytes p = .ok content
  others : ∀ loc content, (∀ f ∈ files, s'.locate f.1 ≠ .ok (.present loc)) →
    (s'.root.at? loc = some (.file content) ↔ s.root.at? loc = some (.file content))
  kept : Entry.Keeps s.root s'.root

variable {s s₁ s' : Store} {files : List (Path × List UInt8)} {locs : List (List String)}

/-- Where several of the files have one place, it holds the content of the last one. -/
theorem HasSaved.exists_content (saved : HasSaved s files s') {loc : List String}
    (at_loc : ∃ f ∈ files, s'.locate f.1 = .ok (.present loc)) :
    ∃ f ∈ files, s'.root.at? loc = some (.file f.2) := by
  obtain ⟨before, ⟨p, content⟩, after, rfl, found, last⟩ := exists_split_at_last at_loc
  refine ⟨(p, content), by simp, ?_⟩
  have reads := saved.saved before p content after rfl fun f mem same => last f mem (same.trans found)
  obtain ⟨-, loc', found', there⟩ := exists_of_readBytes reads
  obtain rfl := Place.present.inj (Except.ok.inj (found.symm.trans found'))
  exact there

/-- A content that is new is that of one of the files. -/
theorem HasSaved.exists_of_new (saved : HasSaved s files s') {loc : List String} {content : List UInt8}
    (new : s.root.at? loc ≠ some (.file content)) (there : s'.root.at? loc = some (.file content)) :
    ∃ f ∈ files, f.2 = content := by
  by_cases at_loc : ∃ f ∈ files, s'.locate f.1 = .ok (.present loc)
  · obtain ⟨f, mem, there'⟩ := saved.exists_content at_loc
    exact ⟨f, mem, Entry.file.inj (Option.some.inj (there'.symm.trans there))⟩
  · exact absurd ((saved.others loc content fun f mem found => at_loc ⟨f, mem, found⟩).mp there) new

/-- A file that was saved keeps its content while others are put elsewhere. -/
theorem Saves.readBytes_of_grows (saves : Saves s files s₁) (begins : ∀ f ∈ files, s.Begins f.1)
    (later : Grows locs s₁ s') {before after : List (Path × List UInt8)} {p : Path} {content : List UInt8}
    (split : files = before ++ (p, content) :: after) (apart : ∀ f ∈ after, s'.locate f.1 ≠ s'.locate p)
    (elsewhere : ∀ loc ∈ locs, s'.locate p ≠ .ok (.present loc)) : s'.readBytes p = .ok content := by
  obtain ⟨-, -, each, -⟩ := saves.grows begins
  subst split
  have reads : s₁.readBytes p = .ok content := by
    refine saves.readBytes begins fun f mem same => apart f mem ?_
    obtain ⟨loc, found⟩ := each f (List.mem_append_right _ (List.mem_cons_of_mem _ mem))
    have found' : s₁.locate p = .ok (.present loc) := same ▸ found
    rw [later.locate found trivial, later.locate found' trivial]
  obtain ⟨named, loc, found, there⟩ := exists_of_readBytes reads
  have found' := later.locate found trivial
  exact readBytes_eq named found' ((later.root.files loc (fun mem => elsewhere loc mem found') content).mpr there)

/-- Files that were saved without a fault have been saved, also when directories are added afterwards. -/
theorem Saves.hasSaved (saves : Saves s files s₁) (begins : ∀ f ∈ files, s.Begins f.1) (later : Grows [] s₁ s') :
    HasSaved s files s' := by
  obtain ⟨locs, grows, -, places⟩ := saves.grows begins
  refine ⟨fun before p content after split apart => ?_, fun loc content elsewhere => ?_, (grows.trans later).root.kept⟩
  · exact saves.readBytes_of_grows begins later split apart (by simp)
  · -- a file that was not saved is as it was when the saving ended, and directories do not change it
    rw [later.root.files loc List.not_mem_nil, grows.root.files loc fun mem => ?_]
    obtain ⟨f, mem, found⟩ := places loc mem
    exact elsewhere f mem (later.locate found trivial)

/-- They have been saved together with one more file that is put in its place afterwards. -/
theorem Saves.hasSaved_concat (saves : Saves s files s₁) (begins : ∀ f ∈ files, s.Begins f.1) {loc : List String}
    (later : Grows [loc] s₁ s') {p : Path} {content : List UInt8} (named : hasNul p = false)
    (found : s'.locate p = .ok (.present loc)) (there : s'.root.at? loc = some (.file content)) :
    HasSaved s (files ++ [(p, content)]) s' := by
  obtain ⟨locs, grows, -, places⟩ := saves.grows begins
  refine ⟨fun before q bytes after split apart => ?_, fun loc' bytes elsewhere => ?_, (grows.trans later).root.kept⟩
  · rcases List.eq_nil_or_concat' after with rfl | ⟨after, last, rfl⟩
    · obtain ⟨-, same⟩ := List.append_inj' split rfl
      obtain ⟨rfl, rfl⟩ := Prod.mk.inj (List.singleton_inj.mp same)
      exact readBytes_eq named found there
    · obtain ⟨split', same⟩ : files = before ++ (q, bytes) :: after ∧ [(p, content)] = [last] := by
        rw [← List.cons_append, ← List.append_assoc] at split
        exact List.append_inj' split rfl
      obtain rfl := List.singleton_inj.mp same
      refine saves.readBytes_of_grows begins later split' (fun f mem => apart f (List.mem_append_left _ mem)) ?_
      intro loc' mem found'
      obtain rfl := List.mem_singleton.mp mem
      exact apart (p, content) (by simp) (found.trans found'.symm)
  · have other : loc' ∉ [loc] := by
      rintro mem
      obtain rfl := List.mem_singleton.mp mem
      exact elsewhere (p, content) (by simp) found
    rw [later.root.files loc' other, grows.root.files loc' fun mem => ?_]
    obtain ⟨f, mem, found⟩ := places loc' mem
    exact elsewhere f (List.mem_append_left _ mem) (later.locate found trivial)

/-- Saving that fails adds directories at most, or it has put a first part of the content in the place of the file. -/
theorem save_error_grows {p : Path} {content : List UInt8} {fault : Fault} (begins : s.Begins p)
    (failed : s.save p content = (.error fault, s')) :
    Grows [] s s' ∨ ∃ loc taken, taken <+: content ∧ Grows [loc] s s' ∧ hasNul p = false ∧
      s'.locate p = .ok (.present loc) ∧ s'.root.at? loc = some (.file taken) := by
  obtain ⟨s₁, holders, ⟨fault', -, ends⟩ | ⟨-, ends⟩⟩ := save_cases s p content
  · obtain ⟨-, rfl⟩ := Prod.mk.inj (ends.symm.trans failed)
    exact .inl holders
  · rw [ends] at failed
    rcases exists_of_writeFile (holders.begins begins) failed with ⟨-, rfl⟩ | ⟨dir, name, taken, opens, rfl, first, -⟩
    · exact .inl holders
    · obtain ⟨grows, found, there⟩ := opens.withFile taken
      exact .inr ⟨_, taken, first, holders.trans grows, opens.named, found, there⟩

/-- Where saving one file after another fails, the files before the fault have been saved, and perhaps a first part of
the one at which it failed. -/
theorem Saves.hasSaved_of_error (saves : Saves s files s₁) {f : Path × List UInt8} {fault : Fault}
    (begins : ∀ g ∈ files ++ [f], s.Begins g.1) (failed : s₁.save f.1 f.2 = (.error fault, s')) :
    HasSaved s files s' ∨ ∃ taken, taken <+: f.2 ∧ HasSaved s (files ++ [(f.1, taken)]) s' := by
  have begins' (g : Path × List UInt8) (mem : g ∈ files) : s.Begins g.1 := begins g (List.mem_append_left _ mem)
  obtain ⟨locs, grows, -⟩ := saves.grows begins'
  rcases save_error_grows (grows.begins (begins f (by simp))) failed with
    holders | ⟨loc, taken, first, later, named, found, there⟩
  · exact .inl (saves.hasSaved begins' holders)
  · exact .inr ⟨taken, first, saves.hasSaved_concat begins' later named found there⟩

end Store

namespace Generate.Plan

variable (plan : Plan) {g : EntityGraph} {columnsOf : Placed → List String}

/-- No document is empty. -/
theorem ne_nil_of_mem_documents {f : Path × List UInt8} (mem : f ∈ plan.documents g columnsOf) : f.2 ≠ [] := by
  have starts (first : String) (lines : List String) : Text.Utf8.encode (textOf (first :: lines)).toList ≠ [] := by
    refine Text.Utf8.encode_ne_nil ?_
    simp [String.toList_append]
  rcases List.mem_cons.mp mem with rfl | mem
  · simp only [holderText, header, List.cons_append]
    exact starts _ _
  · obtain ⟨r, -, rfl⟩ := List.mem_map.mp mem
    simp only [document, entityText_eq, header, List.cons_append]
    exact starts _ _

theorem writeEntities_error {taken : List (Path × Placed)} {roots : List Placed} {written : List Path} {s s' : Store}
    {fault : Fault}
    (ended : (plan.writeEntities g columnsOf written s (plan.assign taken roots)).value = ⟨.error fault, s'⟩) :
    ∃ before r after s₁, plan.chosen taken roots = before ++ r :: after ∧
      Store.Saves s (before.map (plan.document g columnsOf)) s₁ ∧
      s₁.save (plan.document g columnsOf r).1 (plan.document g columnsOf r).2 = (.error fault, s') := by
  induction roots generalizing taken written s with
  | nil => cases ended
  | cons r roots ih =>
    cases earlier : taken.lookup (plan.target r.decl) with
    | some e =>
      rw [chosen_cons_of_some plan roots earlier]
      rw [assign_cons_of_some plan roots earlier] at ended
      exact ih ended
    | none =>
      rw [chosen_cons_of_none plan roots earlier]
      rw [assign_cons_of_none plan roots earlier, value_writeEntities_cons, value_writeEntity] at ended
      cases saved : s.save (plan.document g columnsOf r).1 (plan.document g columnsOf r).2 with
      | mk outcome s₁ =>
        rw [saved] at ended
        cases outcome with
        | error f =>
          obtain ⟨is, rfl⟩ := Written.mk.inj ended
          obtain rfl := Except.error.inj is
          exact ⟨[], r, _, s, rfl, .nil s, saved⟩
        | ok =>
          -- the root is one more that has been saved before the fault
          obtain ⟨before, r', after, s₂, split, saves, failed⟩ := ih ended
          exact ⟨r :: before, r', after, s₂, by rw [split, List.cons_append], .cons saved saves, failed⟩

/-- Writing that fails has saved the first documents, and fails to save the next one. -/
theorem write_error {s s' : Store} {fault : Fault} (nodup : g.roots.Nodup)
    (ended : (plan.write g columnsOf s).value = ⟨.error fault, s'⟩) :
    ∃ before f after s₁, plan.documents g columnsOf = before ++ f :: after ∧ Store.Saves s before s₁ ∧
      s₁.save f.1 f.2 = (.error fault, s') := by
  simp only [write, Logged.value_bind, value_writeHolder] at ended
  cases saved : s.save (Holder.path plan.output) (Text.Utf8.encode plan.holderText.toList) with
  | mk outcome s₁ =>
    rw [saved] at ended
    cases outcome with
    | error f =>
      obtain ⟨is, rfl⟩ := Written.mk.inj ended
      obtain rfl := Except.error.inj is
      refine ⟨[], _, _, s, List.nil_append _, .nil s, ?_⟩
      simpa only using saved
    | ok =>
      obtain ⟨before, r, after, s₂, split, saves, failed⟩ := writeEntities_error plan ended
      rw [chosen_eq_firsts plan nodup] at split
      refine ⟨_ :: before.map (plan.document g columnsOf), plan.document g columnsOf r,
        after.map (plan.document g columnsOf), s₂, ?_, .cons saved saves, failed⟩
      rw [documents, split, List.map_append, List.map_cons, List.cons_append]

end Generate.Plan

/-- When the source directory cannot be listed, every walk up ends where it starts. -/
theorem Nesting.value_columns_of_fault {n : Nesting} {s : Store} {f : Fault} (contained : n.chain.Contained s)
    (listed : (n.chain.collector.listing s "").fault = some f) (d : Decl) :
    (n.columns s d).value = .ok (n.collector.columns d) := by
  have last : (n.chain.supertype s d).value = .ok none := by
    rw [Supertype.Chain.value_supertype contained, Supertype.Chain.found_of_fault listed]
  rw [columns, heightBound, columnsFrom_top List.not_mem_nil last, Logged.value_bind, Logged.value_pure]

namespace Run

theorem value_serve_generate (settings : Settings) (date : String) (s : Store) :
    (Service.Route.generate.serve settings date s).value =
      ⟨.ofRun (generate settings date s).value.outcome, (generate settings date s).value.store⟩ := by
  rw [Service.Route.serve, Logged.value_bind, Logged.value_pure]

variable {settings : Settings} {s : Store}

/-- A package that cannot be listed makes the scan fail. -/
theorem scan_of_fault {f : Fault}
    (listed : (settings.nesting.collector.listing s settings.nesting.package).fault = some f) :
    (settings.scan s).value = .error (.scan ⟨settings.nesting.package,
      settings.nesting.collector.directory settings.nesting.package, f⟩) := by
  rw [Settings.scan, Nesting.scan, Logged.value_bind, Collector.value_entities, Collector.value_extract, listed,
    Logged.value_pure]

/-- A package that can be listed makes it succeed. When the source directory cannot be listed, each entity has its own
columns only. -/
theorem exists_scan_of_listed (sound : s.Sound)
    (listed : (settings.nesting.collector.listing s settings.nesting.package).fault = none) :
    ∃ scan, (settings.scan s).value = .ok scan ∧ scan.graph.roots.Nodup ∧
      ∀ f, (settings.nesting.collector.listing s "").fault = some f →
        ∀ e ∈ scan.columns, e.2 = settings.nesting.collector.columns e.1.decl := by
  have contained : settings.nesting.chain.Contained s := Supertype.Chain.contained_standard _ _ s
  have scans : ∃ entities,
      (settings.nesting.collector.entities s settings.nesting.package).value = .ok entities := by
    rw [Collector.value_entities, Collector.value_extract, listed]
    exact ⟨_, rfl⟩
  obtain ⟨entities, scans⟩ := scans
  obtain ⟨scan, found, holds, -, each⟩ := Nesting.exists_scan contained sound scans
  refine ⟨scan, found, holds.nodup.filter _, ?_⟩
  intro f hidden e mem
  exact Except.ok.inj ((each e mem).symm.trans (Nesting.value_columns_of_fault contained hidden e.1.decl))

/-- Writing what a scan found ends well with all documents saved, or it saves some of the first documents and then
fails; of the document at which it fails a first part may be saved too. -/
theorem write_phases (settings : Settings) (date : String) {s : Store} (sound : s.Sound) {scan : Nesting.Scan}
    (nodup : scan.graph.roots.Nodup) :
    let documents := (plan settings s date).documents scan.graph scan.columnsOf
    let written := ((plan settings s date).write scan.graph scan.columnsOf s).value
    (written.outcome = .ok (documents.map Prod.fst) ∧ s.HasSaved documents written.store) ∨
      ∃ fault before f after s₁, documents = before ++ f :: after ∧ written.outcome = .error fault ∧
        Store.Saves s before s₁ ∧ s₁.save f.1 f.2 = (.error fault, written.store) ∧
        (s.HasSaved before written.store ∨
          ∃ taken, taken <+: f.2 ∧ s.HasSaved (before ++ [(f.1, taken)]) written.store) := by
  intro documents written
  have anchored := anchor_output settings s date
  have begins (f : Path × List UInt8) (mem : f ∈ documents) : s.Begins f.1 :=
    (plan settings s date).begins_of_mem_documents sound anchored mem
  cases ended : written with
  | mk outcome after =>
    cases outcome with
    | ok files =>
      obtain ⟨names, saves⟩ := (plan settings s date).write_spec nodup ended
      exact .inl ⟨congrArg Except.ok names, saves.hasSaved begins (.refl after)⟩
    | error fault =>
      obtain ⟨before, f, rest, s₁, split, saves, failed⟩ := (plan settings s date).write_error nodup ended
      have first (g : Path × List UInt8) (mem : g ∈ before ++ [f]) : s.Begins g.1 := by
        refine begins g ?_
        rw [show documents = before ++ f :: rest from split, List.append_cons]
        exact List.mem_append_left _ mem
      exact .inr ⟨fault, before, f, rest, s₁, split, rfl, saves, failed, saves.hasSaved_of_error first failed⟩

/-- An entity, and a directory in the place of its file. -/
def blockedSources : Store where
  root := .dir [("A_.java", .dir []), ("src", .dir [("A.java", .file (Text.Utf8.encode
    "@Table class A { @Column int x; }".toList))])]
  cwd := []

/-- Settings that write into the working directory. -/
def blockedSettings : Settings := ⟨.here, "", .here, .ofString "src", .java17, " r2dbc"⟩

theorem sound_blockedSources : blockedSources.Sound where
  tree := .dir (by decide) (by simpa using by decide) (by
    simpa using ⟨.dir (by decide) (by simp) (by simp), .dir (by decide) (by simpa using by decide)
      (by simpa using .file _)⟩)
  isDir := rfl

example : (generate blockedSettings "2024-01-01" blockedSources).value.store.locate
    (Generate.Holder.path (plan blockedSettings blockedSources "2024-01-01").output) =
      .ok (.present
        ["org", "springframework", "data", "r2dbc", "config", "StaticR2dbcEntityTemplateAccessor_.java"]) := by
  decide +kernel

/-- A machine whose medium lets one file be opened, but takes nothing for it. -/
def fullMachine : Machine where
  depth := 980
  refusal? loc _ := if loc = ["A_.java"] then some ⟨some 0, 28, "No space left on device"⟩ else none

/-- A machine on which one declaration may stand inside another, and none inside that one. -/
def shallowMachine : Machine where
  depth := 2
  refusal? _ _ := none

/-- An entity with a class inside that has a class inside. -/
def deepSources (machine : Machine) : Store where
  root := .dir [("src", .dir [("A.java", .file (Text.Utf8.encode
    "@Table class A \x7b class B \x7b class C { } \x7d \x7d".toList))])]
  cwd := []
  machine

end Run

end EntityAtlas
