import EntityAtlas.Proofs.Rescanning
import EntityAtlas.Proofs.Resaving

/-!
# Regeneration

A run that succeeds can be done again: it finds the same entities with the same columns, writes the same files, and
leaves every byte of the store. What it has written must not be seen by its own scan. Then only links under the sources
could make a difference, which lead through a directory that the run has made.
-/

namespace EntityAtlas.Run

/-- A run that succeeds gives the same result at once again, and leaves the store as it is. No path under the output
directory and none under the sources may denote one place, and no link under the sources may come by a free name on the
way to the output directory and go up from there, or on to a name that is too long. -/
theorem generate_again (settings : Settings) (date : String) {s s' : Store} (sound : s.Sound)
    {result : Result}
    (succeeds : (generate settings date s).value = ⟨.ok result, s'⟩)
    (relative : ∀ r ∈ result.scan.graph.roots, Package.IsRelative r.decl.head.package)
    (apart : s.Apart (plan settings s date).output settings.sourceRoot)
    (down : s.GoesDown (plan settings s date).output settings.sourceRoot) :
    (generate settings date s').value = ⟨.ok result, s'⟩ := by
  obtain ⟨through, found, written⟩ := exists_of_generate (congrArg Finished.outcome succeeds)
  have written : ((plan settings s date).write result.scan.graph result.scan.columnsOf s).value =
      ⟨.ok result.files, s'⟩ := written.trans (by rw [succeeds])
  have nodup := nodup_roots sound found
  have extended := extends_of_write sound found nodup written relative
  have same_plan : plan settings s' date = plan settings s date := by
    rw [plan, plan, Store.cwdPath, extended.cwd]
    rfl
  have known : Text.strip settings.generator ∈ ["", "r2dbc"] := by
    by_contra unknown
    cases (value_generate_of_unknown unknown date).symm.trans succeeds
  have again : settings.scan s' = settings.scan s := Store.Extends.scan_eq sound extended apart down found
  have through_again : (settings.scan s').stop = none := (congrArg Logged.stop again).trans through
  have found_again : (settings.scan s').value = .ok result.scan := (congrArg Logged.value again).trans found
  have begins (f : Path × List UInt8)
      (mem : f ∈ (plan settings s date).documents result.scan.graph result.scan.columnsOf) : s.Begins f.1 :=
    (plan settings s date).begins_of_mem_documents sound (anchor_output settings s date) mem
  have written_again := (plan settings s date).write_again nodup begins extended.sound.tree.distinct written
  calc (generate settings date s').value
    _ = .ofWritten result.scan (plan settings s date).output ⟨.ok result.files, s'⟩ := by
      rw [value_generate_of_scan known through_again found_again date, same_plan, written_again]
    _ = (generate settings date s).value := by rw [value_generate_of_scan known through found date, written]
    _ = ⟨.ok result, s'⟩ := succeeds

/-- A link among the sources, and an entity beside them. -/
def linkedSources (target : String) : Store where
  root := .dir [("src", .dir [("L.java", .link target)]),
    ("other", .dir [("F.java", .file (Text.Utf8.encode "package p; @Table class F { }".toList))])]
  cwd := []

/-- Settings that write into a directory inside another one that is not there. -/
def linkedSettings : Settings := ⟨.here, "", .ofString "a/out", .ofString "src", .java17, "r2dbc"⟩

theorem sound_linkedSources (target : String) : (linkedSources target).Sound where
  tree := by
    refine .dir (by simp) (by simpa using by decide) ?_
    simpa using ⟨.dir (by simp) (by simpa using by decide) (by simpa using .link _),
      .dir (by simp) (by simpa using by decide) (by simpa using .file _)⟩
  isDir := rfl

/-- There is just the one link. -/
theorem eq_of_at?_link {target target' : String} {l : List String}
    (there : (linkedSources target).root.at? l = some (.link target')) : l = ["src", "L.java"] ∧ target' = target := by
  rcases l with _ | ⟨top, _ | ⟨name, l⟩⟩
  · cases there
  · simp only [linkedSources, Entry.at?_dir_cons] at there
    split at there
    · cases there
    · split at there <;> cases there
  · simp only [linkedSources, Entry.at?_dir_cons] at there
    split at there
    · rename_i src
      split at there
      · rename_i link
        cases l with
        | nil => exact ⟨by rw [src, link], by simpa [Entry.at?] using there.symm⟩
        | cons => cases there
      · cases there
    · split at there
      · split at there
        · cases l <;> cases there
        · cases there
      · cases there

theorem pointsTo_down {target name : String} {rest here loc : List String}
    (points : Store.PointsTo (linkedSources target).root (name :: rest) here loc)
    (isName : Entry.IsName name) (other : here ++ [name] ≠ ["src", "L.java"]) :
    Store.PointsTo (linkedSources target).root rest (here ++ [name]) loc := by
  have stay : name ≠ "." := by
    rintro rfl
    exact absurd isName.1.1 (by decide)
  exact (points.of_name isName.2 stay).resolve_right fun ⟨_, isLink, _⟩ => other (eq_of_at?_link isLink).1

/-- Beside the sources, paths that go down denote what they spell out. -/
theorem prefix_of_pointsTo {target top name : String} {rest loc : List String}
    (points : Store.PointsTo (linkedSources target).root (top :: name :: rest) [] loc) (beside : top ≠ "src")
    (areNames : Path.AreNames [top, name]) (down : ".." ∉ rest) : [top, name] <+: loc := by
  have points := pointsTo_down points (areNames top (by simp)) (by simp)
  have points := pointsTo_down points (areNames name (by simp)) (by simp [beside])
  refine points.prefix_loc down fun l target' longer _ isLink => ?_
  rw [(eq_of_at?_link isLink).1] at longer
  exact beside (List.cons_prefix_cons.mp longer).1

/-- No path under the output directory denotes what one under the sources does, if the link leads aside. -/
theorem apart_linkedSources {target : String} (dest : List String) (outside : ¬ ["a", "out"] <+: dest)
    (aside : ¬ dest <+: ["a", "out"]) (relative : Text.startsWith target "/" = false)
    (leads : ∀ rest loc, ".." ∉ rest →
      Store.PointsTo (linkedSources target).root (Store.targetParts target ++ rest) ["src"] loc → dest <+: loc)
    (date : String) :
    (linkedSources target).Apart (plan linkedSettings (linkedSources target) date).output
      linkedSettings.sourceRoot := by
  rintro loc ⟨names, areNames, denotes⟩ ⟨names', areNames', denotes'⟩
  rw [Store.Denotes, Store.parts_below areNames] at denotes
  rw [Store.Denotes, Store.parts_below areNames'] at denotes'
  have points : Store.PointsTo (linkedSources target).root ("a" :: "out" :: names) [] loc := denotes
  have points' : Store.PointsTo (linkedSources target).root ("src" :: names') [] loc := denotes'
  have within : ["a", "out"] <+: loc :=
    prefix_of_pointsTo points (by decide) (by simpa [Path.AreNames] using by decide) fun mem => (areNames _ mem).2 rfl
  have within' : dest <+: loc ∨ ["src"] <+: loc := by
    have points' := pointsTo_down points' (by decide) (by decide)
    cases names' with
    | nil =>
      cases points'
      exact .inr List.prefix_rfl
    | cons name rest =>
      obtain ⟨⟨isPart, up⟩, areRest⟩ := List.forall_mem_cons.mp areNames'
      have down : ".." ∉ rest := fun mem => (areRest _ mem).2 rfl
      have stay : name ≠ "." := by
        rintro rfl
        exact absurd isPart.1 (by decide)
      rcases points'.of_name up stay with points' | ⟨target', isLink, points'⟩
      · have below := points'.prefix_loc down fun l target' longer other isLink => by
          rw [(eq_of_at?_link isLink).1] at longer other
          exact other (longer.eq_of_length rfl).symm
        exact .inr ((List.prefix_append ["src"] [name]).trans below)
      · obtain ⟨-, rfl⟩ := eq_of_at?_link isLink
        rw [relative] at points'
        exact .inl (leads rest loc down points')
  rcases within' with within' | within'
  · rcases List.prefix_or_prefix_of_prefix within within' with shorter | shorter
    · exact outside shorter
    · exact aside shorter
  · rcases List.prefix_or_prefix_of_prefix within within' with shorter | shorter
    all_goals exact absurd shorter (by decide)

/-- The link comes by no free name. -/
theorem goesDown_linkedSources (output : Path) :
    (linkedSources "../other/F.java").GoesDown output linkedSettings.sourceRoot := by
  intro here name target _ isLink place rest breaks _
  obtain ⟨is, rfl⟩ := eq_of_at?_link isLink
  have same : here ++ [name] = ["src"] ++ ["L.java"] := is
  obtain ⟨rfl, last⟩ := List.append_inj' same rfl
  obtain rfl := List.singleton_inj.mp last
  have located : Store.locateFrom (linkedSources "../other/F.java").root (Store.maxLinks + 1) ["L.java"] ["src"] =
      .ok (.present ["other", "F.java"]) := by
    decide +kernel
  exact absurd breaks (Store.locateFrom_eq_ok_iff.mp located).not_breaks

theorem generate_again_linked :
    let s := linkedSources "../other/F.java"
    let plan := plan linkedSettings s "2024-01-01"
    s.Sound ∧ s.Apart plan.output linkedSettings.sourceRoot ∧
      s.GoesDown plan.output linkedSettings.sourceRoot ∧ ∃ result s',
        (generate linkedSettings "2024-01-01" s).value = ⟨.ok result, s'⟩ ∧
        (∀ r ∈ result.scan.graph.roots, Package.IsRelative r.decl.head.package) ∧
        (generate linkedSettings "2024-01-01" s').value = ⟨.ok result, s'⟩ := by
  intro s plan
  have leads (rest loc : List String) (down : ".." ∉ rest)
      (points : Store.PointsTo s.root (Store.targetParts "../other/F.java" ++ rest) ["src"] loc) :
      ["other", "F.java"] <+: loc := by
    have parts : Store.targetParts "../other/F.java" = ["..", "other", "F.java"] := by decide +kernel
    rw [parts] at points
    exact prefix_of_pointsTo points.of_up (by decide) (by simpa [Path.AreNames] using by decide) down
  have sound := sound_linkedSources "../other/F.java"
  have apart := apart_linkedSources _ (by decide) (by decide) (by decide +kernel) leads "2024-01-01"
  have down := goesDown_linkedSources plan.output
  have packages : (generate linkedSettings "2024-01-01" s).value.outcome.toOption.any (fun result =>
      decide (∀ r ∈ result.scan.graph.roots, r.decl.head.package = some "p")) = true := by
    decide +kernel
  cases ended : (generate linkedSettings "2024-01-01" s).value with
  | mk outcome s' =>
    rw [ended] at packages
    cases outcome with
    | error f => cases packages
    | ok result =>
      have relative : ∀ r ∈ result.scan.graph.roots, Package.IsRelative r.decl.head.package := by
        intro r mem
        rw [of_decide_eq_true packages r mem]
        simpa [Package.IsRelative] using by decide
      exact ⟨sound, apart, down, result, s', rfl, relative,
        generate_again linkedSettings "2024-01-01" sound ended relative apart down⟩

/-- The entities of a run that succeeds, with their packages. -/
def Finished.entities (finished : Finished) : Option (List (Option String × String)) :=
  finished.outcome.toOption.map fun result =>
    result.scan.graph.nodes.map fun p => (p.decl.head.package, p.decl.nestedName)

/-- A link that leads nowhere until the run has made a directory, and then goes up from it to an entity: the next run
finds this entity. -/
theorem generate_not_again :
    let date := "2024-01-01"
    let s := linkedSources "../a/../other/F.java"
    let output := (plan linkedSettings s date).output
    let first := (generate linkedSettings date s).value
    s.Sound ∧ s.Apart output linkedSettings.sourceRoot ∧
      first.entities = some [] ∧
      (generate linkedSettings date first.store).value.entities = some [(some "p", "F")] := by
  refine ⟨sound_linkedSources _, ?_, by decide +kernel⟩
  have parts : Store.targetParts "../a/../other/F.java" = ["..", "a", "..", "other", "F.java"] := by decide +kernel
  refine apart_linkedSources ["other", "F.java"] (by decide) (by decide) (by decide +kernel) ?_ _
  intro rest loc down points
  rw [parts] at points
  have points := pointsTo_down points.of_up (by decide) (by decide)
  exact prefix_of_pointsTo points.of_up (by decide) (by simpa [Path.AreNames] using by decide) down

end EntityAtlas.Run
