import EntityAtlas.Proofs.Denoting
import EntityAtlas.Proofs.FaultIsolation

/-!
# What a run adds to a store

A run that succeeds makes no link, and it leaves every link as it was. So whatever is new is denoted, before the run as
well as after it, by a path of the output directory: a file by one that goes down from it, a directory perhaps by one
that lies on the way to it.
-/

namespace EntityAtlas

namespace Store

/-- A store that stays sound and gets no new link. -/
structure Preserves (s s' : Store) : Prop where
  sound : s.Sound → s'.Sound
  links : ∀ l target, s'.root.at? l = some (.link target) → s.root.at? l = some (.link target)

namespace Preserves

variable {s s' s'' : Store}

theorem refl (s : Store) : Preserves s s :=
  ⟨id, fun _ _ => id⟩

theorem trans (first : Preserves s s') (second : Preserves s' s'') : Preserves s s'' :=
  ⟨second.sound ∘ first.sound, fun l target there => first.links l target (second.links l target there)⟩

/-- An entry that is no link and holds none, under a name of its own in a directory. -/
theorem insertAt {new : Entry} (fresh : new.Sound) (leaf : ∀ name l, new.at? (name :: l) = none)
    (linkless : ∀ target, new ≠ .link target) {dir : List String} {name : String} {es : List (String × Entry)}
    (here : s.root.at? dir = some (.dir es)) (isName : s.Sound → Entry.IsName name) :
    Preserves s { s with root := Entry.insertAt new (dir ++ [name]) s.root } where
  sound sound := by
    have isNames : ∀ n ∈ dir ++ [name], Entry.IsName n := by
      intro n mem
      rcases List.mem_append.mp mem with mem | mem
      · exact sound.tree.isName_of_at? here n mem
      · exact List.mem_singleton.mp mem ▸ isName sound
    refine ⟨fresh.insertAt isNames sound.tree, ?_⟩
    cases dir <;> rfl
  links l target there := by
    rcases Entry.alike_of_insertAt leaf here there with rfl | ⟨c, old, alike⟩
    · exact absurd (Option.some.inj ((Entry.at?_insertAt _ _ _).symm.trans there)) (linkless target)
    · cases alike
      exact old

end Preserves

theorem makeOne_preserves {s s' : Store} {p : Path} (made : s.makeOne p = .ok s') : Preserves s s' := by
  obtain ⟨dir, name, es, parts, -, here, -, up, -, rfl⟩ := exists_of_makeOne made
  exact .insertAt (.dir (by simp) (by simp) (by simp)) (fun _ _ => rfl) nofun here fun _ =>
    ⟨p.clean name (by simp [parts]), up⟩

theorem writeFile_preserves {s s' : Store} {p : Path} {content : List UInt8} {outcome : Except Fault Unit}
    (begins : s.Begins p) (written : s.writeFile p content = (outcome, s')) : Preserves s s' := by
  rcases exists_of_writeFile begins written with ⟨-, rfl⟩ | ⟨dir, name, taken, opens, rfl, -⟩
  · exact .refl _
  obtain ⟨place, found, loc⟩ := opens.found
  obtain ⟨es, here⟩ := opens.isDir
  refine .insertAt (.file taken) (fun _ _ => rfl) nofun here fun sound => ?_
  have leads := locateFrom_eq_ok_iff.mp found
  cases place with
  | present at_end =>
    obtain rfl : at_end = dir ++ [name] := loc
    obtain ⟨c, there⟩ := leads.exists_at? begins.rooted begins
    exact sound.tree.isName_of_at? there name (by simp)
  | absent dir' name' =>
    obtain ⟨rfl, rfl⟩ : dir' = dir ∧ name' = name := by simpa [Place.loc] using loc
    refine leads.isName fun part mem => ⟨?_, (p.clean part mem).2⟩
    rintro rfl
    exact absurd (p.clean _ mem).1 (by decide)

theorem save_preserves (s : Store) {p : Path} (content : List UInt8) (begins : s.Begins p) :
    Preserves s (s.save p content).2 := by
  have holders : Preserves s (s.makeDirectories p.parent).2 :=
    makeAll_induction Preserves.refl Preserves.trans (fun _ made => makeOne_preserves made) _ s
  obtain ⟨s₁, grows, ⟨fault, made, ends⟩ | ⟨made, ends⟩⟩ := save_cases s p content
  · rw [made] at holders
    rwa [ends]
  · rw [made] at holders
    rw [ends]
    exact holders.trans (writeFile_preserves (grows.begins begins) rfl)

theorem Saves.preserves {s s' : Store} {files : List (Path × List UInt8)} (saves : Saves s files s')
    (begins : ∀ f ∈ files, s.Begins f.1) : Preserves s s' := by
  induction saves with
  | nil s => exact .refl s
  | @cons s s' _ p content _ saved rest ih =>
    obtain ⟨begins, others⟩ := List.forall_mem_cons.mp begins
    have first := save_preserves s content begins
    obtain ⟨loc, grows, -⟩ := save_spec begins saved
    rw [saved] at first
    exact first.trans (ih fun f mem => grows.begins (others f mem))

/-- A place at or under what a path denotes, links followed on the way down. -/
def IsUnder (s : Store) (p : Path) (loc : List String) : Prop :=
  ∃ names, Path.AreNames names ∧ s.Denotes (p.below names) loc

/-- Such a place, or one on the way to it. -/
def IsOnWay (s : Store) (p : Path) (loc : List String) : Prop :=
  ∃ names q, Path.AreNames names ∧ q.isWithin (p.below names) = true ∧ s.Denotes q loc

theorem IsUnder.isOnWay {s : Store} {p : Path} {loc : List String} (under : s.IsUnder p loc) : s.IsOnWay p loc := by
  obtain ⟨names, areNames, denotes⟩ := under
  exact ⟨names, _, areNames, Path.isWithin_refl _, denotes⟩

/-- A store to which files under an output directory were added, and directories there or on the way to it. Files under
the output directory may have a new content. -/
structure Extends (output : Path) (s s' : Store) : Prop where
  cwd : s'.cwd = s.cwd
  machine : s'.machine = s.machine
  sound : s'.Sound
  keeps : Entry.Keeps s.root s'.root
  links : ∀ l target, s'.root.at? l = some (.link target) → s.root.at? l = some (.link target)
  dirs : ∀ l es, s'.root.at? l = some (.dir es) → s.root.at? l = none → s.IsOnWay output l
  files : ∀ l content, s'.root.at? l = some (.file content) →
    s.root.at? l = some (.file content) ∨ s.IsUnder output l

end Store

namespace Run

/-- A run that succeeds extends the store. -/
theorem extends_of_write {settings : Settings} {date : String} {s s' : Store} (sound : s.Sound) {scan : Nesting.Scan}
    (found : (settings.scan s).value = .ok scan) (nodup : scan.graph.roots.Nodup) {files : List Path}
    (written : ((plan settings s date).write scan.graph scan.columnsOf s).value = ⟨.ok files, s'⟩)
    (relative : ∀ r ∈ scan.graph.roots, Package.IsRelative r.decl.head.package) :
    s.Extends (plan settings s date).output s' := by
  obtain ⟨dirs, files, adds, reached, wrote⟩ := addsAt_of_scan date sound found relative
  rw [written] at adds reached wrote
  obtain ⟨-, saves⟩ := (plan settings s date).write_spec nodup written
  have preserves := saves.preserves fun f mem =>
    (plan settings s date).begins_of_mem_documents sound (anchor_output settings s date) mem
  have keeps := adds.grows.root.kept
  -- paths denote what they denoted, since links are the same
  have denotes {p : Path} {loc : List String} (located : s'.locate p = .ok (.present loc)) : s.Denotes p loc := by
    have points := (Store.locateFrom_eq_ok_iff.mp located).pointsTo
    rw [adds.grows.start p] at points
    refine points.congr fun l target => ⟨fun there => ?_, preserves.links l target⟩
    obtain ⟨c, there', alike⟩ := keeps l _ there
    cases alike
    exact there'
  constructor
  case cwd => exact adds.grows.cwd
  case machine => exact adds.grows.machine
  case sound => exact preserves.sound sound
  case keeps => exact keeps
  case links => exact preserves.links
  case dirs =>
    intro l es there missing
    by_cases new : l ∈ dirs
    · obtain ⟨q, ⟨p, isFile, within⟩, located⟩ := reached l new
      obtain ⟨names, areNames, rfl⟩ := exists_names_of_isFile date sound found relative isFile
      exact ⟨names, q, areNames, within, denotes located⟩
    · obtain ⟨es', old⟩ := adds.dirs l new es there
      cases missing.symm.trans old
  case files =>
    intro l content there
    by_cases new : l ∈ files
    · obtain ⟨p, isFile, located⟩ := wrote l new
      obtain ⟨names, areNames, rfl⟩ := exists_names_of_isFile date sound found relative isFile
      exact .inr ⟨names, areNames, denotes located⟩
    · exact .inl ((adds.grows.root.files l new content).mp there)

end Run

end EntityAtlas
