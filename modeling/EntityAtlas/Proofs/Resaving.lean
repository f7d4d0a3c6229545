import EntityAtlas.Proofs.FailurePhases

/-!
# Saving again

A file that was saved can be saved again: the directories that hold it are there, and the file takes its own place. When
files are saved one after another a second time, each place gets in the end what it had before, also where several of
them have one place. So the tree is the same, down to the order of entries.
-/

namespace EntityAtlas

namespace Entry

mutual

/-- The tree with the contents of its files left out. -/
def shape : Entry → Entry
  | .file _ => .file []
  | .link target => .link target
  | .dir es => .dir (shapes es)

/-- The same for the entries of a directory. -/
def shapes : List (String × Entry) → List (String × Entry)
  | [] => []
  | (name, e) :: es => (name, e.shape) :: shapes es

end

theorem lookup_shapes (es : List (String × Entry)) (name : String) :
    (shapes es).lookup name = (es.lookup name).map shape := by
  induction es with
  | nil => rfl
  | cons e es ih =>
    obtain ⟨n, e⟩ := e
    rw [shapes, lookup_cons_eq, lookup_cons_eq, ih]
    split <;> rfl

theorem shapes_put (name : String) (new : Entry) (es : List (String × Entry)) :
    shapes (put name new es) = put name new.shape (shapes es) := by
  induction es with
  | nil => rfl
  | cons e es ih =>
    obtain ⟨n, e⟩ := e
    by_cases same : n = name
    · simp [put, shapes, same]
    · simp [put, shapes, beq_false_of_ne same, ih]

theorem put_of_lookup {name : String} {e : Entry} {es : List (String × Entry)} (there : es.lookup name = some e) :
    put name e es = es := by
  induction es with
  | nil => cases there
  | cons first es ih =>
    obtain ⟨n, first⟩ := first
    by_cases same : n = name
    · subst same
      obtain rfl : first = e := by simpa using there
      simp [put]
    · rw [lookup_cons_eq, if_neg (Ne.symm same)] at there
      simp [put, beq_false_of_ne same, ih there]

/-- Another content of a file leaves the shape. -/
theorem shape_insertAt {loc : List String} {e : Entry} {old : List UInt8} (there : e.at? loc = some (.file old))
    (new : List UInt8) : (insertAt (.file new) loc e).shape = e.shape := by
  induction loc generalizing e with
  | nil =>
    obtain rfl := Option.some.inj there
    rfl
  | cons name loc ih =>
    obtain ⟨c, child, inside⟩ := Option.bind_eq_some_iff.mp there
    cases e with
    | file content => cases child
    | link target => cases child
    | dir es =>
      have lookup : (shapes es).lookup name = some c.shape := by
        rw [lookup_shapes, show es.lookup name = some c from child]
        rfl
      rw [insertAt, child, Option.getD_some, shape, shape, entries, shapes_put, ih inside, put_of_lookup lookup]

theorem at?_dir_cons (n : String) (e : Entry) (es : List (String × Entry)) (name : String) (l : List String) :
    (Entry.dir ((n, e) :: es)).at? (name :: l) = if name = n then e.at? l else (Entry.dir es).at? (name :: l) := by
  rw [at?, child?, entries, lookup_cons_eq]
  split <;> rfl

mutual

/-- A tree is told by its shape and the contents of its files. -/
theorem eq_of_shape : ∀ e e' : Entry, e.Distinct → e'.shape = e.shape →
    (∀ l content, e.at? l = some (.file content) → e'.at? l = some (.file content)) → e' = e
  | .file content, e', _, _, contents => Option.some.inj (contents [] content rfl)
  | .link target, e', _, same, _ => by
    cases e' with
    | file content => simp [shape] at same
    | link target' => simpa [shape] using same
    | dir es' => simp [shape] at same
  | .dir es, e', distinct, same, contents => by
    cases e' with
    | file content => simp [shape] at same
    | link target' => simp [shape] at same
    | dir es' =>
      cases distinct with
      | dir names inside =>
        have same : shapes es' = shapes es := by simpa [shape] using same
        rw [eq_of_shapes es es' names inside same fun name l content => contents (name :: l) content]

theorem eq_of_shapes : ∀ es es' : List (String × Entry), (es.map Prod.fst).Nodup → (∀ p ∈ es, p.2.Distinct) →
    shapes es' = shapes es → (∀ name l content, (Entry.dir es).at? (name :: l) = some (.file content) →
      (Entry.dir es').at? (name :: l) = some (.file content)) → es' = es
  | [], es', _, _, same, _ => by
    cases es' with
    | nil => rfl
    | cons => simp [shapes] at same
  | (n, e) :: es, es', names, inside, same, contents => by
    cases es' with
    | nil => simp [shapes] at same
    | cons e' es' =>
      obtain ⟨n', e'⟩ := e'
      obtain ⟨⟨rfl, first⟩, others⟩ : (n' = n ∧ e'.shape = e.shape) ∧ shapes es' = shapes es := by
        simpa [shapes] using same
      obtain ⟨new, names⟩ := List.nodup_cons.mp names
      obtain ⟨here, inside⟩ := List.forall_mem_cons.mp inside
      simp only [at?_dir_cons] at contents
      rw [eq_of_shape e e' here first fun l content there => by simpa [there] using contents n' l content,
        eq_of_shapes es es' names inside others fun name l content there => ?_]
      -- no entry further down has the first name
      have other : name ≠ n' := by
        rintro rfl
        obtain ⟨c, child, -⟩ := Option.bind_eq_some_iff.mp there
        have child : es.lookup name = some c := child
        exact new (List.mem_map.mpr ⟨(name, c), mem_of_lookup child, rfl⟩)
      simpa [other, there] using contents name l content

end

end Entry

namespace Store

theorem Leads.exists_here {root : Entry} {links : Nat} {here : List String}
    (isDir : ∃ es, root.at? here = some (.dir es)) :
    ∃ dir es, Leads root (links + 1) [] here (.present dir) ∧ root.at? dir = some (.dir es) := by
  obtain ⟨es, there⟩ := isDir
  exact ⟨here, es, .arrive, there⟩

/-- On the way to a place a path leads to the directory that is to hold it. -/
theorem Leads.exists_holder {root : Entry} (rooted : ∃ es, root.at? [] = some (.dir es)) {links : Nat}
    {parts more here : List String} {place : Place} (nonempty : more ≠ [])
    (leads : Leads root links (parts ++ more) here place) (isDir : ∃ es, root.at? here = some (.dir es)) :
    ∃ dir es, Leads root links parts here (.present dir) ∧ root.at? dir = some (.dir es) := by
  generalize whole : parts ++ more = all at leads
  induction leads generalizing parts with
  | arrive => exact absurd (List.append_eq_nil_iff.mp whole).2 nonempty
  | up _ ih =>
    cases parts with
    | nil => exact exists_here isDir
    | cons part parts =>
      obtain ⟨rfl, onward⟩ := List.cons.inj whole
      obtain ⟨dir, es, leads, there⟩ := ih (isDir_dropLast isDir) onward
      exact ⟨dir, es, .up leads, there⟩
  | stay _ ih =>
    cases parts with
    | nil => exact exists_here isDir
    | cons part parts =>
      obtain ⟨rfl, onward⟩ := List.cons.inj whole
      obtain ⟨dir, es, leads, there⟩ := ih isDir onward
      exact ⟨dir, es, .stay leads, there⟩
  | down plain there _ ih =>
    cases parts with
    | nil => exact exists_here isDir
    | cons part parts =>
      obtain ⟨rfl, onward⟩ := List.cons.inj whole
      obtain ⟨dir, es, leads, holder⟩ := ih ⟨_, there⟩ onward
      exact ⟨dir, es, .down plain there leads, holder⟩
  | file =>
    cases parts with
    | nil => exact exists_here isDir
    | cons part parts => simp [nonempty] at whole
  | free =>
    cases parts with
    | nil => exact exists_here isDir
    | cons part parts => simp [nonempty] at whole
  | @link _ _ target rest here _ plain there _ ih =>
    cases parts with
    | nil => exact exists_here isDir
    | cons part parts =>
      obtain ⟨rfl, onward⟩ := List.cons.inj whole
      have isDir' : ∃ es, root.at? (if Text.startsWith target "/" then [] else here) = some (.dir es) := by
        split
        · exact rooted
        · exact isDir
      obtain ⟨dir, es, leads, holder⟩ := ih isDir' ((List.append_assoc ..).trans (congrArg _ onward))
      exact ⟨dir, es, .link plain there leads, holder⟩

variable {s s' : Store} {p : Path}

theorem exists_locate_parent (begins : s.Begins p) (nonempty : p.parts ≠ []) {place : Place}
    (found : s.locate p = .ok place) :
    ∃ dir es, s.locate p.parent = .ok (.present dir) ∧ s.root.at? dir = some (.dir es) := by
  have leads := locateFrom_eq_ok_iff.mp found
  rw [← List.dropLast_append_getLast nonempty] at leads
  obtain ⟨dir, es, above, isDir⟩ := leads.exists_holder begins.rooted (by simp) begins
  exact ⟨dir, es, locateFrom_eq_ok_iff.mpr above, isDir⟩

/-- A directory that is there can not be made. -/
theorem makeOne_ne_ok {loc : List String} (found : s.locate p = .ok (.present loc)) : s.makeOne p ≠ .ok s' := by
  intro made
  obtain ⟨dir, name, es, parts, above, here, free, up, short, -⟩ := exists_of_makeOne made
  have stay : name ≠ "." := fun same => p.dot_not_mem_parts (by simp [parts, same])
  obtain ⟨left, -, onward⟩ := exists_locateFrom_append (locateFrom_eq_ok_iff.mp above) here
  rw [locate, parts] at found
  have last : locateFrom s.root (left + 1) [name] dir = .ok (.present loc) :=
    (onward s.root (.refl _) [name]).symm.trans found
  simp [locateFrom, advance, up, stay, Nat.not_lt.mpr short, free] at last

/-- The refusal to make it is none that making its parent could help. -/
theorem refusal_of_makeOne (named : hasNul p = false) (begins : s.Begins p) {place : Place}
    (found : s.locate p = .ok place) {f : Fault} (refused : s.makeOne p = .error f) :
    f ≠ .nulInPath ∧ ∀ path, f ≠ .missing path := by
  unfold makeOne at refused
  rw [if_neg (by simp [named])] at refused
  split at refused
  · obtain rfl := Except.error.inj refused
    simp
  rename_i name last
  have nonempty : p.parts ≠ [] := by
    rintro empty
    simp [empty] at last
  obtain ⟨dir, es, above, isDir⟩ := exists_locate_parent begins nonempty found
  simp only [above, isDir] at refused
  split at refused
  · obtain rfl := Except.error.inj refused
    simp
  split at refused
  · obtain rfl := Except.error.inj refused
    simp
  split at refused
  · obtain rfl := Except.error.inj refused
    simp
  · cases refused

theorem makeLast_of_isDir (named : hasNul p = false) (begins : s.Begins p) {loc : List String}
    {es : List (String × Entry)} (found : s.locate p = .ok (.present loc))
    (isDir : s.root.at? loc = some (.dir es)) : s.makeLast p = (.ok (), s) := by
  have excused {f : Fault} (other : f ≠ .nulInPath) : s.excuse p f = .ok () := by
    simp [excuse, other, isDirectory, named, entry?_eq_ok_some.mpr ⟨loc, found, isDir⟩, Entry.isDir]
  unfold makeLast
  split
  · rename_i made
    exact absurd made (makeOne_ne_ok found)
  · rename_i path refused
    exact absurd rfl ((refusal_of_makeOne named begins found refused).2 path)
  · rename_i f _ refused
    rw [excused (refusal_of_makeOne named begins found refused).1]

/-- The path of a file that is there, and to which a file can be saved. -/
structure HasFile (s : Store) (p : Path) : Prop where
  named : hasNul p = false
  begins : s.Begins p
  isFile : ∃ loc content, s.locate p = .ok (.present loc) ∧ s.root.at? loc = some (.file content)

/-- The medium takes a content in the place that it is to have. -/
def Takes (s : Store) (f : Path × List UInt8) : Prop :=
  ∀ loc, s.locate f.1 = .ok (.present loc) → s.machine.refusal? loc f.2 = none

theorem HasFile.of_grows {locs : List (List String)} (has : s.HasFile p) (grows : Grows locs s s') : s'.HasFile p := by
  obtain ⟨named, begins, loc, content, found, there⟩ := has
  obtain ⟨c, there', alike⟩ := grows.root.kept _ _ there
  cases alike with
  | file _ content' => exact ⟨named, grows.begins begins, loc, content', grows.locate found trivial, there'⟩

/-- Saving to it gives the file another content, if the medium takes this. -/
theorem HasFile.exists_save_eq (has : s.HasFile p) {content : List UInt8} (takes : s.Takes (p, content)) :
    ∃ loc old, s.locate p = .ok (.present loc) ∧ s.root.at? loc = some (.file old) ∧
      s.save p content = (.ok (), s.withFile loc content) := by
  obtain ⟨named, begins, loc, old, found, there⟩ := has
  refine ⟨loc, old, found, there, ?_⟩
  have nonempty : p.parts ≠ [] := by
    intro empty
    obtain ⟨es, isDir⟩ := begins
    have arrives : s.locate p = .ok (.present (s.start p)) := by
      rw [locate, empty]
      rfl
    obtain rfl := Place.present.inj (Except.ok.inj (found.symm.trans arrives))
    cases there.symm.trans isDir
  obtain ⟨dir, es, above, isDir⟩ := exists_locate_parent begins nonempty found
  have named' : hasNul p.parent = false := by
    rw [hasNul, List.any_eq_false] at named ⊢
    exact fun part mem => named part (List.dropLast_subset _ mem)
  have holders : s.makeDirectories p.parent = (.ok (), s) := by
    rw [makeDirectories, makeAll, makeLast_of_isDir named' begins above isDir]
  have written : s.writeFile p content = (.ok (), s.withFile loc content) := by
    simp [writeFile, named, found, there, fill, takes loc found]
  rw [save, holders]
  exact written

theorem HasFile.takes_of_grows {locs : List (List String)} {content : List UInt8} (has : s.HasFile p)
    (grows : Grows locs s s') (takes : s.Takes (p, content)) : s'.Takes (p, content) := by
  obtain ⟨loc, old, found, -⟩ := has.isFile
  intro loc' found'
  obtain rfl := Place.present.inj (Except.ok.inj ((grows.locate found trivial).symm.trans found'))
  rw [grows.machine]
  exact takes _ found

/-- What was saved can be saved again: the file is there, and the medium takes the content. -/
theorem Saves.hasFile {files : List (Path × List UInt8)} (saves : Saves s files s')
    (each : ∀ f ∈ files, s.Begins f.1) : ∀ f ∈ files, s'.HasFile f.1 ∧ s'.Takes f := by
  induction saves with
  | nil => simp
  | @cons s s₁ s' p content more saved rest ih =>
    obtain ⟨begins, others⟩ := List.forall_mem_cons.mp each
    obtain ⟨loc, grows, named, found, there, takes⟩ := save_spec begins saved
    have others' (f : Path × List UInt8) (mem : f ∈ more) := grows.begins (others f mem)
    obtain ⟨locs, later, -⟩ := rest.grows others'
    have has : s₁.HasFile p := ⟨named, grows.begins begins, loc, content, found, there⟩
    have takes' : s₁.Takes (p, content) := by
      intro loc' found'
      obtain rfl := Place.present.inj (Except.ok.inj (found.symm.trans found'))
      rwa [grows.machine]
    exact List.forall_mem_cons.mpr ⟨⟨has.of_grows later, has.takes_of_grows later takes'⟩, ih others'⟩

/-- Saving to files that are there leaves the shape of the tree. -/
theorem Saves.shape_eq {files : List (Path × List UInt8)} (saves : Saves s files s')
    (each : ∀ f ∈ files, s.HasFile f.1 ∧ s.Takes f) : s'.root.shape = s.root.shape := by
  induction saves with
  | nil => rfl
  | @cons s s₁ s' p content more saved rest ih =>
    obtain ⟨⟨has, takes⟩, others⟩ := List.forall_mem_cons.mp each
    obtain ⟨loc, old, -, there, again⟩ := has.exists_save_eq takes
    obtain ⟨place, grows, -⟩ := save_spec has.begins saved
    obtain ⟨-, rfl⟩ := Prod.mk.inj (again.symm.trans saved)
    rw [ih fun f mem => ⟨(others f mem).1.of_grows grows, (others f mem).1.takes_of_grows grows (others f mem).2⟩]
    exact Entry.shape_insertAt there content

/-- Files that are saved once more have the contents that they had. -/
theorem HasSaved.file_iff {files : List (Path × List UInt8)} {s'' : Store} (first : HasSaved s files s')
    (second : HasSaved s' files s'') (same : ∀ f ∈ files, s''.locate f.1 = s'.locate f.1) (loc : List String)
    (content : List UInt8) :
    s''.root.at? loc = some (.file content) ↔ s'.root.at? loc = some (.file content) := by
  by_cases saved : ∃ f ∈ files, s'.locate f.1 = .ok (.present loc)
  · -- the last file with this place has its content there both times
    obtain ⟨before, ⟨p, bytes⟩, after, rfl, found, last⟩ := exists_split_at_last saved
    have found' : s''.locate p = .ok (.present loc) := (same (p, bytes) (by simp)).trans found
    have read {t : Store} (reads : t.readBytes p = .ok bytes) (found : t.locate p = .ok (.present loc)) :
        t.root.at? loc = some (.file bytes) := by
      obtain ⟨-, loc', located, there⟩ := exists_of_readBytes reads
      obtain rfl := Place.present.inj (Except.ok.inj (found.symm.trans located))
      exact there
    have own := read (first.saved before p bytes after rfl fun f mem is => last f mem (is.trans found)) found
    have own' : s''.root.at? loc = some (.file bytes) := by
      refine read (second.saved before p bytes after rfl fun f mem is => last f mem ?_) found'
      exact (same f (by simp [mem])).symm.trans (is.trans found')
    rw [own, own']
  · exact second.others loc content fun f mem found => saved ⟨f, mem, (same f mem).symm.trans found⟩

end Store

namespace Generate.Plan

variable (plan : Plan) {g : EntityGraph} {columnsOf : Placed → List String}

/-- Writing that has succeeded succeeds again, and changes nothing. -/
theorem write_again {s s' : Store} {files : List Path} (nodup : g.roots.Nodup)
    (each : ∀ f ∈ plan.documents g columnsOf, s.Begins f.1) (distinct : s'.root.Distinct)
    (written : (plan.write g columnsOf s).value = ⟨.ok files, s'⟩) :
    (plan.write g columnsOf s').value = ⟨.ok files, s'⟩ := by
  obtain ⟨names, saves⟩ := plan.write_spec nodup written
  have has := saves.hasFile each
  cases ended : (plan.write g columnsOf s').value with
  | mk outcome s'' =>
    cases outcome with
    | error fault =>
      -- all files are there after the first time, so saving to one cannot fail
      obtain ⟨before, f, after, s₁, split, saves', failed⟩ := plan.write_error nodup ended
      obtain ⟨locs, grows, -⟩ := saves'.grows fun f mem => (has f (by simp [split, mem])).1.begins
      obtain ⟨there, takes⟩ := has f (by simp [split])
      obtain ⟨loc, old, -, -, again⟩ := (there.of_grows grows).exists_save_eq (there.takes_of_grows grows takes)
      cases again.symm.trans failed
    | ok files' =>
      obtain ⟨names', saves'⟩ := plan.write_spec nodup ended
      have begins (f : Path × List UInt8) (mem : f ∈ plan.documents g columnsOf) := (has f mem).1.begins
      obtain ⟨locs, grows, -⟩ := saves'.grows begins
      have same (f : Path × List UInt8) (mem : f ∈ plan.documents g columnsOf) : s''.locate f.1 = s'.locate f.1 := by
        obtain ⟨loc, content, found, -⟩ := (has f mem).1.isFile
        exact (grows.locate found trivial).trans found.symm
      have contents := (saves.hasSaved each (.refl s')).file_iff
        (saves'.hasSaved begins (.refl s'')) same
      -- the tree has the shape that it had, and every file has its content again
      have root : s''.root = s'.root :=
        Entry.eq_of_shape _ _ distinct (saves'.shape_eq has) fun l content => (contents l content).mpr
      obtain rfl : s'' = s' := by
        cases s''
        cases s'
        simpa using ⟨root, grows.cwd, grows.machine⟩
      rw [names, names']

end Generate.Plan

end EntityAtlas
