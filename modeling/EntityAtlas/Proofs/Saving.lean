import EntityAtlas.Proofs.PathTexts
import EntityAtlas.Proofs.Resolving
import EntityAtlas.Store.Write
import Mathlib.Data.List.Basic

/-!
# Saving files

Saving a file only adds to a store: what was there stays where it was and of its kind, and no file but the one that is
saved to is new or has a new content. Paths therefore go on leading where they led, and of several files saved one after
another each keeps its content, unless a later one has the same place.
-/

namespace EntityAtlas

namespace Entry

/-! ## Trees that grow -/

/-- Entries of one kind; files may differ in their contents. -/
inductive Alike : Entry → Entry → Prop where
  | file (content content' : List UInt8) : Alike (.file content) (.file content')
  | link (target : String) : Alike (.link target) (.link target)
  | dir (es es' : List (String × Entry)) : Alike (.dir es) (.dir es')

theorem Alike.refl (e : Entry) : Alike e e := by
  cases e <;> constructor

theorem Alike.trans {e e' e'' : Entry} (first : Alike e e') (second : Alike e' e'') : Alike e e'' := by
  cases first <;> cases second <;> constructor

/-- A tree that has all that another one has, file contents apart. -/
def Keeps (e e' : Entry) : Prop :=
  ∀ l c, e.at? l = some c → ∃ c', e'.at? l = some c' ∧ Alike c c'

theorem Keeps.refl (e : Entry) : Keeps e e :=
  fun _ c there => ⟨c, there, .refl c⟩

/-- A tree that was added to: what was there is still there in its kind, and files that are new or have a new content
are at the places `locs` only. -/
structure Grows (locs : List (List String)) (e e' : Entry) : Prop where
  kept : Keeps e e'
  files : ∀ l ∉ locs, ∀ content, e'.at? l = some (.file content) ↔ e.at? l = some (.file content)

theorem Grows.refl (e : Entry) : Grows [] e e where
  kept := .refl e
  files _ _ _ := .rfl

theorem Grows.trans {locs locs' : List (List String)} {e e' e'' : Entry} (first : Grows locs e e')
    (second : Grows locs' e' e'') : Grows (locs ++ locs') e e'' where
  kept l c there := by
    obtain ⟨c', there', alike⟩ := first.kept l c there
    obtain ⟨c'', there'', alike'⟩ := second.kept l c' there'
    exact ⟨c'', there'', alike.trans alike'⟩
  files l elsewhere content := by
    rw [List.mem_append, not_or] at elsewhere
    rw [second.files l elsewhere.2, first.files l elsewhere.1]

/-! ## Putting an entry into a tree -/

theorem lookup_cons_eq (n : String) (e : Entry) (es : List (String × Entry)) (name : String) :
    List.lookup name ((n, e) :: es) = if name = n then some e else es.lookup name := by
  by_cases same : name = n
  · simp [same]
  · simp [List.lookup_cons, beq_false_of_ne same, same]

theorem lookup_put (name : String) (new : Entry) (es : List (String × Entry)) (other : String) :
    (put name new es).lookup other = if other = name then some new else es.lookup other := by
  induction es with
  | nil => exact lookup_cons_eq name new [] other
  | cons e es ih =>
    obtain ⟨n, e⟩ := e
    by_cases here : n = name
    · subst here
      simp only [put, beq_self_eq_true, if_true, lookup_cons_eq]
      split <;> rfl
    · simp only [put, beq_false_of_ne here, Bool.false_eq_true, if_false, lookup_cons_eq, ih]
      by_cases same : other = n
      · simp [same, here]
      · simp [same]

theorem at?_append (e : Entry) (l m : List String) : e.at? (l ++ m) = (e.at? l).bind fun c => c.at? m := by
  induction l generalizing e with
  | nil => rfl
  | cons name l ih =>
    rw [List.cons_append, at?, at?, Option.bind_assoc]
    exact Option.bind_congr fun c _ => ih c

theorem at?_insertAt (new : Entry) (loc : List String) (e : Entry) : (insertAt new loc e).at? loc = some new := by
  induction loc generalizing e with
  | nil => rfl
  | cons name loc ih =>
    have child : (insertAt new (name :: loc) e).child? name =
        some (insertAt new loc ((e.child? name).getD (.dir []))) := by
      simp [insertAt, child?, entries, lookup_put]
    rw [at?, child]
    exact ih _

theorem at?_put (name : String) (new : Entry) (es : List (String × Entry)) (n : String) (l : List String) :
    (Entry.dir (put name new es)).at? (n :: l) = if n = name then new.at? l else (Entry.dir es).at? (n :: l) := by
  simp only [at?, child?, entries, lookup_put]
  split <;> rfl

/-- What holds an entry is a directory. -/
theorem exists_dir {e c : Entry} {dir : List String} {name : String} (there : e.at? (dir ++ [name]) = some c) :
    ∃ es, e.at? dir = some (.dir es) := by
  rw [at?_append] at there
  obtain ⟨d, found, child⟩ := Option.bind_eq_some_iff.mp there
  cases d with
  | dir es => exact ⟨es, found⟩
  | file content => simp [at?, child?, entries] at child
  | link target => simp [at?, child?, entries] at child

/-- A directory in which an entry takes the place of one that it continues, or a free place. -/
theorem grows_put {es : List (String × Entry)} {name : String} {old : Option Entry} {new : Entry}
    {locs : List (List String)} (lookup : es.lookup name = old)
    (kept : ∀ l c, old.bind (·.at? l) = some c → ∃ c', new.at? l = some c' ∧ Alike c c')
    (files : ∀ l ∉ locs, ∀ content, new.at? l = some (.file content) ↔ old.bind (·.at? l) = some (.file content)) :
    Grows (locs.map (name :: ·)) (.dir es) (.dir (put name new es)) := by
  subst lookup
  have child (l : List String) : (Entry.dir (put name new es)).at? (name :: l) = new.at? l :=
    (at?_put name new es name l).trans (if_pos rfl)
  have others {n : String} (other : n ≠ name) (l : List String) :
      (Entry.dir (put name new es)).at? (n :: l) = (Entry.dir es).at? (n :: l) :=
    (at?_put name new es n l).trans (if_neg other)
  constructor
  · rintro l c there
    cases l with
    | nil => exact ⟨_, rfl, Option.some.inj there ▸ .dir _ _⟩
    | cons n l =>
      by_cases same : n = name
      · subst same
        obtain ⟨c', there', alike⟩ := kept l c there
        exact ⟨c', (child l).trans there', alike⟩
      · exact ⟨c, (others same l).trans there, .refl c⟩
  · rintro l elsewhere content
    cases l with
    | nil => simp [at?]
    | cons n l =>
      by_cases same : n = name
      · subst same
        rw [child, files l fun mem => elsewhere (List.mem_map_of_mem mem)]
        rfl
      · rw [others same]

/-- The same, further down. -/
theorem grows_insertAt {new e : Entry} {dir : List String} {name : String} {es : List (String × Entry)}
    {locs : List (List String)} (here : e.at? dir = some (.dir es))
    (kept : ∀ l c, e.at? (dir ++ name :: l) = some c → ∃ c', new.at? l = some c' ∧ Alike c c')
    (files : ∀ l ∉ locs, ∀ content,
      new.at? l = some (.file content) ↔ e.at? (dir ++ name :: l) = some (.file content)) :
    Grows (locs.map fun l => dir ++ name :: l) e (insertAt new (dir ++ [name]) e) := by
  induction dir generalizing e with
  | nil =>
    obtain rfl := Option.some.inj here
    exact grows_put rfl kept files
  | cons n dir ih =>
    obtain ⟨c, child, here⟩ := Option.bind_eq_some_iff.mp here
    have inside (l : List String) : e.at? (n :: l) = c.at? l := by simp [at?, child]
    obtain ⟨kept', files'⟩ := ih here (by simpa only [List.cons_append, inside] using kept)
      (by simpa only [List.cons_append, inside] using files)
    cases e with
    | file content => simp [child?, entries] at child
    | link target => simp [child?, entries] at child
    | dir es =>
      have lookup : es.lookup n = some c := child
      have := grows_put lookup kept' files'
      simpa [insertAt, child, entries, Function.comp_def] using this

/-- An empty directory takes a free place. -/
theorem grows_dir {e : Entry} {dir : List String} {name : String} {es : List (String × Entry)}
    (here : e.at? dir = some (.dir es)) (free : e.at? (dir ++ [name]) = none) :
    Grows [] e (insertAt (.dir []) (dir ++ [name]) e) := by
  have nothing (l : List String) : e.at? (dir ++ name :: l) = none := by
    rw [List.append_cons, at?_append, free]
    rfl
  change Grows ([].map fun l => dir ++ name :: l) _ _
  refine grows_insertAt here (fun l c there => ?_) (fun l _ content => ?_)
  · rw [nothing] at there
    cases there
  · rw [nothing]
    cases l <;> simp [at?, child?, entries]

/-- A file takes a free place, or that of another file. -/
theorem grows_file {e : Entry} {dir : List String} {name : String} {es : List (String × Entry)}
    (here : e.at? dir = some (.dir es))
    (fits : ∀ old, e.at? (dir ++ [name]) = some old → ∃ content, old = .file content)
    (content : List UInt8) : Grows [dir ++ [name]] e (insertAt (.file content) (dir ++ [name]) e) := by
  have nothing (n : String) (l : List String) : e.at? (dir ++ name :: n :: l) = none := by
    rw [List.append_cons, at?_append]
    cases there : e.at? (dir ++ [name]) with
    | none => rfl
    | some old =>
      obtain ⟨content, rfl⟩ := fits old there
      rfl
  change Grows ([[]].map fun l => dir ++ name :: l) _ _
  refine grows_insertAt here (fun l c there => ?_) (fun l elsewhere content' => ?_)
  · cases l with
    | nil =>
      obtain ⟨content', rfl⟩ := fits c there
      exact ⟨_, rfl, .file _ _⟩
    | cons n l =>
      rw [nothing] at there
      cases there
  · cases l with
    | nil => exact absurd List.mem_cons_self elsewhere
    | cons n l =>
      rw [nothing]
      simp [at?, child?, entries]

end Entry

namespace Store

/-! ## Places in a store that grows -/

/-- The same for stores; the working directory and the machine stay. -/
structure Grows (locs : List (List String)) (s s' : Store) : Prop where
  cwd : s'.cwd = s.cwd
  machine : s'.machine = s.machine
  root : Entry.Grows locs s.root s'.root

theorem Grows.refl (s : Store) : Grows [] s s := ⟨rfl, rfl, .refl s.root⟩

theorem Grows.trans {locs locs' : List (List String)} {s s' s'' : Store} (first : Grows locs s s')
    (second : Grows locs' s' s'') : Grows (locs ++ locs') s s'' :=
  ⟨second.cwd.trans first.cwd, second.machine.trans first.machine, first.root.trans second.root⟩

/-- The location of what a path leads to, or of what a free name would stand for. -/
def Place.loc : Place → List String
  | .present loc => loc
  | .absent dir name => dir ++ [name]

/-- A place that is taken by a file, if it was free. -/
def Place.IsTaken (root : Entry) : Place → Prop
  | .present _ => True
  | .absent dir name => ∃ content, root.at? (dir ++ [name]) = some (.file content)

/-- A place in a directory, or that of an entry. -/
def Place.IsWithin (root : Entry) : Place → Prop
  | .present _ => True
  | .absent dir name => (∃ es, root.at? dir = some (.dir es)) ∧ root.at? (dir ++ [name]) = none

variable {root root' : Entry} {locs : List (List String)}

/-- Where the way led, it leads in the grown tree; where it led to a free name, to the file that was made there. -/
theorem Leads.keeps (keeps : Entry.Keeps root root') {links : Nat} {parts here : List String} {place : Place}
    (leads : Leads root links parts here place) (taken : place.IsTaken root') :
    Leads root' links parts here (.present place.loc) := by
  induction leads with
  | arrive => exact .arrive
  | up _ ih => exact .up (ih taken)
  | stay _ ih => exact .stay (ih taken)
  | down plain there _ ih =>
    obtain ⟨c, there', alike⟩ := keeps _ _ there
    cases alike
    exact .down plain there' (ih taken)
  | file plain there =>
    obtain ⟨c, there', alike⟩ := keeps _ _ there
    cases alike
    exact .file plain there'
  | free plain there =>
    obtain ⟨content, there'⟩ := taken
    exact .file plain there'
  | link plain there _ ih =>
    obtain ⟨c, there', alike⟩ := keeps _ _ there
    cases alike
    exact .link plain there' (ih taken)

theorem Grows.start {s s' : Store} (grows : Grows locs s s') (p : Path) : s'.start p = s.start p := by
  unfold Store.start
  rw [grows.cwd]

/-- A path leads where it led, and to a file that was made where it led to a free name. -/
theorem Grows.locate {s s' : Store} (grows : Grows locs s s') {p : Path} {place : Place}
    (found : s.locate p = .ok place) (taken : place.IsTaken s'.root) : s'.locate p = .ok (.present place.loc) := by
  rw [Store.locate, grows.start p]
  exact locateFrom_eq_ok_iff.mpr ((locateFrom_eq_ok_iff.mp found).keeps grows.root.kept taken)

theorem isDir_dropLast {here : List String} (isDir : ∃ es, root.at? here = some (.dir es)) :
    ∃ es, root.at? here.dropLast = some (.dir es) := by
  rcases List.eq_nil_or_concat here with rfl | ⟨dir, name, rfl⟩
  · exact isDir
  · obtain ⟨es, there⟩ := isDir
    rw [List.concat_eq_append, List.dropLast_concat]
    exact Entry.exists_dir (List.concat_eq_append ▸ there)

/-- A way that starts in a directory ends in one. -/
theorem Leads.isWithin (rooted : ∃ es, root.at? [] = some (.dir es)) {links : Nat} {parts here : List String}
    {place : Place} (leads : Leads root links parts here place) (isDir : ∃ es, root.at? here = some (.dir es)) :
    place.IsWithin root := by
  induction leads with
  | arrive => trivial
  | up _ ih => exact ih (isDir_dropLast isDir)
  | stay _ ih => exact ih isDir
  | down _ there _ ih => exact ih ⟨_, there⟩
  | file => trivial
  | free _ there => exact ⟨isDir, there⟩
  | link _ _ _ ih =>
    refine ih ?_
    split
    · exact rooted
    · exact isDir

/-- A way that starts in a directory and leads to an entry leads to one that is there. -/
theorem Leads.exists_at? {root : Entry} (rooted : ∃ es, root.at? [] = some (.dir es)) {links : Nat}
    {parts here loc : List String} (leads : Leads root links parts here (.present loc))
    (isDir : ∃ es, root.at? here = some (.dir es)) : ∃ e, root.at? loc = some e := by
  generalize is : Place.present loc = place at leads
  induction leads with
  | arrive =>
    obtain rfl := Place.present.inj is
    obtain ⟨es, there⟩ := isDir
    exact ⟨_, there⟩
  | up _ ih => exact ih (isDir_dropLast isDir) is
  | stay _ ih => exact ih isDir is
  | down _ there _ ih => exact ih ⟨_, there⟩ is
  | file _ there =>
    obtain rfl := Place.present.inj is
    exact ⟨_, there⟩
  | free => cases is
  | link _ _ _ ih =>
    refine ih ?_ is
    split
    · exact rooted
    · exact isDir

/-! ## What saving does -/

/-- A path that starts from a directory. -/
def Begins (s : Store) (p : Path) : Prop :=
  ∃ es, s.root.at? (s.start p) = some (.dir es)

theorem Grows.begins {s s' : Store} (grows : Grows locs s s') {p : Path} (begins : s.Begins p) : s'.Begins p := by
  obtain ⟨es, there⟩ := begins
  obtain ⟨c, there', alike⟩ := grows.root.kept _ _ there
  cases alike with
  | dir _ es' => exact ⟨es', grows.start p ▸ there'⟩

/-- A directory that is made takes a free name in the directory that its parent leads to. -/
theorem exists_of_makeOne {s s' : Store} {p : Path} (made : s.makeOne p = .ok s') :
    ∃ dir name es, p.parts = p.parent.parts ++ [name] ∧ s.locate p.parent = .ok (.present dir) ∧
      s.root.at? dir = some (.dir es) ∧ s.root.at? (dir ++ [name]) = none ∧ name ≠ ".." ∧
      name.utf8ByteSize ≤ maxName ∧ s' = { s with root := Entry.insertAt (.dir []) (dir ++ [name]) s.root } := by
  unfold makeOne at made
  split at made
  · cases made
  split at made
  · cases made
  rename_i name last
  split at made
  · cases made
  · cases made
  rename_i dir found
  split at made
  · rename_i es here
    split at made
    · cases made
    rename_i up
    split at made
    · cases made
    rename_i long
    split at made
    · cases made
    rename_i free
    exact ⟨dir, name, es, (List.dropLast_append_getLast? name (Option.mem_def.mpr last)).symm, found, here,
      by simpa using free, by simpa using up, Nat.not_lt.mp long, (Except.ok.inj made).symm⟩
  · cases made

theorem makeOne_grows {s s' : Store} {p : Path} (made : s.makeOne p = .ok s') : Grows [] s s' := by
  obtain ⟨dir, name, es, -, -, here, free, -, -, rfl⟩ := exists_of_makeOne made
  exact ⟨rfl, rfl, Entry.grows_dir here free⟩

/-- Making a directory and those that hold it makes one directory after another, each of them on the way to the last. -/
theorem makeAll_induction {R : Store → Store → Prop} (refl : ∀ s, R s s)
    (trans : ∀ {s s' s''}, R s s' → R s' s'' → R s s'') {p : Path}
    (one : ∀ {s s' q}, q.isWithin p = true → s.makeOne q = .ok s' → R s s') (fuel : Nat) (s : Store) :
    R s (makeAll fuel s p).2 := by
  have last (s : Store) {q : Path} (within : q.isWithin p = true) : R s (s.makeLast q).2 := by
    unfold makeLast
    split
    · rename_i s' made
      exact one within made
    · exact refl s
    · exact refl s
  suffices all : ∀ fuel s q, q.isWithin p = true → R s (makeAll fuel s q).2 from all fuel s p (Path.isWithin_refl p)
  intro fuel
  induction fuel with
  | zero => exact fun s q within => last s within
  | succ fuel ih =>
    intro s q within
    have first := last s within
    have holders (s : Store) := ih s q.parent (Path.isWithin_trans (Path.isWithin_parent q) within)
    unfold makeAll
    split
    · rename_i path s' made
      rw [made] at first
      have above := holders s'
      split
      · exact first
      split
      · rename_i f s'' ended
        rw [ended] at above
        exact trans first above
      · rename_i s'' ended
        rw [ended] at above
        exact trans (trans first above) (last s'' within)
    · exact first

theorem makeAll_grows (fuel : Nat) (s : Store) (p : Path) : Grows [] s (makeAll fuel s p).2 :=
  makeAll_induction Grows.refl Grows.trans (fun _ made => makeOne_grows made) fuel s

theorem Begins.rooted {s : Store} {p : Path} (begins : s.Begins p) : ∃ es, s.root.at? [] = some (.dir es) := by
  obtain ⟨es, there⟩ := begins
  cases tree : s.root with
  | dir es' => exact ⟨es', rfl⟩
  | file content => cases start : s.start p <;> simp [tree, start, Entry.at?, Entry.child?, Entry.entries] at there
  | link target => cases start : s.start p <;> simp [tree, start, Entry.at?, Entry.child?, Entry.entries] at there

theorem readBytes_eq {s : Store} {p : Path} {loc : List String} {content : List UInt8} (named : hasNul p = false)
    (found : s.locate p = .ok (.present loc)) (there : s.root.at? loc = some (.file content)) :
    s.readBytes p = .ok content := by
  have is_file : s.entry? p = .ok (some (.file content)) := by
    unfold entry?
    rw [found, ← there]
    rfl
  rw [readBytes, if_neg (by simp [named]), is_file]

/-- A path at whose end a file can be put: the end is in a directory, and free or taken by a file. -/
structure Opens (s : Store) (p : Path) (dir : List String) (name : String) : Prop where
  named : hasNul p = false
  found : ∃ place, s.locate p = .ok place ∧ place.loc = dir ++ [name]
  isDir : ∃ es, s.root.at? dir = some (.dir es)
  fits : ∀ old, s.root.at? (dir ++ [name]) = some old → ∃ content, old = .file content

/-- A file that is put at the end of a path is found there. -/
theorem Opens.withFile {s : Store} {p : Path} {dir : List String} {name : String} (opens : s.Opens p dir name)
    (content : List UInt8) :
    let s' := s.withFile (dir ++ [name]) content
    Grows [dir ++ [name]] s s' ∧ s'.locate p = .ok (.present (dir ++ [name])) ∧
      s'.root.at? (dir ++ [name]) = some (.file content) := by
  intro s'
  obtain ⟨place, found, loc⟩ := opens.found
  obtain ⟨es, here⟩ := opens.isDir
  have grows : Grows [dir ++ [name]] s s' := ⟨rfl, rfl, Entry.grows_file here opens.fits content⟩
  have there : s'.root.at? (dir ++ [name]) = some (.file content) := Entry.at?_insertAt _ _ _
  refine ⟨grows, loc ▸ grows.locate found ?_, there⟩
  cases place with
  | present loc => trivial
  | absent dir' name' => exact ⟨content, (congrArg s'.root.at? loc).trans there⟩

/-- A path from a directory to a free name or to a file can be opened. -/
theorem exists_opens {s : Store} {p : Path} {place : Place} (begins : s.Begins p) (named : hasNul p = false)
    (found : s.locate p = .ok place) (isFile : ∀ e, s.root.at? place.loc = some e → ∃ content, e = .file content) :
    ∃ dir name, place.loc = dir ++ [name] ∧ s.Opens p dir name := by
  cases place with
  | absent dir name =>
    obtain ⟨holder, -⟩ := (locateFrom_eq_ok_iff.mp found).isWithin begins.rooted begins
    exact ⟨dir, name, rfl, named, ⟨_, found, rfl⟩, holder, isFile⟩
  | present loc =>
    obtain ⟨e, there⟩ := (locateFrom_eq_ok_iff.mp found).exists_at? begins.rooted begins
    rcases List.eq_nil_or_concat' loc with rfl | ⟨dir, name, rfl⟩
    · -- the root is a directory
      obtain ⟨es, rooted⟩ := begins.rooted
      obtain ⟨content, isFile⟩ := isFile _ rooted
      cases isFile
    · exact ⟨dir, name, rfl, named, ⟨_, found, rfl⟩, Entry.exists_dir there, isFile⟩

/-- Writing a file fails and changes nothing, or it fills the file at the end of the path as far as the medium takes the
content. -/
theorem writeFile_cases {s : Store} {p : Path} (begins : s.Begins p) (content : List UInt8) :
    (∃ fault, s.writeFile p content = (.error fault, s)) ∨
      ∃ dir name, s.Opens p dir name ∧ s.writeFile p content = s.fill p (dir ++ [name]) content := by
  unfold writeFile
  split
  · exact .inl ⟨_, rfl⟩
  rename_i named
  rw [Bool.not_eq_true] at named
  split
  · exact .inl ⟨_, rfl⟩
  · rename_i dir name found
    obtain ⟨-, free⟩ := (locateFrom_eq_ok_iff.mp found).isWithin begins.rooted begins
    obtain ⟨dir', name', same, opens⟩ := exists_opens begins named found fun e there => by
      cases free.symm.trans there
    exact .inr ⟨dir', name', opens, by rw [← same]; rfl⟩
  · rename_i loc found
    split
    · rename_i old there
      obtain ⟨dir, name, same, opens⟩ := exists_opens begins named found fun e is =>
        ⟨old, Option.some.inj (is.symm.trans there)⟩
      exact .inr ⟨dir, name, opens, by rw [← same]; rfl⟩
    · exact .inl ⟨_, rfl⟩

/-- What comes of writing a file: it has all of the content, or there is a fault and it has a first part of the content
or nothing has changed. -/
theorem exists_of_writeFile {s s' : Store} {p : Path} {content : List UInt8} {outcome : Except Fault Unit}
    (begins : s.Begins p) (written : s.writeFile p content = (outcome, s')) :
    (∃ fault, outcome = .error fault) ∧ s' = s ∨
      ∃ dir name taken, s.Opens p dir name ∧ s' = s.withFile (dir ++ [name]) taken ∧ taken <+: content ∧
        (outcome = .ok () → taken = content ∧ s.machine.refusal? (dir ++ [name]) content = none) := by
  rcases writeFile_cases begins content with ⟨fault, failed⟩ | ⟨dir, name, opens, fills⟩
  · obtain ⟨rfl, rfl⟩ := Prod.mk.inj (failed.symm.trans written)
    exact .inl ⟨⟨fault, rfl⟩, rfl⟩
  rw [fills, fill] at written
  split at written
  · rename_i takes
    obtain ⟨rfl, rfl⟩ := Prod.mk.inj written
    exact .inr ⟨dir, name, content, opens, rfl, List.prefix_rfl, fun _ => ⟨rfl, takes⟩⟩
  · obtain ⟨rfl, rfl⟩ := Prod.mk.inj written
    exact .inl ⟨⟨_, rfl⟩, rfl⟩
  · rename_i n number reason _
    obtain ⟨rfl, rfl⟩ := Prod.mk.inj written
    exact .inr ⟨dir, name, content.take n, opens, rfl, List.take_prefix n content, nofun⟩

/-- A file that is written is found with its content, and no other file changes. -/
theorem writeFile_spec {s s' : Store} {p : Path} {content : List UInt8} (begins : s.Begins p)
    (written : s.writeFile p content = (.ok (), s')) :
    ∃ loc, Grows [loc] s s' ∧ hasNul p = false ∧ s'.locate p = .ok (.present loc) ∧
      s'.root.at? loc = some (.file content) ∧ s.machine.refusal? loc content = none := by
  rcases exists_of_writeFile begins written with ⟨⟨fault, failed⟩, -⟩ | ⟨dir, name, taken, opens, rfl, -, whole⟩
  · cases failed
  · obtain ⟨rfl, takes⟩ := whole rfl
    obtain ⟨grows, found, there⟩ := opens.withFile taken
    exact ⟨_, grows, opens.named, found, there, takes⟩

/-- Saving makes directories and, unless that fails, writes the file. -/
theorem save_cases (s : Store) (p : Path) (content : List UInt8) :
    ∃ s₁, Grows [] s s₁ ∧ ((∃ fault, s.makeDirectories p.parent = (.error fault, s₁) ∧
        s.save p content = (.error fault, s₁)) ∨
      s.makeDirectories p.parent = (.ok (), s₁) ∧ s.save p content = s₁.writeFile p content) := by
  have holders : Grows [] s (s.makeDirectories p.parent).2 := makeAll_grows _ s p.parent
  cases made : s.makeDirectories p.parent with
  | mk outcome s₁ =>
    rw [made] at holders
    cases outcome with
    | error fault => exact ⟨s₁, holders, .inl ⟨fault, rfl, by rw [save, made]⟩⟩
    | ok => exact ⟨s₁, holders, .inr ⟨rfl, by rw [save, made]⟩⟩

/-- A file that is saved is found with its content, and no other file changes. -/
theorem save_spec {s s' : Store} {p : Path} {content : List UInt8} (begins : s.Begins p)
    (saved : s.save p content = (.ok (), s')) :
    ∃ loc, Grows [loc] s s' ∧ hasNul p = false ∧ s'.locate p = .ok (.present loc) ∧
      s'.root.at? loc = some (.file content) ∧ s.machine.refusal? loc content = none := by
  obtain ⟨s₁, holders, ⟨fault, -, failed⟩ | ⟨-, is⟩⟩ := save_cases s p content
  · cases failed.symm.trans saved
  · obtain ⟨loc, grows, found⟩ := writeFile_spec (holders.begins begins) (is.symm.trans saved)
    exact ⟨loc, holders.trans grows, holders.machine ▸ found⟩

/-! ## One file after another -/

/-- Saving files one after another without a fault. -/
inductive Saves : Store → List (Path × List UInt8) → Store → Prop where
  | nil (s : Store) : Saves s [] s
  | cons {s s' s'' : Store} {p : Path} {content : List UInt8} {more : List (Path × List UInt8)}
      (saved : s.save p content = (.ok (), s')) (rest : Saves s' more s'') : Saves s ((p, content) :: more) s''

/-- All files are found in the end, and no other file has changed. -/
theorem Saves.grows {s s' : Store} {files : List (Path × List UInt8)} (saves : Saves s files s')
    (begins : ∀ f ∈ files, s.Begins f.1) :
    ∃ locs, Grows locs s s' ∧ (∀ f ∈ files, ∃ loc, s'.locate f.1 = .ok (.present loc)) ∧
      ∀ loc ∈ locs, ∃ f ∈ files, s'.locate f.1 = .ok (.present loc) := by
  induction saves with
  | nil s => exact ⟨[], .refl s, by simp, by simp⟩
  | cons saved rest ih =>
    obtain ⟨start, begins⟩ := List.forall_mem_cons.mp begins
    obtain ⟨loc, first, -, found, -⟩ := save_spec start saved
    obtain ⟨locs, later, each, places⟩ := ih fun f mem => first.begins (begins f mem)
    have found := later.locate found trivial
    refine ⟨loc :: locs, first.trans later, List.forall_mem_cons.mpr ⟨⟨_, found⟩, each⟩, ?_⟩
    refine List.forall_mem_cons.mpr ⟨⟨_, List.mem_cons_self, found⟩, fun loc mem => ?_⟩
    obtain ⟨f, mem, found⟩ := places loc mem
    exact ⟨f, List.mem_cons_of_mem _ mem, found⟩

/-- A file has its content in the end, unless a later one was saved to its place. -/
theorem Saves.readBytes {s s' : Store} {before after : List (Path × List UInt8)} {p : Path} {content : List UInt8}
    (saves : Saves s (before ++ (p, content) :: after) s')
    (begins : ∀ f ∈ before ++ (p, content) :: after, s.Begins f.1) (last : ∀ f ∈ after, s'.locate f.1 ≠ s'.locate p) :
    s'.readBytes p = .ok content := by
  induction before generalizing s with
  | nil =>
    cases saves with
    | cons saved rest =>
      obtain ⟨start, begins⟩ := List.forall_mem_cons.mp begins
      obtain ⟨loc, first, named, found, there, -⟩ := save_spec start saved
      obtain ⟨locs, later, -, places⟩ := rest.grows fun f mem => first.begins (begins f mem)
      have found := later.locate found trivial
      refine readBytes_eq named found ((later.root.files loc (fun mem => ?_) content).mpr there)
      obtain ⟨f, mem, found'⟩ := places loc mem
      exact last f mem (found'.trans found.symm)
  | cons f before ih =>
    cases saves with
    | cons saved rest =>
      obtain ⟨start, begins⟩ := List.forall_mem_cons.mp begins
      obtain ⟨loc, first, -⟩ := save_spec start saved
      exact ih rest fun f mem => first.begins (begins f mem)

end Store

end EntityAtlas
