import EntityAtlas.Proofs.Walks
import EntityAtlas.Proofs.Ways
import Mathlib.Data.List.Sort

/-!
# Undisturbed walks

When something is new in a tree, walks below a directory find what they found before, and perhaps what is new, as long
as no link below the directory comes by one of the new places.
-/

namespace EntityAtlas

namespace Entry

theorem Sound.insertAt {new : Entry} (fresh : new.Sound) {loc : List String} (isNames : ∀ n ∈ loc, IsName n) {e : Entry}
    (sound : e.Sound) : (insertAt new loc e).Sound := by
  induction loc generalizing e with
  | nil => exact fresh
  | cons name loc ih =>
    obtain ⟨isName, isNames⟩ := List.forall_mem_cons.mp isNames
    have entries : (e.entries.map Prod.fst).Nodup ∧ (∀ p ∈ e.entries, IsName p.1) ∧ ∀ p ∈ e.entries, p.2.Sound := by
      cases sound with
      | file => simp [Entry.entries]
      | link => simp [Entry.entries]
      | dir distinct names inside => exact ⟨distinct, names, inside⟩
    refine .dir (nodup_put entries.1) (fun p mem => ?_) fun p mem => ?_
    · rcases mem_put mem with rfl | mem
      · exact isName
      · exact entries.2.1 p mem
    · rcases mem_put mem with rfl | mem
      · cases child : e.child? name with
        | none => exact ih isNames (.dir (by simp) (by simp) (by simp))
        | some c => exact ih isNames (sound.child? child)
      · exact entries.2.2 p mem

/-- What a directory holds, it holds in the whole tree. -/
theorem at?_of_at? {e c : Entry} {l : List String} (there : e.at? l = some c) (names : List String) :
    c.at? names = e.at? (l ++ names) := by
  rw [at?_append, there]
  rfl

/-- A tree that differs from another one, file contents apart, only in what it has at the places `fresh`, where the
other one has nothing. -/
structure SameBut (fresh : List String → Prop) (e e' : Entry) : Prop where
  same : ∀ q, ¬ fresh q → SameKind (e.at? q) (e'.at? q)
  free : ∀ q, fresh q → e.at? q = none

/-- The same, with no link among what is new. -/
structure AddsOnly (fresh : List String → Prop) (e e' : Entry) : Prop extends SameBut fresh e e' where
  linkless : ∀ q target, fresh q → e'.at? q ≠ some (.link target)

variable {fresh : List String → Prop} {e e' : Entry}

theorem SameBut.keeps (adds : SameBut fresh e e') : Keeps e e' := by
  intro l c there
  have same := adds.same l fun isFresh => by simp [adds.free l isFresh] at there
  rw [there] at same
  generalize e'.at? l = other at same ⊢
  cases same with
  | some alike => exact ⟨_, rfl, alike⟩

theorem AddsOnly.at?_link (adds : AddsOnly fresh e e') {q : List String} {target : String} :
    e'.at? q = some (.link target) ↔ e.at? q = some (.link target) := by
  by_cases isFresh : fresh q
  · simp [adds.free q isFresh, adds.linkless q target isFresh]
  · have same := adds.same q isFresh
    generalize e.at? q = c, e'.at? q = c' at same
    cases same with
    | none => rfl
    | some alike => cases alike <;> simp

theorem SameKind.file_iff {c c' : Option Entry} (same : SameKind c c') :
    (∃ content, c' = some (.file content)) ↔ ∃ content, c = some (.file content) := by
  cases same with
  | none => simp
  | some alike => cases alike <;> simp

end Entry

namespace Store

/-- No link below the directory at `here` comes by one of the places `fresh`. -/
def Avoids (s : Store) (here : List String) (fresh : List String → Prop) : Prop :=
  ∀ names name target, s.root.at? (here ++ names ++ [name]) = some (.link target) →
    ∀ place, Visits s.root (maxLinks + 1) [name] (here ++ names) place → ¬ fresh place

/-- The links below a directory at `here` lead to a file in one store where they do in the other, and they are blocked
alike, except that what was not there may be there now and be no file. -/
def LinksAgree (s s' : Store) (dir : Path) (here : List String) : Prop :=
  ∀ names target, s.root.at? (here ++ names) = some (.link target) →
    (∀ b, b ≠ .missing → (s'.entry? (dir.below names) = .error b ↔ s.entry? (dir.below names) = .error b)) ∧
      ((∃ content, s'.entry? (dir.below names) = .ok (some (.file content))) ↔
        ∃ content, s.entry? (dir.below names) = .ok (some (.file content)))

section Changed

variable {s s' : Store} {fresh : List String → Prop} {ending : String} {dir : Path} {here : List String}
  {es es' : List (String × Entry)}

theorem Sound.rooted (sound : s.Sound) : ∃ es, s.root.at? [] = some (.dir es) := by
  have isDir := sound.isDir
  cases tree : s.root with
  | dir es => exact ⟨es, rfl⟩
  | file content => cases tree ▸ isDir
  | link target => cases tree ▸ isDir

theorem ne_nil_of_link (isDir : s.root.at? here = some (.dir es)) {names : List String} {target : String}
    (there : s.root.at? (here ++ names) = some (.link target)) : names ≠ [] := by
  rintro rfl
  rw [List.append_nil, isDir] at there
  cases there

theorem locate_below_eq (sound : s.Sound) (sound' : s'.Sound) (cwd : s'.cwd = s.cwd)
    (adds : Entry.SameBut fresh s.root s'.root) (found : s.locate dir = .ok (.present here))
    (isDir : s.root.at? here = some (.dir es)) (avoids : s.Avoids here fresh) {names : List String}
    (nonempty : names ≠ []) {e : Entry} (there : s.root.at? (here ++ names) = some e) :
    s'.locate (dir.below names) = s.locate (dir.below names) := by
  obtain ⟨names, name, rfl⟩ := (List.eq_nil_or_concat' names).resolve_left nonempty
  rw [← List.append_assoc] at there
  obtain ⟨left, le, at_end⟩ := exists_locate_below found isDir
  obtain ⟨c, there', -⟩ := adds.keeps _ _ there
  rw [at_end s sound.tree rfl (.refl _) names name e there, at_end s' sound'.tree cwd adds.keeps names name c there']
  congr 1
  refine (locateFrom_congr fun place visits => adds.same place fun isFresh => ?_).symm
  have missing := adds.free place isFresh
  -- the way asks for the entry itself, which was there, and, if it is a link, goes on with what is avoided
  cases visits with
  | here plain => cases there.symm.trans missing
  | up onward => cases onward
  | stay onward => cases onward
  | down _ _ onward => cases onward
  | link plain isLink onward =>
    exact avoids names name _ isLink place (.mono (.link plain isLink onward) (Nat.succ_le_succ le)) isFresh

/-- Below a directory, a path of an entry leads to an entry, if to a place that is taken at all. -/
theorem exists_at?_of_locate_below (sound : s.Sound) (found : s.locate dir = .ok (.present here))
    (isDir : s.root.at? here = some (.dir es)) {names : List String} (nonempty : names ≠ []) {e : Entry}
    (there : s.root.at? (here ++ names) = some e) {loc : List String}
    (located : s.locate (dir.below names) = .ok (.present loc)) : ∃ c, s.root.at? loc = some c := by
  obtain ⟨names, name, rfl⟩ := (List.eq_nil_or_concat' names).resolve_left nonempty
  rw [← List.append_assoc] at there
  obtain ⟨left, -, at_end⟩ := exists_locate_below found isDir
  rw [at_end s sound.tree rfl (.refl _) names name e there] at located
  split at located
  · exact (locateFrom_eq_ok_iff.mp located).exists_at? sound.rooted (Entry.exists_dir there)
  · cases located

/-- Links below a directory that do not come by what is new lead to what they led to. -/
theorem linksAgree_of_avoids (sound : s.Sound) (sound' : s'.Sound) (cwd : s'.cwd = s.cwd)
    (adds : Entry.AddsOnly fresh s.root s'.root) (found : s.locate dir = .ok (.present here))
    (isDir : s.root.at? here = some (.dir es)) (avoids : s.Avoids here fresh) : s.LinksAgree s' dir here := by
  intro names target there
  have nonempty := ne_nil_of_link isDir there
  have same := locate_below_eq sound sound' cwd adds.toSameBut found isDir avoids nonempty there
  simp only [same, entry?]
  cases located : s.locate (dir.below names) with
  | error b => simp [Except.map]
  | ok place =>
    cases place with
    | absent => simp [Except.map]
    | present loc =>
      obtain ⟨c, there⟩ := exists_at?_of_locate_below sound found isDir nonempty there located
      have old : ¬ fresh loc := fun isFresh => by cases there.symm.trans (adds.free loc isFresh)
      simpa [Except.map] using (adds.same loc old).file_iff

/-- A directory is found where it was. -/
theorem locate_dir (cwd : s'.cwd = s.cwd) (keeps : Entry.Keeps s.root s'.root)
    (found : s.locate dir = .ok (.present here)) (isDir : s.root.at? here = some (.dir es)) :
    s'.locate dir = .ok (.present here) ∧ ∃ es', s'.root.at? here = some (.dir es') := by
  obtain ⟨left, -, onward⟩ := exists_locateFrom_append (locateFrom_eq_ok_iff.mp found) isDir
  obtain ⟨c, there, alike⟩ := keeps _ _ isDir
  have start : s'.start dir = s.start dir := by
    rw [start, start, cwd]
  have same := onward s'.root keeps []
  rw [List.append_nil, ← start] at same
  refine ⟨same, ?_⟩
  cases alike with
  | dir _ es' => exact ⟨es', there⟩

section Links

variable (adds : Entry.AddsOnly fresh s.root s'.root) (isDir : s.root.at? here = some (.dir es))
  (isDir' : s'.root.at? here = some (.dir es')) (agree : s.LinksAgree s' dir here)

include adds isDir isDir' agree

/-- Links that were not blocked are not blocked now, and conversely. -/
theorem isClear_iff : s'.IsClear dir (.dir es') ↔ s.IsClear dir (.dir es) := by
  refine forall_congr' fun names => forall_congr' fun target => ?_
  rw [Entry.at?_of_at? isDir, Entry.at?_of_at? isDir', adds.at?_link]
  refine imp_congr_right fun there => forall_congr' fun b => ?_
  by_cases missing : b = .missing
  · simp [missing]
  · exact imp_congr_left ((agree names target there).1 b missing)

/-- Where nothing is new, a walk finds what it found. -/
theorem isSource_iff {names : List String} (old : ¬ fresh (here ++ names)) :
    s'.IsSource ending dir (.dir es') names ↔ s.IsSource ending dir (.dir es) names := by
  rw [IsSource, IsSource, Entry.at?_of_at? isDir, Entry.at?_of_at? isDir', (adds.same _ old).file_iff]
  simp only [adds.at?_link]
  refine and_congr_right fun _ => or_congr_right (and_congr_right fun isLink => ?_)
  obtain ⟨target, there⟩ := isLink
  exact (agree names target there).2

end Links

/-- The walk below a directory meets a fault if it met one, and what it finds at old places it found before. -/
theorem findFiles_of_addsOnly [DecidablePred fresh] (sound : s.Sound) (sound' : s'.Sound) (cwd : s'.cwd = s.cwd)
    (adds : Entry.AddsOnly fresh s.root s'.root) (found : s.locate dir = .ok (.present here))
    (isDir : s.root.at? here = some (.dir es)) (agree : s.LinksAgree s' dir here) (ending : String)
    (nulFree : hasNul dir = false) :
    ((s'.findFiles ending dir).fault = none ↔ (s.findFiles ending dir).fault = none) ∧
      ((s.findFiles ending dir).fault = none → ∃ rows rows' : List (List String),
        (s.findFiles ending dir).files = rows.map dir.below ∧ (s'.findFiles ending dir).files = rows'.map dir.below ∧
        rows = rows'.filter (fun names => ¬ fresh (here ++ names)) ∧
        (∀ names ∈ rows, s.IsSource ending dir (.dir es) names) ∧
        ∃ es', s'.root.at? here = some (.dir es') ∧ ∀ names ∈ rows', s'.IsSource ending dir (.dir es') names) := by
  obtain ⟨found', es', isDir'⟩ := locate_dir cwd adds.keeps found isDir
  have covers := findFiles_covers sound ending nulFree (entry?_eq_ok_some.mpr ⟨here, found, isDir⟩)
  have covers' := findFiles_covers sound' ending nulFree (entry?_eq_ok_some.mpr ⟨here, found', isDir'⟩)
  have clear_iff : (s'.findFiles ending dir).fault = none ↔ (s.findFiles ending dir).fault = none := by
    rw [covers.fault, covers'.fault]
    exact isClear_iff adds isDir isDir' agree
  refine ⟨clear_iff, fun clear => ?_⟩
  obtain ⟨rows, sorted, files, among⟩ := covers.files clear
  obtain ⟨rows', sorted', files', among'⟩ := covers'.files (clear_iff.mpr clear)
  refine ⟨rows, rows', files, files', ?_, fun names => (among names).mp, es', isDir', fun names => (among' names).mp⟩
  -- rows in order are the same when they have the same members
  refine sorted.eq_of_mem_iff (sorted'.filter _) fun names => ?_
  rw [List.mem_filter, among, among', decide_eq_true_eq]
  constructor
  · intro is
    have old : ¬ fresh (here ++ names) := by
      intro isFresh
      have missing := adds.free _ isFresh
      rw [← Entry.at?_of_at? isDir] at missing
      simp [IsSource, missing] at is
    exact ⟨(isSource_iff adds isDir isDir' agree old).mpr is, old⟩
  · rintro ⟨is, old⟩
    exact (isSource_iff adds isDir isDir' agree old).mp is

end Changed

/-- A file is read as before if its path leads where it led, to the same content. -/
theorem readText_eq {s s' : Store} {p : Path} (located : s'.locate p = s.locate p)
    (agree : ∀ loc, s.locate p = .ok (.present loc) → Entry.SameKind (s.root.at? loc) (s'.root.at? loc) ∧
      ∀ content, s'.root.at? loc = some (.file content) ↔ s.root.at? loc = some (.file content)) :
    s'.readText p = s.readText p := by
  have bytes : s'.readBytes p = s.readBytes p := by
    rw [readBytes, readBytes, entry?, entry?, located]
    cases found : s.locate p with
    | error b => rfl
    | ok place =>
      cases place with
      | absent => rfl
      | present loc =>
        obtain ⟨same, content⟩ := agree loc found
        simp only [Except.map]
        generalize s.root.at? loc = e, s'.root.at? loc = e' at same content
        cases same with
        | none => rfl
        | some alike =>
          cases alike with
          | file old new =>
            obtain rfl : old = new := by simpa using (content new).mp rfl
            rfl
          | link => rfl
          | dir => rfl
  rw [readText, bytes]
  rfl

end Store

end EntityAtlas
