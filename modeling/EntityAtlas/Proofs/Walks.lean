import EntityAtlas.Proofs.Additions
import Mathlib.Data.String.Basic

/-!
# What a walk finds

A walk below a directory is told by the tree alone. It meets no fault just when no link below the directory is blocked,
and then it lists the files with the ending, links to files among them, in the order of their rows of names. So two
walks that find the same files find them in the same order.
-/

namespace EntityAtlas

/-- From an entry that is no directory, names lead no further. -/
theorem Entry.eq_of_at?_leaf {e c : Entry} (leaf : ∀ es, e ≠ .dir es) {names : List String}
    (there : e.at? names = some c) : names = [] ∧ c = e := by
  cases names with
  | nil => exact ⟨rfl, (Option.some.inj there).symm⟩
  | cons name names =>
    cases e with
    | dir es => exact absurd rfl (leaf es)
    | file => cases there
    | link => cases there

namespace Store

/-! ## One walk after another -/

namespace Listing

theorem fault_concat {walks : List Listing} : (concat walks).fault = none ↔ ∀ w ∈ walks, w.fault = none := by
  induction walks with
  | nil => simp [concat, empty]
  | cons walk walks ih =>
    rw [List.forall_mem_cons, ← ih]
    change (walk.append (concat walks)).fault = none ↔ _
    unfold append
    split
    · rename_i f ended
      simp [ended]
    · rename_i ended
      simp [ended]

theorem exists_of_mem_concat {walks : List Listing} {f : Path} (mem : f ∈ (concat walks).files) :
    ∃ w ∈ walks, f ∈ w.files := by
  induction walks with
  | nil => cases mem
  | cons walk walks ih =>
    change f ∈ (walk.append (concat walks)).files at mem
    unfold append at mem
    split at mem
    · exact ⟨walk, List.mem_cons_self, mem⟩
    · rcases List.mem_append.mp mem with mem | mem
      · exact ⟨walk, List.mem_cons_self, mem⟩
      · obtain ⟨w, among, mem⟩ := ih mem
        exact ⟨w, List.mem_cons_of_mem _ among, mem⟩

theorem files_concat {walks : List Listing} (clear : ∀ w ∈ walks, w.fault = none) :
    (concat walks).files = walks.flatMap (·.files) := by
  induction walks with
  | nil => rfl
  | cons walk walks ih =>
    obtain ⟨first, clear⟩ := List.forall_mem_cons.mp clear
    rw [List.flatMap_cons, ← ih clear]
    change (walk.append (concat walks)).files = _
    rw [append, first]

end Listing

/-! ## What is to be found -/

variable (s : Store) (ending : String)

/-- Names that lead from an entry at a path to a file with the ending, or to a link to a file. -/
def IsSource (p : Path) (e : Entry) (names : List String) : Prop :=
  Text.endsWith ((p.below names).parts.getLastD "") ending = true ∧
    ((∃ content, e.at? names = some (.file content)) ∨
      (∃ target, e.at? names = some (.link target)) ∧ ∃ content, s.entry? (p.below names) = .ok (some (.file content)))

/-- No link at or below an entry is blocked but by a place that is not there. -/
def IsClear (p : Path) (e : Entry) : Prop :=
  ∀ names target, e.at? names = some (.link target) → ∀ b, s.entry? (p.below names) = .error b → b = .missing

/-- A walk from an entry at a path finds what is to be found there, and only some of it if a link is in the way. -/
structure Covers (p : Path) (e : Entry) (l : Listing) : Prop where
  fault : l.fault = none ↔ s.IsClear p e
  files : l.fault = none → ∃ rows : List (List String), rows.Pairwise (· < ·) ∧ l.files = rows.map p.below ∧
    ∀ names, names ∈ rows ↔ s.IsSource ending p e names
  sub : ∀ f ∈ l.files, ∃ names, f = p.below names ∧ s.IsSource ending p e names

variable {s ending}

theorem below_cons (p : Path) (name : String) (names : List String) :
    p.below (name :: names) = (p.below [name]).below names :=
  Path.below_append p [name] names

theorem isSource_cons {p : Path} {es : List (String × Entry)} {name : String} {e : Entry}
    (child : es.lookup name = some e) (names : List String) :
    s.IsSource ending p (.dir es) (name :: names) ↔ s.IsSource ending (p.below [name]) e names := by
  have inside : (Entry.dir es).at? (name :: names) = e.at? names := by
    rw [Entry.at?, Entry.child?, Entry.entries, child]
    rfl
  rw [IsSource, IsSource, inside, below_cons]

theorem IsSource.exists_cons {p : Path} {es : List (String × Entry)} {names : List String}
    (is : s.IsSource ending p (.dir es) names) : ∃ name rest e, names = name :: rest ∧ es.lookup name = some e := by
  cases names with
  | nil => simp [IsSource, Entry.at?] at is
  | cons name rest =>
    cases child : es.lookup name with
    | none => simp [IsSource, Entry.at?, Entry.child?, Entry.entries, child] at is
    | some e => exact ⟨name, rest, e, rfl, child⟩

theorem IsSource.exists_at? {p : Path} {e : Entry} {names : List String} (is : s.IsSource ending p e names) :
    ∃ c, e.at? names = some c := by
  rcases is.2 with ⟨content, there⟩ | ⟨⟨target, there⟩, -⟩
  · exact ⟨_, there⟩
  · exact ⟨_, there⟩

theorem IsSource.areNames {p : Path} {e : Entry} {names : List String} (is : s.IsSource ending p e names)
    (sound : e.Sound) : ∀ name ∈ names, Entry.IsName name := by
  obtain ⟨c, there⟩ := is.exists_at?
  exact sound.isName_of_at? there

theorem isClear_dir {p : Path} {es : List (String × Entry)} :
    s.IsClear p (.dir es) ↔ ∀ name e, es.lookup name = some e → s.IsClear (p.below [name]) e := by
  constructor
  · intro clear name e child names target there b blocked
    refine clear (name :: names) target ?_ b ((below_cons p name names).symm ▸ blocked)
    rw [Entry.at?, Entry.child?, Entry.entries, child]
    exact there
  · intro each names target there b blocked
    cases names with
    | nil => cases there
    | cons name names =>
      obtain ⟨e, child, there⟩ := Option.bind_eq_some_iff.mp there
      exact each name e child names target there b (below_cons p name names ▸ blocked)

mutual

/-- Whether no link of a tree at a path is blocked but by a place that is not there. -/
def clears (s : Store) (p : Path) : Entry → Bool
  | .file _ => true
  | .link _ => match s.entry? p with
    | .error b => b == .missing
    | .ok _ => true
  | .dir es => clearsEach s p es

/-- Whether no link below the entries of a directory at a path is. -/
def clearsEach (s : Store) (p : Path) : List (String × Entry) → Bool
  | [] => true
  | (name, e) :: es => clears s (p.below [name]) e && clearsEach s p es

end

mutual

theorem isClear_of_clears : ∀ {e : Entry} {p : Path}, s.clears p e = true → s.IsClear p e
  | .file content, p, _ => by
    intro names target there
    have leaf : ∀ es, Entry.file content ≠ .dir es := nofun
    cases (Entry.eq_of_at?_leaf leaf there).2
  | .link target, p, clear => by
    intro names target' there b blocked
    have leaf : ∀ es, Entry.link target ≠ .dir es := nofun
    obtain ⟨rfl, -⟩ := Entry.eq_of_at?_leaf leaf there
    rw [Path.below_nil] at blocked
    rw [clears, blocked] at clear
    exact beq_iff_eq.mp clear
  | .dir es, p, clear => isClear_dir.mpr fun name e child => isClear_of_clearsEach clear (name, e) (mem_of_lookup child)

theorem isClear_of_clearsEach : ∀ {es : List (String × Entry)} {p : Path}, s.clearsEach p es = true →
    ∀ q ∈ es, s.IsClear (p.below [q.1]) q.2
  | [], p, _ => by simp
  | (name, e) :: es, p, clear => by
    rw [clearsEach, Bool.and_eq_true] at clear
    exact List.forall_mem_cons.mpr ⟨isClear_of_clears clear.1, isClear_of_clearsEach clear.2⟩

end

/-! ## What is found -/

/-- Rows of names under names in order are in order. -/
theorem exists_rows {p : Path} {P : String → List String → Prop} {walks : List (String × Listing)}
    (ordered : (walks.map Prod.fst).Pairwise (· < ·))
    (each : ∀ w ∈ walks, ∃ rows : List (List String), rows.Pairwise (· < ·) ∧
      w.2.files = rows.map (p.below [w.1]).below ∧ ∀ names, names ∈ rows ↔ P w.1 names) :
    ∃ rows : List (List String), rows.Pairwise (· < ·) ∧ walks.flatMap (·.2.files) = rows.map p.below ∧
      ∀ names, names ∈ rows ↔ ∃ w ∈ walks, ∃ rest, names = w.1 :: rest ∧ P w.1 rest := by
  induction walks with
  | nil => exact ⟨[], by simp⟩
  | cons w walks ih =>
    obtain ⟨first, ordered⟩ := List.pairwise_cons.mp ordered
    obtain ⟨⟨rows, sorted, files, among⟩, each⟩ := List.forall_mem_cons.mp each
    obtain ⟨rows', sorted', files', among'⟩ := ih ordered each
    refine ⟨rows.map (w.1 :: ·) ++ rows', ?_, ?_, fun names => ?_⟩
    · refine List.pairwise_append.mpr ⟨?_, sorted', fun names mem names' mem' => ?_⟩
      · exact List.pairwise_map.mpr (sorted.imp fun before => List.cons_lt_cons_iff.mpr (.inr ⟨rfl, before⟩))
      · obtain ⟨rest, -, rfl⟩ := List.mem_map.mp mem
        obtain ⟨w', later, rest', rfl, -⟩ := (among' names').mp mem'
        exact List.cons_lt_cons_iff.mpr (.inl (first _ (List.mem_map_of_mem later)))
    · rw [List.flatMap_cons, files, files', List.map_append, List.map_map]
      refine congrArg (· ++ _) (List.map_congr_left fun names _ => ?_)
      exact (below_cons p w.1 names).symm
    · simp only [List.mem_append, List.mem_map, among, among', List.mem_cons, exists_eq_or_imp]
      exact or_congr (exists_congr fun rest => ⟨fun ⟨is, same⟩ => ⟨same.symm, is⟩, fun ⟨same, is⟩ => ⟨is, same.symm⟩⟩)
        .rfl

/-- Walks below the entries of a directory, in the order of their names, make up the walk below the directory. -/
theorem Covers.dir {p : Path} {es : List (String × Entry)} {walks : List (String × Listing)}
    (ordered : (walks.map Prod.fst).Pairwise (· < ·))
    (all : ∀ name e, es.lookup name = some e → ∃ w ∈ walks, w.1 = name)
    (each : ∀ w ∈ walks, ∃ e, es.lookup w.1 = some e ∧ s.Covers ending (p.below [w.1]) e w.2) :
    s.Covers ending p (.dir es) (.concat (walks.map (·.2))) := by
  constructor
  · rw [Listing.fault_concat, List.forall_mem_map, isClear_dir]
    constructor
    · intro clear name e child
      obtain ⟨w, mem, rfl⟩ := all name e child
      obtain ⟨e', child', covers⟩ := each w mem
      obtain rfl := Option.some.inj (child.symm.trans child')
      exact covers.fault.mp (clear w mem)
    · intro clear w mem
      obtain ⟨e, child, covers⟩ := each w mem
      exact covers.fault.mpr (clear _ e child)
  · intro ended
    have clear : ∀ w ∈ walks, w.2.fault = none := by
      simpa only [Listing.fault_concat, List.forall_mem_map] using ended
    obtain ⟨rows, sorted, files, among⟩ := exists_rows (P := fun name => s.IsSource ending p (.dir es) ∘ (name :: ·))
      (p := p) ordered fun w mem => by
        obtain ⟨e, child, covers⟩ := each w mem
        obtain ⟨rows, sorted, files, among⟩ := covers.files (clear w mem)
        exact ⟨rows, sorted, files, fun names => (among names).trans (isSource_cons child names).symm⟩
    refine ⟨rows, sorted, ?_, fun names => (among names).trans ⟨?_, fun is => ?_⟩⟩
    · rw [Listing.files_concat (List.forall_mem_map.mpr clear), List.flatMap_map, files]
    · rintro ⟨w, -, rest, rfl, is⟩
      exact is
    · obtain ⟨name, rest, e, rfl, child⟩ := is.exists_cons
      obtain ⟨w, mem, rfl⟩ := all name e child
      exact ⟨w, mem, rest, rfl, is⟩
  · intro f mem
    obtain ⟨l, listed, mem⟩ := Listing.exists_of_mem_concat mem
    obtain ⟨w, among, rfl⟩ := List.mem_map.mp listed
    obtain ⟨e, child, covers⟩ := each w among
    obtain ⟨names, rfl, is⟩ := covers.sub f mem
    exact ⟨w.1 :: names, (below_cons p w.1 names).symm, (isSource_cons child names).mpr is⟩

/-- Entries of distinct names stand in the strict order of their names. -/
theorem pairwise_inNameOrder {α : Type} {entries : List (String × α)} (distinct : (entries.map Prod.fst).Nodup) :
    ((inNameOrder entries).map Prod.fst).Pairwise (· < ·) := by
  have sorted : (inNameOrder entries).Pairwise fun a b => a.1 ≤ b.1 := by
    simpa [inNameOrder] using @List.pairwise_mergeSort (String × α) (fun a b => decide (a.1 ≤ b.1))
      (fun a b c => by simpa using le_trans) (fun a b => by simpa using le_total a.1 b.1) entries
  have names : ((inNameOrder entries).map Prod.fst).Nodup :=
    ((List.mergeSort_perm entries _).map Prod.fst).nodup_iff.mpr distinct
  exact ((List.pairwise_map.mpr sorted).and names).imp fun ⟨le, ne⟩ => lt_of_le_of_ne le ne

section Leaf

variable {p : Path} {e : Entry} (leaf : ∀ es, e ≠ .dir es)

include leaf

theorem IsSource.eq_nil {names : List String} (is : s.IsSource ending p e names) : names = [] := by
  rcases is.2 with ⟨content, there⟩ | ⟨⟨target, there⟩, -⟩
  · exact (Entry.eq_of_at?_leaf leaf there).1
  · exact (Entry.eq_of_at?_leaf leaf there).1

theorem covers_found (clear : s.IsClear p e) (is : s.IsSource ending p e []) : s.Covers ending p e ⟨[p], none⟩ := by
  refine ⟨⟨fun _ => clear, fun _ => rfl⟩, fun _ => ⟨[[]], List.pairwise_singleton _ _, ?_, fun names => ?_⟩, ?_⟩
  · rw [List.map_singleton, Path.below_nil]
  · rw [List.mem_singleton]
    constructor
    · rintro rfl
      exact is
    · exact fun is => is.eq_nil leaf
  · rintro f mem
    exact ⟨[], (List.mem_singleton.mp mem).trans (Path.below_nil p).symm, is⟩

theorem covers_empty (clear : s.IsClear p e) (other : ¬ s.IsSource ending p e []) : s.Covers ending p e .empty := by
  refine ⟨⟨fun _ => clear, fun _ => rfl⟩, fun _ => ⟨[], .nil, rfl, fun names => ?_⟩, nofun⟩
  refine ⟨fun mem => absurd mem List.not_mem_nil, fun is => ?_⟩
  obtain rfl := is.eq_nil leaf
  exact absurd is other

end Leaf

/-- A file under a name, or a link to one, is found if the name has the ending. -/
theorem candidate_covers (dir : Path) {name : String} (isName : Entry.IsName name) {e : Entry}
    (counts : (∃ content, e = .file content) ∨
      (∃ target, e = .link target) ∧ ∃ content, s.entry? (dir.below [name]) = .ok (some (.file content))) :
    s.Covers ending (dir.below [name]) e (candidate ending dir name) := by
  have leaf : ∀ es, e ≠ .dir es := by
    rintro es rfl
    simp at counts
  have source : s.IsSource ending (dir.below [name]) e [] ↔ Text.endsWith name ending = true := by
    have last : (dir.below [name]).parts.getLastD "" = name := by simp [parts_below_singleton dir isName]
    rw [IsSource, Path.below_nil, last]
    exact and_iff_left (by simpa [Entry.at?] using counts)
  have clear : s.IsClear (dir.below [name]) e := by
    intro names target there b blocked
    obtain ⟨rfl, rfl⟩ := Entry.eq_of_at?_leaf leaf there
    rcases counts with ⟨content, isFile⟩ | ⟨-, content, found⟩
    · cases isFile
    · rw [Path.below_nil, found] at blocked
      cases blocked
  unfold candidate
  split
  · rename_i ends
    rw [ofString_entryText dir isName]
    exact covers_found leaf clear (source.mpr ends)
  · rename_i other
    exact covers_empty leaf clear fun is => other (source.mp is)

/-- A link is found like a file if it leads to one; it ends the walk if it is blocked. -/
theorem linked_covers (dir : Path) {name : String} (isName : Entry.IsName name) (target : String) :
    s.Covers ending (dir.below [name]) (.link target) (s.linked ending dir name) := by
  have leaf : ∀ es, Entry.link target ≠ .dir es := nofun
  have clear_iff : s.IsClear (dir.below [name]) (.link target) ↔
      ∀ b, s.entry? (dir.below [name]) = .error b → b = .missing := by
    constructor
    · intro clear b blocked
      exact clear [] target rfl b (by rwa [Path.below_nil])
    · intro clear names target' there b blocked
      obtain ⟨rfl, -⟩ := Entry.eq_of_at?_leaf leaf there
      rw [Path.below_nil] at blocked
      exact clear b blocked
  -- a link that leads to no file is not listed
  have unlisted (clear : s.IsClear (dir.below [name]) (.link target))
      (other : ∀ content, s.entry? (dir.below [name]) ≠ .ok (some (.file content))) :
      s.Covers ending (dir.below [name]) (.link target) .empty := by
    refine covers_empty leaf clear ?_
    rintro ⟨-, ⟨content, there⟩ | ⟨-, content, found⟩⟩
    · cases there
    · rw [Path.below_nil] at found
      exact other content found
  rw [linked, isRegularFile, ofString_entryText dir isName]
  cases found : s.entry? (dir.below [name]) with
  | error b =>
    by_cases missing : b = .missing
    · subst missing
      refine unlisted (clear_iff.mpr fun b blocked => ?_) fun content => by simp [found]
      exact (Except.error.inj (found.symm.trans blocked)).symm
    · have blocked : ¬ s.IsClear (dir.below [name]) (.link target) :=
        fun clear => missing (clear_iff.mp clear b found)
      cases b with
      | missing => exact absurd rfl missing
      | _ => exact ⟨⟨nofun, fun clear => absurd clear blocked⟩, nofun, nofun⟩
  | ok e =>
    have clear : s.IsClear (dir.below [name]) (.link target) :=
      clear_iff.mpr fun b blocked => by cases found.symm.trans blocked
    cases e with
    | none => exact unlisted clear fun content => by simp [found]
    | some e =>
      cases e with
      | file content => exact candidate_covers dir isName (.inr ⟨⟨target, rfl⟩, content, found⟩)
      | link => exact unlisted clear fun content => by simp [found]
      | dir => exact unlisted clear fun content => by simp [found]

/-- The walks below the entries of a directory, put in the order of their names. -/
theorem concat_covers {p : Path} {es : List (String × Entry)} {walks : List (String × Listing)}
    (distinct : (es.map Prod.fst).Nodup) (names : walks.map Prod.fst = es.map Prod.fst)
    (each : ∀ w ∈ walks, ∃ e, (w.1, e) ∈ es ∧ s.Covers ending (p.below [w.1]) e w.2) :
    s.Covers ending p (.dir es) (.concat ((inNameOrder walks).map (·.2))) := by
  have perm : (inNameOrder walks).Perm walks := List.mergeSort_perm walks _
  refine .dir (pairwise_inNameOrder (names ▸ distinct)) (fun name e child => ?_) fun w mem => ?_
  · have among : name ∈ walks.map Prod.fst := names ▸ List.mem_map_of_mem (mem_of_lookup child)
    obtain ⟨w, mem, is⟩ := List.mem_map.mp among
    exact ⟨w, perm.mem_iff.mpr mem, is⟩
  · obtain ⟨e, among, covers⟩ := each w (perm.mem_iff.mp mem)
    exact ⟨e, lookup_of_mem distinct among, covers⟩

mutual

/-- The walk below an entry finds what is to be found there. -/
theorem walkEntry_covers : ∀ (e : Entry), e.Sound → ∀ (dir : Path) (name : String), Entry.IsName name →
    s.Covers ending (dir.below [name]) e (s.walkEntry ending dir name e)
  | .file content, _, dir, name, isName => candidate_covers dir isName (.inl ⟨content, rfl⟩)
  | .link target, _, dir, name, isName => linked_covers dir isName target
  | .dir es, sound, dir, name, isName => by
    cases sound with
    | dir distinct names inside =>
      rw [walkEntry, ofString_entryText dir isName]
      exact concat_covers distinct (names_walkEach ..) (walkEach_covers es names inside (dir.below [name]))

/-- So does each of the walks below the entries of a directory. -/
theorem walkEach_covers : ∀ (es : List (String × Entry)), (∀ p ∈ es, Entry.IsName p.1) → (∀ p ∈ es, p.2.Sound) →
    ∀ dir : Path, ∀ w ∈ s.walkEach ending dir es,
      ∃ e, (w.1, e) ∈ es ∧ s.Covers ending (dir.below [w.1]) e w.2
  | [], _, _, dir => by simp [walkEach]
  | (name, e) :: es, names, inside, dir => by
    intro w mem
    rw [walkEach] at mem
    rcases List.mem_cons.mp mem with rfl | mem
    · exact ⟨e, List.mem_cons_self,
        walkEntry_covers e (inside _ List.mem_cons_self) dir name (names _ List.mem_cons_self)⟩
    · obtain ⟨e', among, covers⟩ := walkEach_covers es (fun p mem => names p (List.mem_cons_of_mem _ mem))
        (fun p mem => inside p (List.mem_cons_of_mem _ mem)) dir w mem
      exact ⟨e', List.mem_cons_of_mem _ among, covers⟩

end

/-! ## Whole walks -/

theorem entry?_eq_ok_some {p : Path} {e : Entry} :
    s.entry? p = .ok (some e) ↔ ∃ here, s.locate p = .ok (.present here) ∧ s.root.at? here = some e := by
  unfold entry?
  cases s.locate p with
  | error b => simp [Except.map]
  | ok place => cases place <;> simp [Except.map]

theorem exists_of_readBytes {p : Path} {content : List UInt8} (reads : s.readBytes p = .ok content) :
    hasNul p = false ∧ ∃ loc, s.locate p = .ok (.present loc) ∧ s.root.at? loc = some (.file content) := by
  unfold readBytes at reads
  split at reads
  · cases reads
  rename_i named
  split at reads
  · cases reads
  · cases reads
  · rename_i found
    obtain rfl := Except.ok.inj reads
    exact ⟨by simpa using named, entry?_eq_ok_some.mp found⟩
  · cases reads

theorem isDirectory_eq_true_iff {dir : Path} :
    s.isDirectory dir = .ok true ↔ hasNul dir = false ∧ ∃ es, s.entry? dir = .ok (some (.dir es)) := by
  constructor
  · intro is
    unfold isDirectory at is
    split at is
    · cases is
    rename_i nulFree
    refine ⟨by simpa using nulFree, ?_⟩
    cases found : s.entry? dir with
    | error b => cases b <;> simp [found] at is
    | ok e =>
      rw [found] at is
      cases e with
      | none => cases is
      | some e =>
        cases e with
        | dir es => exact ⟨es, rfl⟩
        | file content => cases is
        | link target => cases is
  · rintro ⟨nulFree, es, found⟩
    rw [isDirectory, if_neg (by simp [nulFree]), found]
    rfl

/-- The walk below a directory finds what is to be found there. -/
theorem findFiles_covers (sound : s.Sound) (ending : String) {dir : Path} {es : List (String × Entry)}
    (nulFree : hasNul dir = false) (found : s.entry? dir = .ok (some (.dir es))) :
    s.Covers ending dir (.dir es) (s.findFiles ending dir) := by
  obtain ⟨here, -, there⟩ := entry?_eq_ok_some.mp found
  rw [findFiles, isDirectory_eq_true_iff.mpr ⟨nulFree, es, found⟩, found]
  cases sound.tree.at? there with
  | dir distinct names inside => exact concat_covers distinct (names_walkEach ..) (walkEach_covers es names inside dir)

/-- A walk that meets no fault begins at a directory. -/
theorem exists_of_fault_findFiles {ending : String} {dir : Path} (clear : (s.findFiles ending dir).fault = none) :
    hasNul dir = false ∧ ∃ es, s.entry? dir = .ok (some (.dir es)) := by
  unfold findFiles at clear
  split at clear
  · cases clear
  · cases clear
  · rename_i is
    exact isDirectory_eq_true_iff.mp is

/-- What a walk has listed, also before a fault, is a source below a directory. -/
theorem exists_of_mem_findFiles (sound : s.Sound) {ending : String} {dir f : Path}
    (mem : f ∈ (s.findFiles ending dir).files) :
    ∃ here es names, s.locate dir = .ok (.present here) ∧ s.root.at? here = some (.dir es) ∧
      f = dir.below names ∧ s.IsSource ending dir (.dir es) names := by
  cases is : s.isDirectory dir with
  | error fault => simp [findFiles, is] at mem
  | ok b =>
    cases b with
    | false => simp [findFiles, is] at mem
    | true =>
      obtain ⟨nulFree, es, found⟩ := isDirectory_eq_true_iff.mp is
      obtain ⟨here, leads, isDir⟩ := entry?_eq_ok_some.mp found
      obtain ⟨names, below, source⟩ := (findFiles_covers sound ending nulFree found).sub f mem
      exact ⟨here, es, names, leads, isDir, below, source⟩

/-- The files of a walk that meets no fault, by the names below its directory. -/
theorem exists_rows_of_findFiles (sound : s.Sound) {ending : String} {dir : Path}
    (clear : (s.findFiles ending dir).fault = none) :
    hasNul dir = false ∧ ∃ es, s.entry? dir = .ok (some (.dir es)) ∧ s.IsClear dir (.dir es) ∧
      ∃ rows : List (List String), rows.Pairwise (· < ·) ∧
        (s.findFiles ending dir).files = rows.map dir.below ∧
        ∀ names, names ∈ rows ↔ s.IsSource ending dir (.dir es) names := by
  obtain ⟨nulFree, es, found⟩ := exists_of_fault_findFiles clear
  have covers := findFiles_covers sound ending nulFree found
  exact ⟨nulFree, es, found, covers.fault.mp clear, covers.files clear⟩

end Store

end EntityAtlas
