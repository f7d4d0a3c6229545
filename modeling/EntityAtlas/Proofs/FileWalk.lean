import EntityAtlas.Proofs.AlikeWalks

/-!
# The files that a walk yields

Below a directory in which no link is in the way, a walk yields the source files that are reached through directories
alone, each of them once, in the order of the names on the way to them. The order in which the entries of a directory
are listed has no part in it: a tree with the same entries in another order has the same kinds of entries at the same
places.
-/

namespace EntityAtlas

namespace Entry

theorem Alike.isDir_eq {e e' : Entry} (alike : Alike e e') : e.isDir = e'.isDir := by
  cases alike <;> rfl

/-- The same tree, but for the order in which its directories list their entries. -/
inductive Relisted : Entry → Entry → Prop where
  | file (content : List UInt8) : Relisted (.file content) (.file content)
  | link (target : String) : Relisted (.link target) (.link target)
  | dir {es es' : List (String × Entry)} (order : (es.map Prod.fst).Perm (es'.map Prod.fst))
    (inside : ∀ name e e', (name, e) ∈ es → (name, e') ∈ es' → Relisted e e') : Relisted (.dir es) (.dir es')

namespace Relisted

variable {e e' : Entry}

theorem symm (relisted : Relisted e e') : Relisted e' e := by
  induction relisted with
  | file content => exact .file content
  | link target => exact .link target
  | dir order inside ih => exact .dir order.symm fun name e' e mem' mem => ih name e e' mem mem'

theorem alike (relisted : Relisted e e') : Alike e e' := by
  cases relisted with
  | file content => exact .file content content
  | link target => exact .link target
  | dir => exact .dir _ _

theorem sound (relisted : Relisted e e') (sound : e.Sound) : e'.Sound := by
  induction relisted with
  | file content => exact .file content
  | link target => exact .link target
  | dir order inside ih =>
    cases sound with | dir distinct names each => ?_
    -- each entry has one of the same name in the other order
    have other (p : String × Entry) (mem : p ∈ _) := List.mem_map.mp (order.mem_iff.mpr (List.mem_map_of_mem mem))
    refine .dir (order.nodup_iff.mp distinct) (fun p mem => ?_) fun p mem => ?_
    · obtain ⟨q, mem', same⟩ := other p mem
      exact same ▸ names q mem'
    · obtain ⟨q, mem', same⟩ := other p mem
      exact ih q.1 q.2 p.2 mem' (same ▸ mem) (each q mem')

theorem keeps (relisted : Relisted e e') (sound : e.Sound) : Keeps e e' := by
  intro loc
  induction loc generalizing e e' with
  | nil =>
    rintro c ⟨⟩
    exact ⟨e', rfl, relisted.alike⟩
  | cons name loc ih =>
    intro c found
    obtain ⟨d, child, there⟩ := Option.bind_eq_some_iff.mp found
    have sound' := relisted.sound sound
    cases relisted with
    | file => cases child
    | link => cases child
    | dir order inside =>
      have mem := mem_of_lookup child
      obtain ⟨⟨name', d'⟩, mem', same⟩ := List.mem_map.mp (order.mem_iff.mp (List.mem_map_of_mem mem))
      obtain rfl : name' = name := same
      obtain ⟨c', there', alike⟩ := ih (inside name' d d' mem mem') (sound.child? child) c there
      cases sound' with
      | dir distinct =>
        refine ⟨c', ?_, alike⟩
        rw [at?, Entry.child?, entries, lookup_of_mem distinct mem']
        exact there'

theorem sameKind (relisted : Relisted e e') (sound : e.Sound) (loc : List String) :
    SameKind (e.at? loc) (e'.at? loc) := by
  cases there : e.at? loc with
  | some c =>
    obtain ⟨c', there', alike⟩ := relisted.keeps sound loc c there
    exact there' ▸ .some alike
  | none =>
    cases there' : e'.at? loc with
    | none => exact .none
    | some c' =>
      obtain ⟨c, again, -⟩ := relisted.symm.keeps (relisted.sound sound) loc c' there'
      cases there.symm.trans again

end Relisted

end Entry

namespace Store

variable {s : Store} {ending : String} {dir : Path}

/-- The entry that names lead to below a path. Links on the way from there are not followed. -/
def entryBelow? (s : Store) (p : Path) (names : List String) : Option Entry :=
  match s.entry? p with
  | .ok (some e) => e.at? names
  | _ => none

theorem entryBelow?_eq {e : Entry} (found : s.entry? dir = .ok (some e)) (names : List String) :
    s.entryBelow? dir names = e.at? names := by
  rw [entryBelow?, found]

/-- What a walk below a directory yields: the last name has the ending and is that of a file, or of a link that leads to
a file, and the names before it are those of directories. -/
structure Yields (s : Store) (ending : String) (dir : Path) (names : List String) : Prop where
  nonempty : names ≠ []
  ends : Text.endsWith (names.getLastD "") ending = true
  isFile : (∃ content, s.entryBelow? dir names = some (.file content)) ∨
    (∃ target, s.entryBelow? dir names = some (.link target)) ∧
      ∃ content, s.entry? (dir.below names) = .ok (some (.file content))
  inside : ∀ front, front <+: names → front ≠ [] → front ≠ names → ∃ es, s.entryBelow? dir front = some (.dir es)

theorem yields_iff (sound : s.Sound) {es : List (String × Entry)} (found : s.entry? dir = .ok (some (.dir es)))
    (names : List String) : s.Yields ending dir names ↔ s.IsSource ending dir (.dir es) names := by
  have last (nonempty : names ≠ []) {c : Entry} (there : (Entry.dir es).at? names = some c) :
      (dir.below names).parts.getLastD "" = names.getLastD "" := by
    obtain ⟨here, -, isDir⟩ := entry?_eq_ok_some.mp found
    rw [parts_below ((sound.tree.at? isDir).isName_of_at? there)]
    obtain ⟨front, name, rfl⟩ := (List.eq_nil_or_concat' names).resolve_left nonempty
    simp
  constructor
  · rintro ⟨nonempty, ends, isFile, -⟩
    simp only [entryBelow?_eq found] at isFile
    refine ⟨?_, isFile⟩
    rcases isFile with ⟨content, there⟩ | ⟨⟨target, there⟩, -⟩
    · rwa [last nonempty there]
    · rwa [last nonempty there]
  · intro is
    obtain ⟨name, rest, -, cons, -⟩ := is.exists_cons
    have nonempty : names ≠ [] := cons ▸ List.cons_ne_nil name rest
    obtain ⟨c, there⟩ := is.exists_at?
    refine ⟨nonempty, last nonempty there ▸ is.1, by simpa only [entryBelow?_eq found] using is.2, ?_⟩
    rintro front ⟨more, rfl⟩ - proper
    simp only [entryBelow?_eq found]
    cases more with
    | nil => exact absurd (List.append_nil front).symm proper
    | cons n more =>
      rcases is.2 with ⟨content, there⟩ | ⟨⟨target, there⟩, -⟩
      · exact Entry.exists_dir_above there
      · exact Entry.exists_dir_above there

/-- Below a directory, or a link to one, in which no link is blocked but by a place that is not there, a walk comes to
an end and yields each of the source files that are reached through directories alone, once and in the order of the
names that lead to them. It yields the same when the entries of the directories are listed in another order. The lengths
of paths and the depth of directories are taken to be without limit. -/
theorem findFiles_exact (sound : s.Sound) (ending : String) (isDir : s.isDirectory dir = .ok true)
    (clear : ∀ names target, s.entryBelow? dir names = some (.link target) →
      ∀ b, s.entry? (dir.below names) = .error b → b = .missing) :
    (∃ rows : List (List String), s.findFiles ending dir = ⟨rows.map dir.below, none⟩ ∧
        (∀ names ∈ rows, (dir.below names).parts = dir.parts ++ names) ∧
        (∀ names, names ∈ rows ↔ s.Yields ending dir names) ∧ rows.Pairwise (· < ·) ∧ (rows.map dir.below).Nodup) ∧
      ∀ s' : Store, s'.cwd = s.cwd → s.root.Relisted s'.root → s'.findFiles ending dir = s.findFiles ending dir := by
  constructor
  · obtain ⟨nulFree, es, found⟩ := isDirectory_eq_true_iff.mp isDir
    have covers := findFiles_covers sound ending nulFree found
    have ended : (s.findFiles ending dir).fault = none := by
      refine covers.fault.mpr fun names target there => clear names target ?_
      rwa [entryBelow?_eq found]
    obtain ⟨rows, sorted, files, among⟩ := covers.files ended
    obtain ⟨here, -, there⟩ := entry?_eq_ok_some.mp found
    have areNames (names : List String) (mem : names ∈ rows) : ∀ name ∈ names, Entry.IsName name :=
      ((among names).mp mem).areNames (sound.tree.at? there)
    refine ⟨rows, ?_, fun names mem => parts_below (areNames names mem),
      fun names => (among names).trans (yields_iff sound found names).symm, sorted, ?_⟩
    · rw [← files, ← ended]
    · have distinct : rows.Nodup := sorted.imp fun before => ne_of_lt before
      exact distinct.map_on fun names mem names' mem' => below_inj (areNames names mem) (areNames names' mem')
  · intro s' cwd relisted
    have sound' : s'.Sound := ⟨relisted.sound sound.tree, relisted.alike.isDir_eq.symm.trans sound.isDir⟩
    exact findFiles_of_sameKind sound sound' cwd (relisted.sameKind sound.tree) dir

/-- Sources with files and links of all kinds, and a link to their directory. -/
def mixedSources : Store where
  root := .dir [("ln", .link "src"), ("src", .dir [
    ("b", .dir [("notes.txt", .file []), ("C.java", .file [])]), ("X.java", .dir [("Y.java", .file [])]),
    ("L.java", .link "b/C.java"), ("D.java", .link "b"), ("G.java", .link "b/gone"), ("A.java", .file [])])]
  cwd := []

theorem findFiles_exact_mixed :
    let dir := Path.ofString "ln"
    mixedSources.Sound ∧ mixedSources.isDirectory dir = .ok true ∧
      (∀ names target, mixedSources.entryBelow? dir names = some (.link target) →
        ∀ b, mixedSources.entry? (dir.below names) = .error b → b = .missing) ∧
      ∃ rows : List (List String), mixedSources.findFiles ".java" dir = ⟨rows.map dir.below, none⟩ ∧
        rows.Pairwise (· < ·) ∧ ["L.java"] ∈ rows ∧ ["X.java", "Y.java"] ∈ rows ∧ ["D.java", "C.java"] ∉ rows := by
  intro dir
  have sound : mixedSources.Sound := ⟨by decide +kernel, rfl⟩
  have isDir : mixedSources.isDirectory dir = .ok true := by decide +kernel
  obtain ⟨-, es, found⟩ := isDirectory_eq_true_iff.mp isDir
  have is : mixedSources.root.at? ["src"] = some (.dir es) := Except.ok.inj found
  have clear : mixedSources.IsClear dir (.dir es) := by
    obtain rfl := Entry.dir.inj (Option.some.inj is)
    exact isClear_of_clears (by decide +kernel)
  have clear' : ∀ names target, mixedSources.entryBelow? dir names = some (.link target) →
      ∀ b, mixedSources.entry? (dir.below names) = .error b → b = .missing := by
    simp only [entryBelow?_eq found]
    exact clear
  obtain ⟨⟨rows, listed, -, among, sorted, -⟩, -⟩ := findFiles_exact sound ".java" isDir clear'
  simp only [yields_iff sound found] at among
  obtain rfl := Entry.dir.inj (Option.some.inj is)
  refine ⟨sound, isDir, clear', rows, listed, sorted, (among _).mpr ?_, (among _).mpr ?_, ?_⟩
  · exact ⟨by decide +kernel, .inr ⟨⟨"b/C.java", rfl⟩, [], rfl⟩⟩
  · exact ⟨by decide +kernel, .inl ⟨[], rfl⟩⟩
  · rw [among]
    rintro ⟨-, ⟨content, there⟩ | ⟨⟨target, there⟩, -⟩⟩ <;> cases there

end Store

end EntityAtlas
