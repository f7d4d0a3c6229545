import EntityAtlas.Proofs.AlikeWalks
import EntityAtlas.Proofs.Confinement
import EntityAtlas.Proofs.StoppedScans

/-!
# Isolation of faults

A scan of a directory that can be listed succeeds, unless a file declares what lies too deep for the machine. Each file
adds its own declarations, and a file that cannot be read adds none. So another content of one file changes only the
stretch of the declarations that stand in it.
-/

namespace EntityAtlas

/-- A file with another content is nothing new. -/
theorem Entry.addsOnly_replace {e : Entry} {loc : List String} {old : List UInt8}
    (there : e.at? loc = some (.file old)) (new : List UInt8) :
    AddsOnly (fun _ => False) e (insertAt (.file new) loc e) where
  same q _ := by
    by_cases beyond : loc <+: q
    · obtain ⟨more, rfl⟩ := beyond
      rw [at?_insertAt_append, at?_append, there]
      cases more with
      | nil => exact .some (.file old new)
      | cons => exact .none
    by_cases onWay : q <+: loc
    · obtain ⟨more, rfl⟩ := onWay
      have there' := at?_insertAt (.file new) (q ++ more) e
      cases more with
      | nil => exact absurd (by simp) beyond
      | cons n more =>
        obtain ⟨es, isDir⟩ := exists_dir_above there
        obtain ⟨es', isDir'⟩ := exists_dir_above there'
        rw [isDir, isDir']
        exact .some (.dir es es')
    · exact .of_eq (at?_insertAt_of_apart _ beyond onWay e).symm
  free _ := False.elim
  linkless _ _ := False.elim

namespace Store

/-- There is a link that leads to a place. -/
def IsLinked (s : Store) (loc : List String) : Prop :=
  ∃ dir name target, s.root.at? (dir ++ [name]) = some (.link target) ∧
    locateFrom s.root (maxLinks + 1) [name] dir = .ok (.present loc)

variable {s : Store} {ending : String} {dir : Path} {loc : List String} {old : List UInt8}

theorem Sound.withFile (sound : s.Sound) {name : String} {rest : List String}
    (isNames : ∀ n ∈ name :: rest, Entry.IsName n) (content : List UInt8) :
    (s.withFile (name :: rest) content).Sound where
  tree := .insertAt (.file content) isNames sound.tree
  isDir := rfl

theorem Sound.withFile_of_at? (sound : s.Sound) (there : s.root.at? loc = some (.file old)) (new : List UInt8) :
    (s.withFile loc new).Sound := by
  have isNames := sound.tree.isName_of_at? there
  cases loc with
  | nil =>
    obtain ⟨es, rooted⟩ := sound.rooted
    cases rooted.symm.trans there
  | cons name rest => exact sound.withFile isNames new

/-- Without links a walk that begins at a directory meets no fault. -/
theorem fault_findFiles_of_isLinkFree (sound : s.Sound) (free : s.root.isLinkFree = true) (ending : String)
    {es : List (String × Entry)} (nulFree : hasNul dir = false) (isDir : s.entry? dir = .ok (some (.dir es))) :
    (s.findFiles ending dir).fault = none := by
  obtain ⟨here, -, there⟩ := entry?_eq_ok_some.mp isDir
  refine (findFiles_covers sound ending nulFree isDir).fault.mpr fun names target isLink => ?_
  rw [Entry.at?_of_at? there] at isLink
  cases Entry.isLinkFree_of_at? free isLink

/-- With another content of a file, a walk lists the files that it listed. -/
theorem findFiles_withFile (sound : s.Sound) (there : s.root.at? loc = some (.file old))
    (new : List UInt8) : (s.withFile loc new).findFiles ending dir = s.findFiles ending dir :=
  findFiles_of_sameKind sound (sound.withFile_of_at? there new) rfl
    (fun place => (Entry.addsOnly_replace there new).same place id) dir

theorem readText_withFile (sound : s.Sound) (there : s.root.at? loc = some (.file old)) (new : List UInt8) {p : Path}
    (elsewhere : s.locate p ≠ .ok (.present loc)) : (s.withFile loc new).readText p = s.readText p := by
  have adds := Entry.addsOnly_replace there new
  refine readText_eq (locateFrom_congr fun place _ => adds.same place id).symm fun loc' found => ⟨adds.same loc' id, ?_⟩
  have other : loc' ≠ loc := fun same => elsewhere (same ▸ found)
  rcases List.eq_nil_or_concat' loc with rfl | ⟨dir, name, rfl⟩
  · obtain ⟨es, rooted⟩ := sound.rooted
    cases rooted.symm.trans there
  · obtain ⟨es, here⟩ := Entry.exists_dir there
    have grows := Entry.grows_file here (fun e is => ⟨old, Option.some.inj (is.symm.trans there)⟩) new
    exact grows.files loc' (by simpa using other)

/-- Below a directory, the path of a file leads to the file, if anywhere. -/
theorem place_of_locate_file (sound : s.Sound) {here : List String} {es : List (String × Entry)}
    (found : s.locate dir = .ok (.present here)) (isDir : s.root.at? here = some (.dir es)) {names : List String}
    {content : List UInt8} (there : s.root.at? (here ++ names) = some (.file content)) {place : Place}
    (located : s.locate (dir.below names) = .ok place) : place = .present (here ++ names) := by
  rcases List.eq_nil_or_concat' names with rfl | ⟨names, name, rfl⟩
  · rw [List.append_nil, isDir] at there
    cases there
  rw [← List.append_assoc] at there ⊢
  obtain ⟨left, -, at_end⟩ := exists_locate_below found isDir
  rw [at_end s sound.tree rfl (.refl _) names name _ there] at located
  split at located
  · have isName := sound.tree.isName_of_at? there name (by simp)
    cases locateFrom_eq_ok_iff.mp located with
    | up => exact absurd rfl isName.2
    | stay => exact absurd isName.1.1 (by decide)
    | down _ isDir => cases there.symm.trans isDir
    | file => rfl
    | free _ missing => cases there.symm.trans missing
    | link _ isLink => cases there.symm.trans isLink
  · cases located

/-- Of the paths that a walk lists, only that of the place itself leads to a place to which no link leads. -/
theorem append_eq_of_locate (sound : s.Sound) {here : List String} {es : List (String × Entry)}
    (found : s.locate dir = .ok (.present here)) (isDir : s.root.at? here = some (.dir es))
    (unlinked : ¬ s.IsLinked loc) {names : List String} (is : s.IsSource ending dir (.dir es) names)
    (located : s.locate (dir.below names) = .ok (.present loc)) : here ++ names = loc := by
  have kinds := is.2
  simp only [Entry.at?_of_at? isDir] at kinds
  rcases kinds with ⟨content, there⟩ | ⟨⟨target, there⟩, -⟩
  · exact (Place.present.inj (place_of_locate_file sound found isDir there located)).symm
  obtain ⟨names, name, rfl⟩ := (List.eq_nil_or_concat' names).resolve_left (ne_nil_of_link isDir there)
  rw [← List.append_assoc] at there
  obtain ⟨left, le, at_end⟩ := exists_locate_below found isDir
  rw [at_end s sound.tree rfl (.refl _) names name _ there] at located
  split at located
  · exact absurd ⟨_, name, target, there, locateFrom_mono (Nat.succ_le_succ le) located⟩ unlinked
  · cases located

/-- The walk lists one path at most that leads to a place to which no link leads, and the text of a path tells it. -/
theorem eq_of_mem_findFiles (loc : List String) (sound : s.Sound)
    (clear : (s.findFiles ending dir).fault = none) :
    (∀ f ∈ (s.findFiles ending dir).files, Path.ofString f.text = f) ∧
      (¬ s.IsLinked loc → ∀ f ∈ (s.findFiles ending dir).files, ∀ g ∈ (s.findFiles ending dir).files,
        s.locate f = .ok (.present loc) → s.locate g = .ok (.present loc) → f = g) := by
  obtain ⟨-, es, isDir, -, rows, -, files, among⟩ := exists_rows_of_findFiles sound clear
  obtain ⟨here, found, isDir⟩ := entry?_eq_ok_some.mp isDir
  rw [files]
  refine ⟨fun f mem => ?_, fun unlinked f mem g mem' leads leads' => ?_⟩
  · obtain ⟨names, listed, rfl⟩ := List.mem_map.mp mem
    have is := (among names).mp listed
    have areNames := is.areNames (sound.tree.at? isDir)
    obtain ⟨first, rest, -, rfl, -⟩ := is.exists_cons
    exact Path.ofString_text (by simp [parts_below areNames])
  · obtain ⟨names, listed, rfl⟩ := List.mem_map.mp mem
    obtain ⟨names', listed', rfl⟩ := List.mem_map.mp mem'
    have same := append_eq_of_locate sound found isDir unlinked ((among names).mp listed) leads
    have same' := append_eq_of_locate sound found isDir unlinked ((among names').mp listed') leads'
    rw [List.append_cancel_left (same.trans same'.symm)]

end Store

/-- Around the one element that is special, if there is one, all others stand in their order. -/
theorem exists_split_of_unique {α : Type} {special : α → Prop} {l : List α} (distinct : l.Nodup)
    (unique : ∀ a ∈ l, ∀ b ∈ l, special a → special b → a = b) :
    ∃ front own back, l = front ++ own ++ back ∧ (∀ a ∈ own, special a) ∧ ∀ a ∈ front ++ back, ¬ special a := by
  by_cases any : ∃ a ∈ l, special a
  · obtain ⟨a, mem, isSpecial⟩ := any
    obtain ⟨front, back, rfl⟩ := List.append_of_mem mem
    refine ⟨front, [a], back, by simp, by simpa using isSpecial, ?_⟩
    intro b among isSpecial'
    rw [List.nodup_middle, List.nodup_cons] at distinct
    have mem' : b ∈ front ++ a :: back := by simpa using (List.mem_append.mp among).imp_right .inr
    rw [unique b mem' a mem isSpecial' isSpecial] at among
    exact distinct.1 among
  · refine ⟨l, [], [], by simp, by simp, ?_⟩
    intro a mem isSpecial
    exact any ⟨a, by simpa using mem, isSpecial⟩

namespace Collector

variable (c : Collector) {s : Store} {package : String}

/-- What a file declares: nothing if it cannot be read. -/
theorem declaredIn_eq (f : Path) : c.declaredIn s f =
    match s.readText f with
    | .error _ => []
    | .ok cs => match Java.Outline.ofSource c.parser c.level (some f.text) cs with
      | .error _ => []
      | .ok outline => outline.unit.walk f.text := by
  rw [value_declarationsIn, readUnit, Logged.value_bind]
  cases s.readText f with
  | error failure => simp [Logged.value_bind]
  | ok cs => cases read : Java.Outline.ofSource c.parser c.level (some f.text) cs <;> simp [read, Logged.value_bind]

theorem declaredIn_withFile (sound : s.Sound) {loc : List String} {old : List UInt8}
    (there : s.root.at? loc = some (.file old)) (new : List UInt8) {f : Path}
    (elsewhere : s.locate f ≠ .ok (.present loc)) : c.declaredIn (s.withFile loc new) f = c.declaredIn s f := by
  rw [declaredIn_eq, declaredIn_eq, Store.readText_withFile sound there new elsewhere]

/-- The declarations of a file that are wanted. -/
def wantedIn (s : Store) (wanted : Decl → Bool) (f : Path) : List Placed :=
  (c.declaredIn s f).filter fun p => wanted p.decl

theorem value_extract_eq_flatMap (listed : (c.listing s package).fault = none) (wanted : Decl → Bool) :
    (c.extract s package wanted).value = .ok ((c.listing s package).files.flatMap (c.wantedIn s wanted)) := by
  rw [value_extract, listed, declaredBelow, List.filter_flatMap]
  rfl

theorem wantedIn_eq (wanted : Decl → Bool) (f : Path) : c.wantedIn s wanted f =
    match s.readText f with
    | .error _ => []
    | .ok cs => match Java.Outline.ofSource c.parser c.level (some f.text) cs with
      | .error _ => []
      | .ok outline => (outline.unit.walk f.text).filter fun p => wanted p.decl := by
  rw [wantedIn, declaredIn_eq]
  cases s.readText f with
  | error failure => exact List.filter_nil
  | ok cs =>
    dsimp only
    cases Java.Outline.ofSource c.parser c.level (some f.text) cs with
    | error refusal => exact List.filter_nil
    | ok outline => rfl

/-- With another content of a file to which no link leads, a scan gives another stretch of declarations of this file. -/
theorem exists_stretch (sound : s.Sound) (listed : (c.listing s package).fault = none)
    (wanted : Decl → Bool) {loc : List String} {old : List UInt8} (there : s.root.at? loc = some (.file old))
    (new : List UInt8) (unlinked : ¬ s.IsLinked loc) :
    c.listing (s.withFile loc new) package = c.listing s package ∧ ∃ before own own' after,
      (c.extract s package wanted).value = .ok (before ++ own ++ after) ∧
      (c.extract (s.withFile loc new) package wanted).value = .ok (before ++ own' ++ after) ∧
      (∀ p ∈ own ++ own', s.locate (.ofString p.file) = .ok (.present loc)) ∧
      ∀ p ∈ before ++ after, s.locate (.ofString p.file) ≠ .ok (.present loc) := by
  have same : c.listing (s.withFile loc new) package = c.listing s package :=
    Store.findFiles_withFile sound there new
  have listed' : (c.listing (s.withFile loc new) package).fault = none :=
    (congrArg Store.Listing.fault same).trans listed
  refine ⟨same, ?_⟩
  rw [c.value_extract_eq_flatMap listed, c.value_extract_eq_flatMap listed', same]
  obtain ⟨told, unique⟩ : (∀ f ∈ (c.listing s package).files, Path.ofString f.text = f) ∧ _ :=
    Store.eq_of_mem_findFiles loc sound listed
  have distinct : (c.listing s package).files.Nodup := (Store.nodup_findFiles sound _ _).of_map
  obtain ⟨front, own, back, split, leads, others⟩ := exists_split_of_unique distinct (unique unlinked)
  rw [split] at told ⊢
  have kept {fs : List Path} (sub : ∀ f ∈ fs, f ∈ front ++ back) :
      fs.flatMap (c.wantedIn (s.withFile loc new) wanted) = fs.flatMap (c.wantedIn s wanted) := by
    refine List.flatMap_congr fun f mem => ?_
    rw [wantedIn, wantedIn, declaredIn_withFile c sound there new (others f (sub f mem))]
  have file (s' : Store) {fs : List Path} (sub : ∀ f ∈ fs, f ∈ front ++ own ++ back) {p : Placed}
      (among : p ∈ fs.flatMap (c.wantedIn s' wanted)) : Path.ofString p.file ∈ fs := by
    obtain ⟨f, mem, among⟩ := List.mem_flatMap.mp among
    rw [file_of_mem_declaredIn c (List.mem_filter.mp among).1, told f (sub f mem)]
    exact mem
  refine ⟨front.flatMap (c.wantedIn s wanted), own.flatMap (c.wantedIn s wanted),
    own.flatMap (c.wantedIn (s.withFile loc new) wanted), back.flatMap (c.wantedIn s wanted), ?_, ?_, ?_, ?_⟩
  · rw [List.flatMap_append, List.flatMap_append]
  · rw [List.flatMap_append, List.flatMap_append, kept fun f => List.mem_append_left _,
      kept fun f => List.mem_append_right _]
  · intro p among
    rcases List.mem_append.mp among with among | among
    all_goals exact leads _ (file _ (fun f mem => by simp [mem]) among)
  · intro p among
    rw [← List.flatMap_append] at among
    refine others _ (file _ (fun f mem => ?_) among)
    rcases List.mem_append.mp mem with mem | mem <;> simp [mem]

/-- Two classes, and between them a file that is no text. -/
def brokenSources : Store where
  root := .dir [("C.java", .file (Text.Utf8.encode "class C { class D { } }".toList)), ("B.java", .file [0xff]),
    ("A.java", .file (Text.Utf8.encode "class A { }".toList))]
  cwd := []

theorem sound_brokenSources : brokenSources.Sound where
  tree := .dir (by decide) (by simpa using by decide) (by simpa using ⟨.file _, .file _, .file _⟩)
  isDir := rfl

/-- Three classes inside one another, on a machine that bears two. -/
def nestedSources : Store where
  root := .dir [("A.java", .file (Text.Utf8.encode "class A { class B { class C { } } }".toList))]
  cwd := []
  machine := { Machine.standard with depth := 2 }

end Collector

end EntityAtlas
