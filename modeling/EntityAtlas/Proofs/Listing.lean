import EntityAtlas.Proofs.PathTexts
import EntityAtlas.Store.Finder
import Mathlib.Data.List.Nodup

/-!
# Listings

In a sound store the entries of a directory have distinct names, which hold no slash. A walk below a directory then
lists no file twice: below entries of different names it goes to paths that differ, and the text of a path tells the
path.
-/

namespace EntityAtlas

theorem mem_of_lookup {α β : Type} [BEq α] [LawfulBEq α] {rows : List (α × β)} {a : α} {b : β}
    (found : rows.lookup a = some b) : (a, b) ∈ rows := by
  obtain ⟨before, after, rfl, -⟩ := List.lookup_eq_some_iff.mp found
  simp

namespace Entry

/-- A name that an entry of a directory can have. -/
def IsName (name : String) : Prop :=
  Path.IsPart name ∧ name ≠ ".."

instance : DecidablePred IsName := fun _ => inferInstanceAs (Decidable (_ ∧ _))

/-- In a sound tree the entries of every directory have distinct names. -/
inductive Sound : Entry → Prop where
  | file (content : List UInt8) : Sound (.file content)
  | link (target : String) : Sound (.link target)
  | dir {es : List (String × Entry)} (distinct : (es.map Prod.fst).Nodup) (names : ∀ p ∈ es, IsName p.1)
    (inside : ∀ p ∈ es, Sound p.2) : Sound (.dir es)

theorem Sound.child? {e e' : Entry} {name : String} (sound : e.Sound) (found : e.child? name = some e') : e'.Sound := by
  cases sound with
  | file => cases found
  | link => cases found
  | dir distinct names inside => exact inside _ (mem_of_lookup found)

theorem Sound.at? {e e' : Entry} {loc : List String} (sound : e.Sound) (found : e.at? loc = some e') : e'.Sound := by
  induction loc generalizing e with
  | nil => exact Option.some.inj found ▸ sound
  | cons name rest ih =>
    obtain ⟨c, child, found⟩ := Option.bind_eq_some_iff.mp found
    exact ih (sound.child? child) found

theorem Sound.isName_of_at? {e c : Entry} {names : List String} (sound : e.Sound) (there : e.at? names = some c) :
    ∀ name ∈ names, IsName name := by
  induction names generalizing e with
  | nil => simp
  | cons name names ih =>
    obtain ⟨d, child, there⟩ := Option.bind_eq_some_iff.mp there
    refine List.forall_mem_cons.mpr ⟨?_, ih (sound.child? child) there⟩
    cases sound with
    | file => cases child
    | link => cases child
    | dir distinct isName inside => exact isName _ (mem_of_lookup child)

mutual

/-- Whether a tree is sound. -/
def isSound : Entry → Bool
  | .dir es => decide (es.map Prod.fst).Nodup && areSound es
  | _ => true

/-- Whether entries have the names that entries can have, and the trees below them are sound. -/
def areSound : List (String × Entry) → Bool
  | [] => true
  | (name, e) :: es => decide (IsName name) && isSound e && areSound es

end

mutual

theorem isSound_iff : ∀ e : Entry, e.isSound = true ↔ e.Sound
  | .file content => iff_of_true rfl (.file content)
  | .link target => iff_of_true rfl (.link target)
  | .dir es => by
    rw [isSound, Bool.and_eq_true, decide_eq_true_eq, areSound_iff es]
    constructor
    · rintro ⟨distinct, each⟩
      exact .dir distinct (fun p mem => (each p mem).1) fun p mem => (each p mem).2
    · rintro (_ | _ | ⟨distinct, names, inside⟩)
      exact ⟨distinct, fun p mem => ⟨names p mem, inside p mem⟩⟩

theorem areSound_iff : ∀ es : List (String × Entry), areSound es = true ↔ ∀ p ∈ es, IsName p.1 ∧ p.2.Sound
  | [] => by simp [areSound]
  | (name, e) :: es => by
    rw [areSound, Bool.and_eq_true, Bool.and_eq_true, decide_eq_true_eq, isSound_iff e, areSound_iff es,
      List.forall_mem_cons]

end

instance : DecidablePred Sound := fun e => decidable_of_iff _ (isSound_iff e)

end Entry

/-- A store whose tree is sound; its root is a directory. -/
structure Store.Sound (s : Store) : Prop where
  tree : s.root.Sound
  isDir : s.root.isDir = true

namespace Store

theorem entryText_eq (dir : Path) (name : String) : entryText dir name = entryText dir "" ++ name := by
  simp only [entryText]
  split <;> simp

theorem exists_entryText (dir : Path) : ∃ head, entryText dir "" = head ++ "/" := by
  simp only [entryText]
  split
  · rename_i ends
    simpa using Text.eq_append_of_endsWith ends
  · exact ⟨dir.text, by simp⟩

/-- What the texts of all entries of a directory begin with denotes the directory. -/
theorem ofString_entryText_nil (dir : Path) : Path.ofString (entryText dir "") = dir := by
  by_cases none : dir.parts = []
  · rw [show dir = .ofParts dir.anchor [] from none ▸ dir.ofParts_parts.symm]
    generalize dir.anchor = anchor
    cases anchor <;> decide
  · have text : entryText dir "" = dir.text ++ "/" := by
      simp [entryText, Path.not_endsWith_slash none]
    obtain ⟨c, cs, other, chars⟩ := Path.exists_text none
    refine Path.ext ?_ ?_
    · change Path.anchorOf (entryText dir "").toList = dir.anchor
      rw [text, String.toList_append, chars, List.append_assoc, List.cons_append, Path.anchorOf_slashes _ other]
    · rw [Path.parts_ofString, text, show dir.text ++ "/" = dir.text ++ "/" ++ "" by simp,
        Text.pieces_append Path.toList_slash, List.filter_append, Path.pieces_text none]
      exact List.append_nil _

theorem parts_below {p : Path} {names : List String} (areNames : ∀ name ∈ names, Entry.IsName name) :
    (p.below names).parts = p.parts ++ names :=
  p.parts_below_of_areParts fun name mem => (areNames name mem).1

theorem below_inj {p : Path} {names names' : List String} (areNames : ∀ name ∈ names, Entry.IsName name)
    (areNames' : ∀ name ∈ names', Entry.IsName name) (same : p.below names = p.below names') : names = names' :=
  Path.below_inj (fun name mem => (areNames name mem).1) (fun name mem => (areNames' name mem).1) same

theorem parts_below_singleton (p : Path) {name : String} (isName : Entry.IsName name) :
    (p.below [name]).parts = p.parts ++ [name] :=
  parts_below (by simpa using isName)

/-- The path of an entry adds its name to the components of the directory. -/
theorem ofString_entryText (dir : Path) {name : String} (isName : Entry.IsName name) :
    Path.ofString (entryText dir name) = dir.below [name] := by
  obtain ⟨c, cs, chars, other⟩ := isName.1.exists_cons
  obtain ⟨head, is⟩ := exists_entryText dir
  have start := ofString_entryText_nil dir
  refine Path.ext ?_ ?_
  · change Path.anchorOf (entryText dir name).toList = dir.anchor
    rw [entryText_eq, String.toList_append, chars, Path.anchorOf_append _ other]
    exact congrArg Path.anchor start
  · have empty : Text.pieces '/' (head ++ "/") = Text.pieces '/' head ++ [""] := by
      rw [show head ++ "/" = head ++ "/" ++ "" by simp, Text.pieces_append Path.toList_slash]
      rfl
    rw [parts_below_singleton dir isName, ← congrArg Path.parts start, Path.parts_ofString, Path.parts_ofString,
      entryText_eq, is, Text.pieces_append Path.toList_slash, Text.pieces_of_not_mem isName.1.2, empty,
      List.filter_append, List.filter_append, List.filter_cons_of_pos isName.1.1]
    simp [Path.isProper]

/-- A file that stands below a path, first under a given name. -/
def IsBelow (p : Path) (name : String) (f : Path) : Prop :=
  ∃ rest, f = p.below (name :: rest) ∧ ∀ n ∈ name :: rest, Entry.IsName n

/-- A walk that lists files below a path under a name, none twice. -/
def ListsBelow (p : Path) (name : String) (l : Listing) : Prop :=
  (∀ f ∈ l.files, IsBelow p name f) ∧ l.files.Nodup

theorem files_concat_sublist (walks : List Listing) :
    (Listing.concat walks).files.Sublist (walks.flatMap (·.files)) := by
  induction walks with
  | nil => simp [Listing.concat, Listing.empty]
  | cons walk walks ih =>
    rw [List.flatMap_cons]
    change (walk.append (Listing.concat walks)).files.Sublist _
    unfold Listing.append
    split
    · exact List.sublist_append_left _ _
    · exact (List.Sublist.refl _).append ih

/-- Walks under distinct names list no file twice, one after another. -/
theorem concat_nodup {p : Path} {walks : List (String × Listing)} (distinct : (walks.map Prod.fst).Nodup)
    (each : ∀ w ∈ walks, ListsBelow p w.1 w.2) :
    (∀ f ∈ (Listing.concat ((inNameOrder walks).map (·.2))).files, ∃ w ∈ walks, IsBelow p w.1 f) ∧
      (Listing.concat ((inNameOrder walks).map (·.2))).files.Nodup := by
  have perm : (inNameOrder walks).Perm walks := List.mergeSort_perm walks _
  have within := files_concat_sublist ((inNameOrder walks).map (·.2))
  rw [List.flatMap_map] at within
  refine ⟨fun f mem => ?_, within.nodup (List.nodup_flatMap.mpr ⟨fun w mem => ?_, ?_⟩)⟩
  · obtain ⟨w, mem, listed⟩ := List.mem_flatMap.mp (within.subset mem)
    exact ⟨w, perm.subset mem, (each w (perm.subset mem)).1 f listed⟩
  · exact (each w (perm.subset mem)).2
  · have names : ((inNameOrder walks).map Prod.fst).Nodup := (perm.map Prod.fst).nodup_iff.mpr distinct
    refine (List.pairwise_map.mp names).imp_of_mem fun mem mem' different f listed listed' => ?_
    obtain ⟨rest, is, areNames⟩ := (each _ (perm.subset mem)).1 f listed
    obtain ⟨rest', is', areNames'⟩ := (each _ (perm.subset mem')).1 f listed'
    exact different (List.cons.inj (below_inj areNames areNames' (is.symm.trans is'))).1

variable (s : Store) (ending : String)

theorem names_walkEach (dir : Path) (es : List (String × Entry)) :
    (s.walkEach ending dir es).map Prod.fst = es.map Prod.fst := by
  induction es with
  | nil => rfl
  | cons e es ih => simp [walkEach, ih]

theorem candidate_lists (dir : Path) {name : String} (isName : Entry.IsName name) :
    ListsBelow dir name (candidate ending dir name) := by
  unfold candidate
  split
  · refine ⟨fun f mem => ⟨[], ?_, by simpa using isName⟩, List.nodup_singleton _⟩
    rw [List.mem_singleton.mp mem, ofString_entryText dir isName]
  · exact ⟨by simp, List.nodup_nil⟩

mutual

/-- The walk below an entry lists files below its path, none twice. -/
theorem walkEntry_lists : ∀ (e : Entry), e.Sound → ∀ (dir : Path) (name : String), Entry.IsName name →
    ListsBelow dir name (s.walkEntry ending dir name e)
  | .file _, _, dir, name, isName => candidate_lists ending dir isName
  | .link _, _, dir, name, isName => by
    simp only [walkEntry, linked]
    split
    · exact ⟨by simp, List.nodup_nil⟩
    · exact candidate_lists ending dir isName
    · exact ⟨by simp [Listing.empty], List.nodup_nil⟩
  | .dir es, sound, dir, name, isName => by
    cases sound with
    | dir distinct names inside =>
      rw [walkEntry, ofString_entryText dir isName]
      have each := walkEach_lists es names inside (dir.below [name])
      obtain ⟨below, nodup⟩ := concat_nodup (by rwa [names_walkEach]) each
      refine ⟨fun f mem => ?_, nodup⟩
      obtain ⟨w, walked, rest, rfl, areNames⟩ := below f mem
      refine ⟨w.1 :: rest, by rw [← Path.below_append]; rfl, ?_⟩
      exact List.forall_mem_cons.mpr ⟨isName, areNames⟩

/-- The walks below the entries of a directory list files below their paths, none twice. -/
theorem walkEach_lists : ∀ (es : List (String × Entry)), (∀ p ∈ es, Entry.IsName p.1) → (∀ p ∈ es, p.2.Sound) →
    ∀ dir : Path, ∀ w ∈ s.walkEach ending dir es, ListsBelow dir w.1 w.2
  | [], _, _, dir => by simp [walkEach]
  | (name, e) :: es, names, inside, dir => by
    intro w mem
    rw [walkEach] at mem
    rcases List.mem_cons.mp mem with rfl | mem
    · exact walkEntry_lists e (inside _ List.mem_cons_self) dir name (names _ List.mem_cons_self)
    · exact walkEach_lists es (fun p mem => names p (List.mem_cons_of_mem _ mem))
        (fun p mem => inside p (List.mem_cons_of_mem _ mem)) dir w mem

end

/-- A walk below a directory of a sound store lists files of different texts. -/
theorem nodup_findFiles {s : Store} (sound : s.Sound) (ending : String) (dir : Path) :
    ((s.findFiles ending dir).files.map Path.text).Nodup := by
  unfold findFiles
  split
  · exact List.nodup_nil
  · exact List.nodup_nil
  · split
    · rename_i es found
      have here : (Entry.dir es).Sound := by
        unfold entry? at found
        cases place : s.locate dir with
        | error b => simp [place, Except.map] at found
        | ok p =>
          cases p with
          | absent d name => simp [place, Except.map] at found
          | present loc => exact sound.tree.at? (by simpa [place, Except.map] using found)
      cases here with
      | dir distinct names inside =>
        obtain ⟨below, nodup⟩ := concat_nodup (by rwa [names_walkEach])
          (walkEach_lists s ending es names inside dir)
        have told : ∀ f ∈ (Listing.concat ((inNameOrder (s.walkEach ending dir es)).map (·.2))).files,
            Path.ofString f.text = f := by
          intro f mem
          obtain ⟨w, walked, rest, rfl, areNames⟩ := below f mem
          exact Path.ofString_text (by simp [parts_below areNames])
        refine nodup.map_on fun f mem f' mem' same => ?_
        rw [← told f mem, same, told f' mem']
    · exact List.nodup_nil

end Store

end EntityAtlas
