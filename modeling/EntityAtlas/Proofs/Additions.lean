import EntityAtlas.Proofs.Listing
import EntityAtlas.Proofs.Saving
import EntityAtlas.Store.Changes

/-!
# What saving adds

Saving a file adds the file and the directories that hold it, and nothing else, also when it fails on the way. Whatever
is new lies on the way of the path that was saved to: a new file at its end, a new directory at one of its beginnings.
-/

namespace EntityAtlas

theorem lookup_of_mem {α β : Type} [BEq α] [LawfulBEq α] {rows : List (α × β)} (distinct : (rows.map Prod.fst).Nodup)
    {a : α} {b : β} (mem : (a, b) ∈ rows) : rows.lookup a = some b := by
  obtain ⟨before, after, rfl⟩ := List.append_of_mem mem
  refine List.lookup_eq_some_iff.mpr ⟨before, after, rfl, fun p earlier => bne_iff_ne.mpr fun same => ?_⟩
  rw [List.map_append, List.nodup_append] at distinct
  exact distinct.2.2 p.1 (List.mem_map_of_mem earlier) a (by simp) same.symm

namespace Entry

/-- The entries of every directory have distinct names. -/
inductive Distinct : Entry → Prop where
  | file (content : List UInt8) : Distinct (.file content)
  | link (target : String) : Distinct (.link target)
  | dir {es : List (String × Entry)} (names : (es.map Prod.fst).Nodup) (inside : ∀ p ∈ es, Distinct p.2) :
    Distinct (.dir es)

theorem Sound.distinct {e : Entry} (sound : e.Sound) : e.Distinct := by
  induction sound with
  | file content => exact .file content
  | link target => exact .link target
  | dir distinct names inside ih => exact .dir distinct ih

theorem mem_put {name : String} {new : Entry} {es : List (String × Entry)} {p : String × Entry}
    (mem : p ∈ put name new es) : p = (name, new) ∨ p ∈ es := by
  induction es with
  | nil => exact .inl (List.mem_singleton.mp mem)
  | cons e es ih =>
    obtain ⟨n, e⟩ := e
    rw [put] at mem
    split at mem
    · rename_i same
      rcases List.mem_cons.mp mem with rfl | mem
      · exact .inl (by rw [beq_iff_eq.mp same])
      · exact .inr (List.mem_cons_of_mem _ mem)
    · rcases List.mem_cons.mp mem with rfl | mem
      · exact .inr List.mem_cons_self
      · exact (ih mem).imp_right (List.mem_cons_of_mem _)

theorem nodup_put {name : String} {new : Entry} {es : List (String × Entry)} (distinct : (es.map Prod.fst).Nodup) :
    ((put name new es).map Prod.fst).Nodup := by
  induction es with
  | nil => simp [put]
  | cons e es ih =>
    obtain ⟨n, e⟩ := e
    obtain ⟨absent, distinct⟩ := List.nodup_cons.mp distinct
    rw [put]
    split
    · exact List.nodup_cons.mpr ⟨absent, distinct⟩
    · rename_i other
      refine List.nodup_cons.mpr ⟨fun mem => ?_, ih distinct⟩
      obtain ⟨p, put, same⟩ := List.mem_map.mp mem
      rcases mem_put put with rfl | there
      · exact other (beq_iff_eq.mpr same.symm)
      · exact absent (List.mem_map.mpr ⟨p, there, same⟩)

theorem Distinct.child? {e c : Entry} {name : String} (distinct : e.Distinct) (found : e.child? name = some c) :
    c.Distinct := by
  cases distinct with
  | file => cases found
  | link => cases found
  | dir names inside => exact inside _ (mem_of_lookup found)

theorem Distinct.insertAt {new : Entry} (fresh : new.Distinct) (loc : List String) {e : Entry} (distinct : e.Distinct) :
    (insertAt new loc e).Distinct := by
  induction loc generalizing e with
  | nil => exact fresh
  | cons name loc ih =>
    have entries : (e.entries.map Prod.fst).Nodup ∧ ∀ p ∈ e.entries, p.2.Distinct := by
      cases distinct with
      | file => simp [Entry.entries]
      | link => simp [Entry.entries]
      | dir names inside => exact ⟨names, inside⟩
    refine .dir (nodup_put entries.1) fun p mem => ?_
    rcases mem_put mem with rfl | mem
    · cases child : e.child? name with
      | none => exact ih (.dir (by simp) (by simp))
      | some c => exact ih (distinct.child? child)
    · exact entries.2 p mem

end Entry

namespace Change

def loc : Change → List String
  | directory loc => loc
  | file loc _ => loc

/-- Whether an entry is what the change tells: a directory, or a file with the content. -/
def Fits : Change → Option Entry → Prop
  | directory _, e => ∃ es, e = some (.dir es)
  | file _ content, e => e = some (.file content)

end Change

namespace Entry

mutual

/-- What a tree holds is found at its place. -/
theorem fits_of_mem_contents : ∀ (e : Entry) (loc : List String), e.Distinct → ∀ c ∈ e.contents loc,
    ∃ rest, c.loc = loc ++ rest ∧ c.Fits (e.at? rest)
  | .file content, loc, _, c, mem => by
    obtain rfl := List.mem_singleton.mp mem
    exact ⟨[], by simp [Change.loc], rfl⟩
  | .link target, loc, _, c, mem => by simp [contents] at mem
  | .dir es, loc, distinct, c, mem => by
    rcases List.mem_cons.mp mem with rfl | mem
    · exact ⟨[], by simp [Change.loc], es, rfl⟩
    · cases distinct with
      | dir names inside =>
        obtain ⟨name, e, among, rest, isLoc, fits⟩ := fits_of_mem_contentsOfEach es loc inside c mem
        have child : (Entry.dir es).child? name = some e := lookup_of_mem names among
        exact ⟨name :: rest, isLoc, by rw [at?, child]; exact fits⟩

theorem fits_of_mem_contentsOfEach : ∀ (es : List (String × Entry)) (loc : List String), (∀ p ∈ es, p.2.Distinct) →
    ∀ c ∈ contentsOfEach loc es, ∃ name e, (name, e) ∈ es ∧ ∃ rest, c.loc = loc ++ name :: rest ∧ c.Fits (e.at? rest)
  | [], loc, _, c, mem => by simp [contentsOfEach] at mem
  | (name, e) :: es, loc, distinct, c, mem => by
    rcases List.mem_append.mp mem with mem | mem
    · obtain ⟨rest, isLoc, fits⟩ := fits_of_mem_contents e (loc ++ [name]) (distinct _ List.mem_cons_self) c mem
      exact ⟨name, e, List.mem_cons_self, rest, by simpa using isLoc, fits⟩
    · obtain ⟨name', e', among, found⟩ :=
        fits_of_mem_contentsOfEach es loc (fun p mem => distinct p (List.mem_cons_of_mem _ mem)) c mem
      exact ⟨name', e', List.mem_cons_of_mem _ among, found⟩

end

end Entry

namespace Store

/-- A change is there after it, and was not before it. -/
theorem fits_of_mem_changes {s s' : Store} (distinct : s'.root.Distinct) {c : Change} (mem : c ∈ s.changes s') :
    c.Fits (s'.root.at? c.loc) ∧ ¬ c.Fits (s.root.at? c.loc) := by
  obtain ⟨held, new⟩ := List.mem_filter.mp mem
  obtain ⟨rest, isLoc, fits⟩ := s'.root.fits_of_mem_contents [] distinct c held
  obtain rfl : rest = c.loc := by simpa using isLoc.symm
  refine ⟨fits, fun before => ?_⟩
  cases c with
  | directory loc =>
    obtain ⟨es, there⟩ := before
    have there : s.root.at? loc = some (.dir es) := there
    simp [holds, there, Entry.isDir] at new
  | file loc content =>
    have there : s.root.at? loc = some (.file content) := before
    simp [holds, there, Entry.content?] at new

end Store

/-- An entry that holds none, in a directory, is the only one that is new or of a new kind. -/
theorem Entry.alike_of_insertAt {new e : Entry} (leaf : ∀ name l, new.at? (name :: l) = none) {dir : List String}
    {name : String} {es : List (String × Entry)} (here : e.at? dir = some (.dir es)) {l : List String} {c : Entry}
    (there : (insertAt new (dir ++ [name]) e).at? l = some c) :
    l = dir ++ [name] ∨ ∃ c', e.at? l = some c' ∧ Alike c' c := by
  induction dir generalizing e l with
  | nil =>
    obtain rfl := Option.some.inj here
    cases l with
    | nil => exact .inr ⟨_, rfl, Option.some.inj there ▸ .dir _ _⟩
    | cons n l =>
      rw [List.nil_append, insertAt, insertAt, at?_put] at there
      split at there
      · rename_i same
        cases l with
        | nil => exact .inl (by rw [same, List.nil_append])
        | cons n' l => cases (leaf n' l).symm.trans there
      · exact .inr ⟨c, there, .refl c⟩
  | cons d dir ih =>
    obtain ⟨inner, child, inside⟩ := Option.bind_eq_some_iff.mp here
    cases e with
    | file content => simp [child?, entries] at child
    | link target => simp [child?, entries] at child
    | dir entries' =>
      cases l with
      | nil => exact .inr ⟨_, rfl, Option.some.inj there ▸ .dir _ _⟩
      | cons n l =>
        rw [List.cons_append, insertAt, child, Option.getD_some, at?_put] at there
        split at there
        · rename_i same
          subst same
          rcases ih inside there with rfl | ⟨c', there, alike⟩
          · exact .inl rfl
          · exact .inr ⟨c', by rw [at?, child]; exact there, alike⟩
        · exact .inr ⟨c, there, .refl c⟩

/-- So it is the only new directory, if it is one. -/
theorem Entry.isDir_of_insertAt {new e : Entry} (leaf : ∀ name l, new.at? (name :: l) = none) {dir : List String}
    {name : String} {es : List (String × Entry)} (here : e.at? dir = some (.dir es)) {l : List String}
    {es' : List (String × Entry)} (there : (insertAt new (dir ++ [name]) e).at? l = some (.dir es')) :
    l = dir ++ [name] ∨ ∃ es, e.at? l = some (.dir es) := by
  refine (alike_of_insertAt leaf here there).imp_right ?_
  rintro ⟨c, there, alike⟩
  cases alike with
  | dir es _ => exact ⟨es, there⟩

namespace Store

/-- A store that was added to: new directories are at the places `dirs`, and files that are new or have a new content at
the places `files`. -/
structure Adds (dirs files : List (List String)) (s s' : Store) : Prop where
  grows : Grows files s s'
  distinct : s.root.Distinct → s'.root.Distinct
  dirs : ∀ l ∉ dirs, ∀ es, s'.root.at? l = some (.dir es) → ∃ es, s.root.at? l = some (.dir es)

theorem Adds.refl (s : Store) : Adds [] [] s s :=
  ⟨.refl s, id, fun _ _ es there => ⟨es, there⟩⟩

theorem Adds.trans {dirs dirs' files files' : List (List String)} {s s' s'' : Store} (first : Adds dirs files s s')
    (second : Adds dirs' files' s' s'') : Adds (dirs ++ dirs') (files ++ files') s s'' where
  grows := first.grows.trans second.grows
  distinct := second.distinct ∘ first.distinct
  dirs l elsewhere es there := by
    rw [List.mem_append, not_or] at elsewhere
    obtain ⟨es', between⟩ := second.dirs l elsewhere.2 es there
    exact first.dirs l elsewhere.1 es' between

/-- A place that is new is one of those that were added. -/
theorem Adds.mem_of_mem_changes {dirs files : List (List String)} {s s' : Store} (adds : Adds dirs files s s')
    (distinct : s.root.Distinct) {c : Change} (mem : c ∈ s.changes s') :
    match c with
    | .directory loc => loc ∈ dirs
    | .file loc _ => loc ∈ files := by
  obtain ⟨fits, new⟩ := fits_of_mem_changes (adds.distinct distinct) mem
  cases c with
  | directory loc =>
    obtain ⟨es, there⟩ := fits
    by_contra elsewhere
    exact new (adds.dirs loc elsewhere es there)
  | file loc content =>
    by_contra elsewhere
    exact new ((adds.grows.root.files loc elsewhere content).mp fits)

variable {root : Entry}

/-- Where a way leads to a directory, one more component leads to a directory in it. -/
theorem Leads.concat {dir : List String} {name : String} {es es' : List (String × Entry)}
    (isDir : root.at? dir = some (.dir es)) (made : root.at? (dir ++ [name]) = some (.dir es')) (plain : IsPlain name)
    {links : Nat} {parts here : List String} (leads : Leads root links parts here (.present dir)) :
    Leads root links (parts ++ [name]) here (.present (dir ++ [name])) := by
  generalize is : Place.present dir = place at leads
  induction leads with
  | arrive =>
    obtain rfl := Place.present.inj is
    exact .down plain made .arrive
  | up _ ih => exact .up (ih is)
  | stay _ ih => exact .stay (ih is)
  | down plain' there _ ih => exact .down plain' there (ih is)
  | file _ there =>
    -- a directory is no file
    obtain rfl := Place.present.inj is
    cases there.symm.trans isDir
  | free => cases is
  | link plain' there _ ih => exact .link plain' there (List.append_assoc .. ▸ ih is)

theorem makeOne_adds {s s' : Store} {p : Path} (made : s.makeOne p = .ok s') :
    ∃ loc, Adds [loc] [] s s' ∧ s'.locate p = .ok (.present loc) := by
  have grows := makeOne_grows made
  obtain ⟨dir, name, es, parts, found, here, -, up, short, rfl⟩ := exists_of_makeOne made
  refine ⟨dir ++ [name], ⟨grows, fun distinct => ?_, fun l elsewhere es' there => ?_⟩, ?_⟩
  · exact Entry.Distinct.insertAt (.dir (by simp) (by simp)) _ distinct
  · refine (Entry.isDir_of_insertAt (fun _ _ => rfl) here there).resolve_left fun same => ?_
    exact elsewhere (List.mem_singleton.mpr same)
  · obtain ⟨c, here', alike⟩ := grows.root.kept _ _ here
    cases alike with
    | dir _ es' =>
      have stay : name ≠ "." := fun same => p.dot_not_mem_parts (by simp [parts, same])
      have found' := grows.locate found trivial
      rw [locate, grows.start p.parent] at found'
      rw [locate, parts, grows.start p]
      exact locateFrom_eq_ok_iff.mpr
        ((locateFrom_eq_ok_iff.mp found').concat here' (Entry.at?_insertAt _ _ _) ⟨up, stay, short⟩)

/-- New directories are at the ends of some paths, and files that are new or have a new content at the ends of others.
-/
def AddsAt (ways ends : Path → Prop) (s s' : Store) : Prop :=
  ∃ dirs files, Adds dirs files s s' ∧ (∀ loc ∈ dirs, ∃ q, ways q ∧ s'.locate q = .ok (.present loc)) ∧
    ∀ loc ∈ files, ∃ p, ends p ∧ s'.locate p = .ok (.present loc)

namespace AddsAt

variable {ways ends : Path → Prop} {s s' s'' : Store}

theorem refl (s : Store) : AddsAt ways ends s s :=
  ⟨[], [], .refl s, by simp, by simp⟩

/-- Paths go on leading where they led, so what was added first is still at their ends. -/
theorem trans (first : AddsAt ways ends s s') (second : AddsAt ways ends s' s'') : AddsAt ways ends s s'' := by
  obtain ⟨dirs, files, adds, reached, written⟩ := first
  obtain ⟨dirs', files', adds', reached', written'⟩ := second
  refine ⟨dirs ++ dirs', files ++ files', adds.trans adds', fun loc mem => ?_, fun loc mem => ?_⟩
  · rcases List.mem_append.mp mem with mem | mem
    · obtain ⟨q, isWay, found⟩ := reached loc mem
      exact ⟨q, isWay, adds'.grows.locate found trivial⟩
    · exact reached' loc mem
  · rcases List.mem_append.mp mem with mem | mem
    · obtain ⟨p, isEnd, found⟩ := written loc mem
      exact ⟨p, isEnd, adds'.grows.locate found trivial⟩
    · exact written' loc mem

theorem mono {ways' ends' : Path → Prop} (adds : AddsAt ways ends s s') (more : ∀ q, ways q → ways' q)
    (more' : ∀ p, ends p → ends' p) : AddsAt ways' ends' s s' := by
  obtain ⟨dirs, files, adds, reached, written⟩ := adds
  refine ⟨dirs, files, adds, fun loc mem => ?_, fun loc mem => ?_⟩
  · obtain ⟨q, isWay, found⟩ := reached loc mem
    exact ⟨q, more q isWay, found⟩
  · obtain ⟨p, isEnd, found⟩ := written loc mem
    exact ⟨p, more' p isEnd, found⟩

theorem begins (adds : AddsAt ways ends s s') {p : Path} (begins : s.Begins p) : s'.Begins p := by
  obtain ⟨dirs, files, adds, -⟩ := adds
  exact adds.grows.begins begins

/-- What a store has that it had not before is at the end of one of the paths. -/
theorem of_mem_changes (adds : AddsAt ways ends s s') (distinct : s.root.Distinct) {c : Change}
    (mem : c ∈ s.changes s') :
    ∃ p, s'.locate p = .ok (.present c.loc) ∧ (ends p ∨ c = .directory c.loc ∧ ways p) := by
  obtain ⟨dirs, files, adds, reached, written⟩ := adds
  have new := adds.mem_of_mem_changes distinct mem
  cases c with
  | directory loc =>
    obtain ⟨q, isWay, found⟩ := reached loc new
    exact ⟨q, found, .inr ⟨rfl, isWay⟩⟩
  | file loc content =>
    obtain ⟨p, isEnd, found⟩ := written loc new
    exact ⟨p, found, .inl isEnd⟩

end AddsAt

/-- Making a directory adds directories on the way to it. -/
theorem makeAll_adds (fuel : Nat) (s : Store) (p : Path) :
    AddsAt (fun q => q.isWithin p = true) (fun _ => False) s (makeAll fuel s p).2 := by
  refine makeAll_induction AddsAt.refl AddsAt.trans (fun {s s' q} within made => ?_) fuel s
  obtain ⟨loc, adds, found⟩ := makeOne_adds made
  exact ⟨[loc], [], adds, fun loc' mem => ⟨q, within, List.mem_singleton.mp mem ▸ found⟩, by simp⟩

/-- Writing a file adds this file at most. -/
theorem writeFile_adds {s s' : Store} {p : Path} {content : List UInt8} {outcome : Except Fault Unit}
    (begins : s.Begins p) (written : s.writeFile p content = (outcome, s')) :
    AddsAt (fun _ => False) (· = p) s s' := by
  rcases exists_of_writeFile begins written with ⟨-, rfl⟩ | ⟨dir, name, taken, opens, rfl, -⟩
  · exact .refl _
  obtain ⟨grows, found, there⟩ := opens.withFile taken
  obtain ⟨es, here⟩ := opens.isDir
  refine ⟨[], [dir ++ [name]], ⟨grows, fun distinct => ?_, fun l _ es' there' => ?_⟩, by simp, fun loc mem => ?_⟩
  · exact Entry.Distinct.insertAt (.file taken) _ distinct
  · refine (Entry.isDir_of_insertAt (fun _ _ => rfl) here there').resolve_left fun same => ?_
    -- there is the file, and no directory
    cases (same ▸ there').symm.trans there
  · exact ⟨p, rfl, List.mem_singleton.mp mem ▸ found⟩

/-- Saving a file adds the file and directories on the way to it, whether or not it fails. -/
theorem save_adds (s : Store) {p : Path} (content : List UInt8) (begins : s.Begins p) :
    AddsAt (fun q => q.isWithin p = true) (· = p) s (s.save p content).2 := by
  have holders : AddsAt (fun q => q.isWithin p = true) (· = p) s (s.makeDirectories p.parent).2 :=
    (makeAll_adds _ s _).mono (fun q within => Path.isWithin_trans within (Path.isWithin_parent p)) nofun
  obtain ⟨s₁, grows, ⟨fault, made, ends⟩ | ⟨made, ends⟩⟩ := save_cases s p content
  · rw [made] at holders
    rwa [ends]
  · rw [made] at holders
    rw [ends]
    exact holders.trans ((writeFile_adds (grows.begins begins) rfl).mono nofun fun _ => id)

end Store

end EntityAtlas
