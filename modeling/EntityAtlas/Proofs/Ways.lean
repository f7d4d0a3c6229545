import EntityAtlas.Proofs.Additions
import Mathlib.Data.Option.Basic

/-!
# Ways of paths

What a path leads to depends only on the places that it comes by. Below a directory that a path leads to, names go down
from entry to entry, so that at most the last of them, when it is a link, leads elsewhere.
-/

namespace EntityAtlas

namespace Entry

theorem at?_insertAt_of_apart (new : Entry) {loc l : List String} (outside : ¬ loc <+: l) (aside : ¬ l <+: loc)
    (e : Entry) : (insertAt new loc e).at? l = e.at? l := by
  induction loc generalizing l e with
  | nil => exact absurd List.nil_prefix outside
  | cons name loc ih =>
    cases l with
    | nil => exact absurd List.nil_prefix aside
    | cons n l =>
      rw [insertAt, at?_put]
      split
      · rename_i same
        subst same
        have outside' : ¬ loc <+: l := fun longer => outside (List.cons_prefix_cons.mpr ⟨rfl, longer⟩)
        have aside' : ¬ l <+: loc := fun shorter => aside (List.cons_prefix_cons.mpr ⟨rfl, shorter⟩)
        rw [ih outside' aside', at?]
        cases child : e.child? n with
        | some c => rfl
        | none =>
          cases l with
          | nil => exact absurd List.nil_prefix aside'
          | cons => rfl
      · rfl

theorem at?_insertAt_append (new : Entry) (loc l : List String) (e : Entry) :
    (insertAt new loc e).at? (loc ++ l) = new.at? l := by
  rw [at?_append, at?_insertAt]
  rfl

/-- What holds an entry, at any depth, is a directory. -/
theorem exists_dir_above {e c : Entry} {l : List String} {name : String} {rest : List String}
    (there : e.at? (l ++ name :: rest) = some c) : ∃ es, e.at? l = some (.dir es) := by
  rw [List.append_cons, at?_append] at there
  obtain ⟨d, found, -⟩ := Option.bind_eq_some_iff.mp there
  exact exists_dir found

/-- The same kind of entry in two trees, or in both of them nothing. -/
abbrev SameKind : Option Entry → Option Entry → Prop := Option.Rel Alike

theorem SameKind.refl (e : Option Entry) : SameKind e e := by
  cases e with
  | none => exact .none
  | some e => exact .some (.refl e)

theorem SameKind.of_eq {e e' : Option Entry} (same : e = e') : SameKind e e' := same ▸ .refl e

/-- Where an entry is missing, everything further down is missing too. -/
theorem at?_eq_none_of_prefix {e : Entry} {l m : List String} (missing : e.at? l = none) (longer : l <+: m) :
    e.at? m = none := by
  obtain ⟨rest, rfl⟩ := longer
  rw [at?_append, missing]
  rfl

section NewFile

variable {e : Entry} {dir rest : List String} {name : String} {es : List (String × Entry)}

/-- An entry that holds none, put at a free place, in new directories perhaps, leaves the kind of what is there, and
adds nothing but itself and the new directories. -/
theorem sameKind_insertAt (rest : List String) (here : e.at? dir = some (.dir es))
    (free : e.at? (dir ++ [name]) = none) {new : Entry} (leaf : ∀ n l, new.at? (n :: l) = none) {l : List String}
    (old : (e.at? l).isSome ∨ ¬ l <+: dir ++ name :: rest) :
    SameKind (e.at? l) ((insertAt new (dir ++ name :: rest) e).at? l) := by
  by_cases onWay : l <+: dir ++ name :: rest
  · -- what is there holds the free place
    have short : l <+: dir := by
      rcases List.prefix_or_prefix_of_prefix onWay (List.prefix_append dir _) with short | ⟨more, rfl⟩
      · exact short
      · cases more with
        | nil => simp
        | cons n more =>
          obtain ⟨rfl, -⟩ := List.cons_prefix_cons.mp ((List.prefix_append_right_inj dir).mp onWay)
          have missing := at?_eq_none_of_prefix free (m := dir ++ n :: more) ⟨more, by simp⟩
          simp [missing, onWay] at old
    obtain ⟨more, rfl⟩ := short
    have there := at?_insertAt new (l ++ more ++ name :: rest) e
    have isDir : (∃ es', e.at? l = some (.dir es')) ∧
        ∃ es', (insertAt new (l ++ more ++ name :: rest) e).at? l = some (.dir es') := by
      rw [List.append_assoc] at there ⊢
      cases more with
      | nil => exact ⟨⟨es, List.append_nil l ▸ here⟩, exists_dir_above there⟩
      | cons n more => exact ⟨exists_dir_above here, exists_dir_above there⟩
    obtain ⟨⟨es', isDir⟩, es'', isDir'⟩ := isDir
    rw [isDir, isDir']
    exact .some (.dir _ _)
  · by_cases beyond : dir ++ name :: rest <+: l
    · obtain ⟨more, rfl⟩ := beyond
      rw [at?_insertAt_append, at?_eq_none_of_prefix free ⟨rest ++ more, by simp⟩]
      cases more with
      | nil => simp at onWay
      | cons n more =>
        rw [leaf]
        exact .none
    · exact .of_eq (at?_insertAt_of_apart _ beyond onWay e).symm

theorem grows_insertFile (here : e.at? dir = some (.dir es)) (free : e.at? (dir ++ [name]) = none)
    (content : List UInt8) :
    Grows [dir ++ name :: rest] e (insertAt (.file content) (dir ++ name :: rest) e) where
  kept l c there := by
    have leaf (n : String) (l : List String) : (Entry.file content).at? (n :: l) = none := rfl
    have same := sameKind_insertAt rest here free leaf (l := l) (.inl (by simp [there]))
    rw [there] at same
    generalize (insertAt (.file content) (dir ++ name :: rest) e).at? l = other at same ⊢
    cases same with
    | some alike => exact ⟨_, rfl, alike⟩
  files l elsewhere content' := by
    have other : l ≠ dir ++ name :: rest := fun same => elsewhere (List.mem_singleton.mpr same)
    by_cases onWay : l <+: dir ++ name :: rest
    · -- a directory in the new tree, and no file in the old one
      obtain ⟨more, is⟩ := onWay
      have there := at?_insertAt (.file content) (dir ++ name :: rest) e
      obtain ⟨es', isDir⟩ : ∃ es', (insertAt (.file content) (dir ++ name :: rest) e).at? l = some (.dir es') := by
        cases more with
        | nil => exact absurd (List.append_nil l ▸ is) other
        | cons n more => exact exists_dir_above ((congrArg _ is).trans there)
      rw [isDir]
      refine ⟨nofun, fun isFile => ?_⟩
      have leaf (n : String) (l : List String) : (Entry.file content).at? (n :: l) = none := rfl
      have same := sameKind_insertAt rest here free leaf (l := l) (.inl (by simp [isFile]))
      rw [isFile, isDir] at same
      cases same with
      | some alike => cases alike
    · by_cases beyond : dir ++ name :: rest <+: l
      · obtain ⟨more, rfl⟩ := beyond
        rw [at?_insertAt_append, at?_eq_none_of_prefix free ⟨rest ++ more, by simp⟩]
        cases more with
        | nil => simp at other
        | cons => exact ⟨nofun, nofun⟩
      · rw [at?_insertAt_of_apart _ beyond onWay]

end NewFile

end Entry

namespace Store

/-- Components, followed from the directory at `here` over fewer links than `links`, come by a place: they ask what is
there. -/
inductive Visits (root : Entry) : (links : Nat) → (parts here : List String) → (place : List String) → Prop where
  | here {links : Nat} {name : String} {rest here : List String} (plain : IsPlain name) :
    Visits root (links + 1) (name :: rest) here (here ++ [name])
  | up {links : Nat} {rest here place : List String} (onward : Visits root (links + 1) rest here.dropLast place) :
    Visits root (links + 1) (".." :: rest) here place
  | stay {links : Nat} {rest here place : List String} (onward : Visits root (links + 1) rest here place) :
    Visits root (links + 1) ("." :: rest) here place
  | down {links : Nat} {name : String} {rest here place : List String} {es : List (String × Entry)}
    (plain : IsPlain name) (there : root.at? (here ++ [name]) = some (.dir es))
    (onward : Visits root (links + 1) rest (here ++ [name]) place) : Visits root (links + 1) (name :: rest) here place
  | link {links : Nat} {name target : String} {rest here place : List String} (plain : IsPlain name)
    (there : root.at? (here ++ [name]) = some (.link target))
    (onward : Visits root links (targetParts target ++ rest) (if Text.startsWith target "/" then [] else here) place) :
    Visits root (links + 1) (name :: rest) here place

variable {root root' : Entry}

/-- Two trees that agree on the way lead to the same place, or are blocked alike. -/
theorem locateFrom_congr {links : Nat} {parts here : List String}
    (same : ∀ place, Visits root links parts here place → Entry.SameKind (root.at? place) (root'.at? place)) :
    locateFrom root links parts here = locateFrom root' links parts here := by
  -- a link puts other components in front, so that only the number of links gets smaller
  induction links generalizing parts here with
  | zero => rfl
  | succ links ihLinks =>
    rw [locateFrom, locateFrom]
    induction parts generalizing here with
    | nil => rfl
    | cons name rest ih =>
      by_cases up : name = ".."
      · subst up
        exact ih fun place visits => same place (.up visits)
      by_cases stay : name = "."
      · subst stay
        exact ih fun place visits => same place (.stay visits)
      by_cases short : name.utf8ByteSize ≤ maxName
      · have plain : IsPlain name := ⟨up, stay, short⟩
        have agree := same _ (.here plain)
        simp only [advance, beq_iff_eq, up, stay, Nat.not_lt.mpr short, if_false]
        cases there : root.at? (here ++ [name]) with
        | none =>
          rw [there] at agree
          generalize root'.at? (here ++ [name]) = other at agree
          cases agree
          rfl
        | some e =>
          rw [there] at agree
          generalize root'.at? (here ++ [name]) = other at agree
          cases agree with
          | some alike =>
            cases alike with
            | file => rfl
            | link target => exact ihLinks fun place visits => same place (.link plain there visits)
            | dir => exact ih fun place visits => same place (.down plain there visits)
      · simp only [advance, beq_iff_eq, up, stay, Nat.not_le.mp short, if_true, if_false]

theorem locateFrom_down {links : Nat} {name : String} {rest here : List String} {es : List (String × Entry)}
    (plain : IsPlain name) (there : root.at? (here ++ [name]) = some (.dir es)) :
    locateFrom root (links + 1) (name :: rest) here = locateFrom root (links + 1) rest (here ++ [name]) := by
  simp [locateFrom, advance, plain.up, plain.stay, Nat.not_lt.mpr plain.short, there]

theorem locateFrom_link {links : Nat} {name target : String} {rest here : List String} (plain : IsPlain name)
    (there : root.at? (here ++ [name]) = some (.link target)) :
    locateFrom root (links + 1) (name :: rest) here =
      locateFrom root links (targetParts target ++ rest) (if Text.startsWith target "/" then [] else here) := by
  simp [locateFrom, advance, plain.up, plain.stay, Nat.not_lt.mpr plain.short, there]

/-- Where components lead to a directory, they lead there also before others, in every tree that keeps what is there. -/
theorem exists_locateFrom_append {links : Nat} {parts start here : List String} {es : List (String × Entry)}
    (leads : Leads root links parts start (.present here)) (isDir : root.at? here = some (.dir es)) :
    ∃ left < links, ∀ root', Entry.Keeps root root' → ∀ more,
      locateFrom root' links (parts ++ more) start = locateFrom root' (left + 1) more here := by
  generalize is : Place.present here = place at leads
  induction leads with
  | @arrive links =>
    obtain rfl := Place.present.inj is
    exact ⟨links, Nat.lt_succ_self links, fun _ _ _ => rfl⟩
  | up _ ih => exact ih is
  | stay _ ih => exact ih is
  | down plain there _ ih =>
    obtain ⟨left, fewer, onward⟩ := ih is
    refine ⟨left, fewer, fun root' keeps more => ?_⟩
    obtain ⟨c, there', alike⟩ := keeps _ _ there
    cases alike
    exact (locateFrom_down plain there').trans (onward root' keeps more)
  | file _ there =>
    -- a directory is no file
    obtain rfl := Place.present.inj is
    cases there.symm.trans isDir
  | free => cases is
  | link plain there _ ih =>
    obtain ⟨left, fewer, onward⟩ := ih is
    refine ⟨left, Nat.lt_succ_of_lt fewer, fun root' keeps more => ?_⟩
    obtain ⟨c, there', alike⟩ := keeps _ _ there
    cases alike
    rw [List.cons_append, locateFrom_link plain there', ← List.append_assoc]
    exact onward root' keeps more

/-- Names that go down to an entry pass through the directories that hold it, unless one of them is too long. -/
theorem locateFrom_names {links : Nat} {names here : List String} {name : String} {e : Entry}
    (isNames : ∀ n ∈ names, Entry.IsName n) (there : root.at? (here ++ names ++ [name]) = some e) :
    locateFrom root (links + 1) (names ++ [name]) here =
      if ∀ n ∈ names, n.utf8ByteSize ≤ maxName then locateFrom root (links + 1) [name] (here ++ names)
      else .error .nameTooLong := by
  induction names generalizing here with
  | nil => simp
  | cons n names ih =>
    obtain ⟨isName, isNames⟩ := List.forall_mem_cons.mp isNames
    have there' : root.at? (here ++ [n] ++ names ++ [name]) = some e := by simpa using there
    obtain ⟨es, isDir⟩ : ∃ es, root.at? (here ++ [n]) = some (.dir es) := by
      rw [List.append_assoc] at there'
      cases names with
      | nil => exact Entry.exists_dir_above there'
      | cons m names => exact Entry.exists_dir_above there'
    have stay : n ≠ "." := by
      rintro rfl
      exact absurd isName.1.1 (by decide)
    by_cases short : n.utf8ByteSize ≤ maxName
    · rw [List.cons_append, locateFrom_down ⟨isName.2, stay, short⟩ isDir, ih isNames there']
      simp [short]
    · simp [locateFrom, advance, isName.2, stay, Nat.not_le.mp short, short]

/-- Below a directory that a path leads to, an entry is found by the names that go down to it. Only what its own name
leads to is left open, in every tree that keeps what is there. -/
theorem exists_locate_below {s : Store} {dir : Path} {here : List String} {es : List (String × Entry)}
    (found : s.locate dir = .ok (.present here)) (isDir : s.root.at? here = some (.dir es)) :
    ∃ left ≤ maxLinks, ∀ s' : Store, s'.root.Sound → s'.cwd = s.cwd → Entry.Keeps s.root s'.root → ∀ names name e,
      s'.root.at? (here ++ names ++ [name]) = some e →
        s'.locate (dir.below (names ++ [name])) =
          if ∀ n ∈ names, n.utf8ByteSize ≤ maxName then locateFrom s'.root (left + 1) [name] (here ++ names)
          else .error .nameTooLong := by
  obtain ⟨left, fewer, onward⟩ := exists_locateFrom_append (locateFrom_eq_ok_iff.mp found) isDir
  refine ⟨left, Nat.le_of_lt_succ fewer, fun s' sound cwd keeps names name e there => ?_⟩
  have areNames : ∀ n ∈ names ++ [name], Entry.IsName n := fun n mem =>
    sound.isName_of_at? there n (List.append_assoc .. ▸ List.mem_append_right here mem)
  have start : s'.start (dir.below (names ++ [name])) = s.start dir := by
    rw [start, start, cwd]
    rfl
  rw [locate, start, parts_below areNames]
  exact (onward s'.root keeps _).trans (locateFrom_names (List.forall_mem_append.mp areNames).1 there)

/-- On the way to an entry a path leads to the directory in front of each name. -/
theorem Leads.exists_front {links : Nat} {parts names start here : List String} {name : String} (up : name ≠ "..")
    (stay : name ≠ ".") (leads : Leads root links (parts ++ name :: names) start (.present here)) :
    ∃ front es, Leads root links parts start (.present front) ∧ root.at? front = some (.dir es) := by
  generalize whole : parts ++ name :: names = all, is : Place.present here = place at leads
  induction leads generalizing parts with
  | arrive => simp at whole
  | up _ ih =>
    cases parts with
    | nil => exact absurd (List.cons.inj whole).1 up
    | cons part parts =>
      obtain ⟨rfl, onward⟩ := List.cons.inj whole
      obtain ⟨front, es, leads, isDir⟩ := ih onward is
      exact ⟨front, es, .up leads, isDir⟩
  | stay _ ih =>
    cases parts with
    | nil => exact absurd (List.cons.inj whole).1 stay
    | cons part parts =>
      obtain ⟨rfl, onward⟩ := List.cons.inj whole
      obtain ⟨front, es, leads, isDir⟩ := ih onward is
      exact ⟨front, es, .stay leads, isDir⟩
  | down plain there _ ih =>
    cases parts with
    | nil =>
      obtain ⟨es, isDir⟩ := Entry.exists_dir there
      exact ⟨_, es, .arrive, isDir⟩
    | cons part parts =>
      obtain ⟨rfl, onward⟩ := List.cons.inj whole
      obtain ⟨front, es, leads, isDir⟩ := ih onward is
      exact ⟨front, es, .down plain there leads, isDir⟩
  | file plain there =>
    cases parts with
    | nil =>
      obtain ⟨es, isDir⟩ := Entry.exists_dir there
      exact ⟨_, es, .arrive, isDir⟩
    | cons part parts => simp at whole
  | free => cases is
  | @link _ _ target rest _ _ plain there _ ih =>
    cases parts with
    | nil =>
      obtain ⟨es, isDir⟩ := Entry.exists_dir there
      exact ⟨_, es, .arrive, isDir⟩
    | cons part parts =>
      obtain ⟨rfl, onward⟩ := List.cons.inj whole
      obtain ⟨front, es, leads, isDir⟩ := ih ((List.append_assoc ..).trans (congrArg _ onward)) is
      exact ⟨front, es, .link plain there leads, isDir⟩

theorem Leads.more {links : Nat} {parts here : List String} {place : Place} (leads : Leads root links parts here place)
    (k : Nat) : Leads root (k + links) parts here place := by
  induction leads with
  | arrive => exact .arrive
  | up _ ih => exact .up ih
  | stay _ ih => exact .stay ih
  | down plain there _ ih => exact .down plain there ih
  | file plain there => exact .file plain there
  | free plain there => exact .free plain there
  | link plain there _ ih => exact .link plain there ih

/-- Where more links may be followed, the same place is found. -/
theorem locateFrom_mono {links links' : Nat} {parts here : List String} {place : Place} (le : links ≤ links')
    (found : locateFrom root links parts here = .ok place) : locateFrom root links' parts here = .ok place := by
  obtain ⟨k, rfl⟩ := Nat.exists_eq_add_of_le' le
  exact locateFrom_eq_ok_iff.mpr ((locateFrom_eq_ok_iff.mp found).more k)

theorem Visits.more {links : Nat} {parts here place : List String} (visits : Visits root links parts here place)
    (k : Nat) : Visits root (k + links) parts here place := by
  induction visits with
  | here plain => exact .here plain
  | up _ ih => exact .up ih
  | stay _ ih => exact .stay ih
  | down plain there _ ih => exact .down plain there ih
  | link plain there _ ih => exact .link plain there ih

theorem Visits.mono {links links' : Nat} {parts here place : List String} (visits : Visits root links parts here place)
    (le : links ≤ links') : Visits root links' parts here place := by
  obtain ⟨k, rfl⟩ := Nat.exists_eq_add_of_le' le
  exact visits.more k

end Store

end EntityAtlas
