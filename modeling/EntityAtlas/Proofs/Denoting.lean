import EntityAtlas.Proofs.Confinement
import EntityAtlas.Proofs.Ways

/-!
# What paths denote

A path denotes a place also when nothing is there: links are replaced by what they lead to, and a name that is not taken
is gone down to as if a directory had it. Where a way breaks off at a free name, the store does not follow it any
further; it does once the name is taken. What a path denotes stays the same as long as links do.
-/

namespace EntityAtlas

namespace Path

/-- No name is a dot. -/
theorem AreNames.filter_eq {names : List String} (areNames : AreNames names) : names.filter (· ≠ ".") = names :=
  List.filter_eq_self.mpr fun name mem => by
    simpa using fun same : name = "." => absurd (same ▸ (areNames name mem).1.1) (by decide)

end Path

namespace Store

/-- What components point to, from the directory at `here`. -/
inductive PointsTo (root : Entry) : (parts here loc : List String) → Prop where
  | arrive {here : List String} : PointsTo root [] here here
  | up {rest here loc : List String} (onward : PointsTo root rest here.dropLast loc) :
    PointsTo root (".." :: rest) here loc
  | stay {rest here loc : List String} (onward : PointsTo root rest here loc) : PointsTo root ("." :: rest) here loc
  | down {name : String} {rest here loc : List String} (up : name ≠ "..") (stay : name ≠ ".")
    (linkless : ∀ target, root.at? (here ++ [name]) ≠ some (.link target))
    (onward : PointsTo root rest (here ++ [name]) loc) : PointsTo root (name :: rest) here loc
  | link {name target : String} {rest here loc : List String} (up : name ≠ "..") (stay : name ≠ ".")
    (there : root.at? (here ++ [name]) = some (.link target))
    (onward : PointsTo root (targetParts target ++ rest) (if Text.startsWith target "/" then [] else here) loc) :
    PointsTo root (name :: rest) here loc

variable {root root' : Entry}

/-- Where components lead, they point. -/
theorem Leads.pointsTo {links : Nat} {parts here : List String} {place : Place}
    (leads : Leads root links parts here place) : PointsTo root parts here place.loc := by
  induction leads with
  | arrive => exact .arrive
  | up _ ih => exact .up ih
  | stay _ ih => exact .stay ih
  | down plain there _ ih => exact .down plain.up plain.stay (by simp [there]) ih
  | file plain there => exact .down plain.up plain.stay (by simp [there]) .arrive
  | free plain there => exact .down plain.up plain.stay (by simp [there]) .arrive
  | link plain there _ ih => exact .link plain.up plain.stay there ih

theorem PointsTo.of_up {rest here loc : List String} (points : PointsTo root (".." :: rest) here loc) :
    PointsTo root rest here.dropLast loc := by
  generalize whole : ".." :: rest = parts at points
  cases points with
  | arrive => cases whole
  | up onward =>
    obtain ⟨-, rfl⟩ := List.cons.inj whole
    exact onward
  | stay => exact absurd (List.cons.inj whole).1 (by decide)
  | down up => exact absurd (List.cons.inj whole).1.symm up
  | link up => exact absurd (List.cons.inj whole).1.symm up

/-- A name is gone down to, if there is no link. -/
theorem PointsTo.of_name {name : String} {rest here loc : List String} (points : PointsTo root (name :: rest) here loc)
    (up : name ≠ "..") (stay : name ≠ ".") : PointsTo root rest (here ++ [name]) loc ∨
      ∃ target, root.at? (here ++ [name]) = some (.link target) ∧
        PointsTo root (targetParts target ++ rest) (if Text.startsWith target "/" then [] else here) loc := by
  cases points with
  | up => exact absurd rfl up
  | stay => exact absurd rfl stay
  | down _ _ _ onward => exact .inl onward
  | link _ _ there onward => exact .inr ⟨_, there, onward⟩

/-- Only links bear on what components point to. -/
theorem PointsTo.congr (same : ∀ l target, root'.at? l = some (.link target) ↔ root.at? l = some (.link target))
    {parts here loc : List String} (points : PointsTo root parts here loc) : PointsTo root' parts here loc := by
  induction points with
  | arrive => exact .arrive
  | up _ ih => exact .up ih
  | stay _ ih => exact .stay ih
  | down up stay linkless _ ih => exact .down up stay (fun target there => linkless target ((same _ _).mp there)) ih
  | link up stay there _ ih => exact .link up stay ((same _ _).mpr there) ih

theorem PointsTo.append {parts more here mid loc : List String} (first : PointsTo root parts here mid)
    (second : PointsTo root more mid loc) : PointsTo root (parts ++ more) here loc := by
  induction first with
  | arrive => exact second
  | up _ ih => exact .up (ih second)
  | stay _ ih => exact .stay (ih second)
  | down up stay linkless _ ih => exact .down up stay linkless (ih second)
  | link up stay there _ ih => exact .link up stay there (List.append_assoc .. ▸ ih second)

/-- Where there are no links, names point to what they spell out. -/
theorem pointsTo_of_linkless {parts here : List String} (down : ".." ∉ parts)
    (linkless : ∀ l target, here <+: l → l ≠ here → l <+: here ++ parts.filter (· ≠ ".") →
      root.at? l ≠ some (.link target)) :
    PointsTo root parts here (here ++ parts.filter (· ≠ ".")) := by
  induction parts generalizing here with
  | nil => simpa using .arrive
  | cons name parts ih =>
    rw [List.mem_cons, not_or] at down
    by_cases stay : name = "."
    · subst stay
      rw [List.filter_cons_of_neg (by simp)] at linkless ⊢
      exact .stay (ih down.2 linkless)
    · rw [List.filter_cons_of_pos (by simpa using stay), List.append_cons] at linkless ⊢
      have within : here <+: here ++ [name] := List.prefix_append _ _
      refine .down (Ne.symm down.1) stay (fun target => linkless _ target within (by simp) (List.prefix_append _ _)) ?_
      refine ih down.2 fun l target longer other => linkless l target (within.trans longer) ?_
      rintro rfl
      exact absurd longer.length_le (by simp)

/-- So components that do not go up point to a place further down. -/
theorem PointsTo.prefix_loc {parts here loc : List String} (points : PointsTo root parts here loc)
    (down : ".." ∉ parts) (linkless : ∀ l target, here <+: l → l ≠ here → root.at? l ≠ some (.link target)) :
    here <+: loc := by
  induction points with
  | arrive => exact List.prefix_rfl
  | up => exact absurd List.mem_cons_self down
  | stay _ ih => exact ih (fun mem => down (List.mem_cons_of_mem _ mem)) linkless
  | @down name _ here _ _ _ _ _ ih =>
    have within : here <+: here ++ [name] := List.prefix_append _ _
    refine within.trans (ih (fun mem => down (List.mem_cons_of_mem _ mem)) fun l target longer _ => ?_)
    refine linkless l target (within.trans longer) ?_
    rintro rfl
    exact absurd longer.length_le (by simp)
  | @link name _ _ here _ _ _ there => exact absurd there (linkless _ _ (List.prefix_append _ _) (by simp))

/-- Names that go down to an entry point to its place, unless it is a link. -/
theorem pointsTo_of_at? {names here : List String} (isNames : ∀ n ∈ names, Entry.IsName n) {e : Entry}
    (there : root.at? (here ++ names) = some e) (linkless : ∀ target, e ≠ .link target) :
    PointsTo root names here (here ++ names) := by
  have plain : names.filter (· ≠ ".") = names := Path.AreNames.filter_eq isNames
  have way : PointsTo root names here (here ++ names.filter (· ≠ ".")) := by
    refine pointsTo_of_linkless (fun mem => (isNames _ mem).2 rfl) fun l target longer other shorter isLink => ?_
    rw [plain] at shorter
    obtain ⟨more, is⟩ := shorter
    cases more with
    | nil =>
      rw [List.append_nil] at is
      rw [is, there] at isLink
      exact linkless target (Option.some.inj isLink)
    | cons n more =>
      obtain ⟨es, isDir⟩ := Entry.exists_dir_above (is ▸ there)
      cases isLink.symm.trans isDir
  rwa [plain] at way

/-- What a path denotes, with all links followed, whether something is there or not. -/
def Denotes (s : Store) (p : Path) (loc : List String) : Prop :=
  PointsTo s.root p.parts (s.start p) loc

/-- What a path or a target is made of: something between slashes. -/
def IsComponent (part : String) : Prop :=
  part ≠ "" ∧ '/' ∉ part.toList

theorem isComponent_of_mem_targetParts {target part : String} (mem : part ∈ targetParts target) : IsComponent part := by
  rcases List.mem_append.mp mem with mem | mem
  · obtain ⟨piece, nonempty⟩ := List.mem_filter.mp mem
    exact ⟨by simpa using nonempty, Text.not_mem_of_mem_pieces piece⟩
  · split at mem
    · rw [List.mem_singleton.mp mem]
      exact ⟨by decide, by decide⟩
    · cases mem

theorem forall_isComponent_link {name target : String} {rest : List String}
    (all : ∀ part ∈ name :: rest, IsComponent part) : ∀ part ∈ targetParts target ++ rest, IsComponent part := by
  intro part mem
  rcases List.mem_append.mp mem with mem | mem
  · exact isComponent_of_mem_targetParts mem
  · exact all part (List.mem_cons_of_mem _ mem)

/-- The free name that a way leads to is one that an entry can have. -/
theorem Leads.isName {links : Nat} {parts here dir : List String} {name : String}
    (leads : Leads root links parts here (.absent dir name)) (all : ∀ part ∈ parts, IsComponent part) :
    Entry.IsName name := by
  generalize is : Place.absent dir name = place at leads
  induction leads with
  | arrive => cases is
  | up _ ih => exact ih (List.forall_mem_cons.mp all).2 is
  | stay _ ih => exact ih (List.forall_mem_cons.mp all).2 is
  | down _ _ _ ih => exact ih (List.forall_mem_cons.mp all).2 is
  | file => cases is
  | free plain =>
    obtain ⟨-, rfl⟩ := Place.absent.inj is
    obtain ⟨nonempty, slashless⟩ := all name List.mem_cons_self
    exact ⟨⟨by simp [Path.isProper, nonempty, plain.stay], slashless⟩, plain.up⟩
  | link _ _ _ ih => exact ih (forall_isComponent_link all) is

/-- Components, followed from the directory at `here`, come to a free name at `place` with the components `rest` left.
-/
inductive Breaks (root : Entry) : (parts here place rest : List String) → Prop where
  | here {name : String} {rest here : List String} (plain : IsPlain name) (free : root.at? (here ++ [name]) = none) :
    Breaks root (name :: rest) here (here ++ [name]) rest
  | up {parts here place rest : List String} (onward : Breaks root parts here.dropLast place rest) :
    Breaks root (".." :: parts) here place rest
  | stay {parts here place rest : List String} (onward : Breaks root parts here place rest) :
    Breaks root ("." :: parts) here place rest
  | down {name : String} {parts here place rest : List String} {es : List (String × Entry)} (plain : IsPlain name)
    (there : root.at? (here ++ [name]) = some (.dir es)) (onward : Breaks root parts (here ++ [name]) place rest) :
    Breaks root (name :: parts) here place rest
  | link {name target : String} {parts here place rest : List String} (plain : IsPlain name)
    (there : root.at? (here ++ [name]) = some (.link target))
    (onward : Breaks root (targetParts target ++ parts) (if Text.startsWith target "/" then [] else here) place rest) :
    Breaks root (name :: parts) here place rest

theorem Breaks.free {parts here place rest : List String} (breaks : Breaks root parts here place rest) :
    root.at? place = none := by
  induction breaks with
  | here _ free => exact free
  | up _ ih => exact ih
  | stay _ ih => exact ih
  | down _ _ _ ih => exact ih
  | link _ _ _ ih => exact ih

theorem Breaks.of_up {parts here place rest : List String} (breaks : Breaks root (".." :: parts) here place rest) :
    Breaks root parts here.dropLast place rest := by
  generalize whole : ".." :: parts = all at breaks
  cases breaks with
  | here plain => exact absurd (List.cons.inj whole).1.symm plain.up
  | up onward =>
    obtain ⟨-, rfl⟩ := List.cons.inj whole
    exact onward
  | stay => exact absurd (List.cons.inj whole).1 (by decide)
  | down plain => exact absurd (List.cons.inj whole).1.symm plain.up
  | link plain => exact absurd (List.cons.inj whole).1.symm plain.up

theorem Breaks.of_stay {parts here place rest : List String} (breaks : Breaks root ("." :: parts) here place rest) :
    Breaks root parts here place rest := by
  generalize whole : "." :: parts = all at breaks
  cases breaks with
  | here plain => exact absurd (List.cons.inj whole).1.symm plain.stay
  | up => exact absurd (List.cons.inj whole).1 (by decide)
  | stay onward =>
    obtain ⟨-, rfl⟩ := List.cons.inj whole
    exact onward
  | down plain => exact absurd (List.cons.inj whole).1.symm plain.stay
  | link plain => exact absurd (List.cons.inj whole).1.symm plain.stay

/-- A way that leads to an entry does not break off. -/
theorem Leads.not_breaks {links : Nat} {parts here loc place rest : List String}
    (leads : Leads root links parts here (.present loc)) : ¬ Breaks root parts here place rest := by
  generalize is : Place.present loc = found at leads
  intro breaks
  induction leads with
  | arrive => cases breaks
  | up _ ih => exact ih is breaks.of_up
  | stay _ ih => exact ih is breaks.of_stay
  | down plain there _ ih =>
    cases breaks with
    | here _ free => cases there.symm.trans free
    | up => exact plain.up rfl
    | stay => exact plain.stay rfl
    | down _ _ onward => exact ih is onward
    | link _ isLink => cases there.symm.trans isLink
  | file plain there =>
    cases breaks with
    | here _ free => cases there.symm.trans free
    | up => exact plain.up rfl
    | stay => exact plain.stay rfl
    | down _ isDir => cases there.symm.trans isDir
    | link _ isLink => cases there.symm.trans isLink
  | free => cases is
  | link plain there _ ih =>
    cases breaks with
    | here _ free => cases there.symm.trans free
    | up => exact plain.up rfl
    | stay => exact plain.stay rfl
    | down _ isDir => cases there.symm.trans isDir
    | link _ isLink onward =>
      obtain rfl := Entry.link.inj (Option.some.inj (there.symm.trans isLink))
      exact ih is onward

/-- What the rest points to from where a way breaks off, the whole way points to. -/
theorem Breaks.pointsTo {parts here place rest loc : List String} (breaks : Breaks root parts here place rest)
    (points : PointsTo root rest place loc) : PointsTo root parts here loc := by
  induction breaks with
  | here plain free => exact .down plain.up plain.stay (by simp [free]) points
  | up _ ih => exact .up (ih points)
  | stay _ ih => exact .stay (ih points)
  | down plain there _ ih => exact .down plain.up plain.stay (by simp [there]) (ih points)
  | link plain there _ ih => exact .link plain.up plain.stay there (ih points)

/-- What is left where a way breaks off is made of the same. -/
theorem Breaks.isComponent {parts here place rest : List String} (breaks : Breaks root parts here place rest)
    (all : ∀ part ∈ parts, IsComponent part) : ∀ part ∈ rest, IsComponent part := by
  induction breaks with
  | here => exact (List.forall_mem_cons.mp all).2
  | up _ ih => exact ih (List.forall_mem_cons.mp all).2
  | stay _ ih => exact ih (List.forall_mem_cons.mp all).2
  | down _ _ _ ih => exact ih (List.forall_mem_cons.mp all).2
  | link _ _ _ ih => exact ih (forall_isComponent_link all)

/-- A way that comes by a free name breaks off there. In a tree that keeps what is there it goes on from the name. -/
theorem Visits.exists_breaks {links : Nat} {parts here place : List String}
    (visits : Visits root links parts here place) (free : root.at? place = none) :
    ∃ rest, Breaks root parts here place rest ∧ ∃ left dir name, place = dir ++ [name] ∧ IsPlain name ∧
      ∀ root', Entry.Keeps root root' →
        locateFrom root' links parts here = locateFrom root' (left + 1) (name :: rest) dir := by
  induction visits with
  | @here links name rest here plain => exact ⟨rest, .here plain free, links, here, name, rfl, plain, fun _ _ => rfl⟩
  | up _ ih =>
    obtain ⟨rest, breaks, onward⟩ := ih free
    exact ⟨rest, .up breaks, onward⟩
  | stay _ ih =>
    obtain ⟨rest, breaks, onward⟩ := ih free
    exact ⟨rest, .stay breaks, onward⟩
  | down plain there _ ih =>
    obtain ⟨rest, breaks, left, dir, name, is, plain', onward⟩ := ih free
    refine ⟨rest, .down plain there breaks, left, dir, name, is, plain', fun root' keeps => ?_⟩
    obtain ⟨c, there', alike⟩ := keeps _ _ there
    cases alike
    exact (locateFrom_down plain there').trans (onward root' keeps)
  | link plain there _ ih =>
    obtain ⟨rest, breaks, left, dir, name, is, plain', onward⟩ := ih free
    refine ⟨rest, .link plain there breaks, left, dir, name, is, plain', fun root' keeps => ?_⟩
    obtain ⟨c, there', alike⟩ := keeps _ _ there
    cases alike
    exact (locateFrom_link plain there').trans (onward root' keeps)

/-- A way that breaks off nowhere leads to the same in every tree that keeps what is there. -/
theorem locateFrom_of_keeps {links : Nat} {parts here : List String} (keeps : Entry.Keeps root root')
    (whole : ∀ place, Visits root links parts here place → root.at? place ≠ none) :
    locateFrom root' links parts here = locateFrom root links parts here := by
  refine (locateFrom_congr fun place visits => ?_).symm
  cases there : root.at? place with
  | none => exact absurd there (whole place visits)
  | some c =>
    obtain ⟨c', there', alike⟩ := keeps _ _ there
    rw [there']
    exact .some alike

/-- A way that ends at no file and meets no obstacle but a place that is not there. -/
inductive IsIdle (root : Entry) : Except Blocked Place → Prop where
  | missing : IsIdle root (.error .missing)
  | free (dir : List String) (name : String) : IsIdle root (.ok (.absent dir name))
  | dir {loc : List String} {es : List (String × Entry)} (there : root.at? loc = some (.dir es)) :
    IsIdle root (.ok (.present loc))

theorem isIdle_of_missing {links : Nat} {dir : List String} {name : String} (plain : IsPlain name)
    (missing : root.at? (dir ++ [name]) = none) (rest : List String) :
    IsIdle root (locateFrom root (links + 1) (name :: rest) dir) := by
  cases rest with
  | nil => simpa [locateFrom, advance, plain.up, plain.stay, Nat.not_lt.mpr plain.short, missing] using .free dir name
  | cons => simpa [locateFrom, advance, plain.up, plain.stay, Nat.not_lt.mpr plain.short, missing] using .missing

/-- Where nothing but directories came to be on the way from a free name, the way stays idle. The induction is on the
components that are left; each of them that is no dot goes down by one name. -/
theorem isIdle_of_down {links : Nat} {rest dir : List String} {name : String} (plain : IsPlain name)
    (down : ∀ part ∈ rest, part ≠ ".." ∧ part.utf8ByteSize ≤ maxName)
    (grown : ∀ l, dir ++ [name] <+: l → l <+: dir ++ [name] ++ rest.filter (· ≠ ".") →
      root.at? l = none ∨ ∃ es, root.at? l = some (.dir es)) :
    IsIdle root (locateFrom root (links + 1) (name :: rest) dir) := by
  have step := grown (dir ++ [name]) List.prefix_rfl (List.prefix_append _ _)
  induction rest generalizing dir name with
  | nil =>
    rcases step with missing | ⟨es, there⟩
    · exact isIdle_of_missing plain missing []
    · simpa [locateFrom_down plain there] using .dir there
  | cons part rest ih =>
    obtain ⟨⟨up, short⟩, rest_down⟩ := List.forall_mem_cons.mp down
    rcases step with missing | ⟨es, there⟩
    · exact isIdle_of_missing plain missing _
    · rw [locateFrom_down plain there]
      by_cases stay : part = "."
      · rw [stay, List.filter_cons_of_neg (by simp)] at grown
        have same := ih plain rest_down grown (.inr ⟨es, there⟩)
        rw [locateFrom_down plain there] at same
        simpa [stay, locateFrom, advance] using same
      · have is : dir ++ [name] ++ (part :: rest).filter (· ≠ ".") =
            dir ++ [name] ++ [part] ++ rest.filter (· ≠ ".") := by
          simp [List.filter_cons_of_pos, stay]
        rw [is] at grown
        refine ih ⟨up, stay, short⟩ rest_down (fun l longer => grown l ((List.prefix_append _ _).trans longer)) ?_
        exact grown _ (List.prefix_append _ _) (List.prefix_append _ _)

/-- A path whose way is idle denotes no entry, or a directory. -/
theorem IsIdle.entry?_eq {s : Store} {p : Path} (idle : IsIdle s.root (s.locate p)) :
    s.entry? p = .error .missing ∨ s.entry? p = .ok none ∨ ∃ es, s.entry? p = .ok (some (.dir es)) := by
  unfold entry?
  generalize s.locate p = located at idle
  cases idle with
  | missing => exact .inl rfl
  | free dir name => exact .inr (.inl rfl)
  | @dir loc es there => exact .inr (.inr ⟨es, congrArg Except.ok there⟩)

theorem IsIdle.isRegularFile_eq {s : Store} {p : Path} (idle : IsIdle s.root (s.locate p)) (shown : String) :
    s.isRegularFile p shown = .ok false := by
  rcases idle.entry?_eq with missing | free | ⟨es, isDir⟩
  · simp [isRegularFile, missing]
  · simp [isRegularFile, free]
  · simp [isRegularFile, isDir, Entry.isFile]

theorem IsIdle.not_isFile {s : Store} {p : Path} (idle : IsIdle s.root (s.locate p)) :
    ¬ ∃ content, s.entry? p = .ok (some (.file content)) := by
  rintro ⟨content, isFile⟩
  rcases idle.entry?_eq with missing | free | ⟨es, isDir⟩
  · cases isFile.symm.trans missing
  · cases isFile.symm.trans free
  · cases isFile.symm.trans isDir

end Store

end EntityAtlas
