import EntityAtlas.Proofs.Undisturbed

/-!
# Walks that are alike

A walk goes by the kinds of the entries, by their names and by what the links lead to. So two trees that agree in these
make for the same walk, fault and all. What is in one of them only makes no difference if it adds nothing to a walk: if
its name has another ending, and it is no link that is in the way.
-/

namespace EntityAtlas.Store

variable (s s' : Store) (ending : String)

theorem walkEach_eq_map (dir : Path) (es : List (String × Entry)) :
    s.walkEach ending dir es = es.map fun p => (p.1, s.walkEntry ending dir p.1 p.2) := by
  induction es with
  | nil => rfl
  | cons p es ih => rw [walkEach, ih, List.map_cons]

/-- An entry at a path that adds nothing of its own to a walk, though there may be something inside it. -/
structure AddsNothing (p : Path) (e : Entry) : Prop where
  other : (∀ es, e ≠ .dir es) → Text.endsWith (p.parts.getLastD "") ending = false
  settled : ∀ target, e = .link target → ∀ b, s.entry? p = .error b → b = .missing

/-- Two trees at a path, in two stores, that make for the same walk. The second one has all that the first one has, file
contents apart, and whatever else it has adds nothing; the links that are in both lead to a file in both or in none, and
are blocked alike. -/
structure WalksAlike (p : Path) (e e' : Entry) : Prop where
  keeps : Entry.Keeps e e'
  links : ∀ names target, e.at? names = some (.link target) →
    ∀ shown, s'.isRegularFile (p.below names) shown = s.isRegularFile (p.below names) shown
  others : ∀ names c, e.at? names = none → e'.at? names = some c → s'.AddsNothing ending (p.below names) c

variable {s s' ending}

theorem WalksAlike.child {p : Path} {es es' : List (String × Entry)} {name : String} {e : Entry}
    (alike : s.WalksAlike s' ending p (.dir es) (.dir es')) (child : es.lookup name = some e) :
    ∃ e', es'.lookup name = some e' ∧ s.WalksAlike s' ending (p.below [name]) e e' := by
  have inside (names : List String) : (Entry.dir es).at? (name :: names) = e.at? names := by
    rw [Entry.at?, Entry.child?, Entry.entries, child]
    rfl
  obtain ⟨e', there, -⟩ := alike.keeps [name] e (inside [])
  obtain ⟨c, child', is⟩ := Option.bind_eq_some_iff.mp there
  obtain rfl := Option.some.inj is
  have inside' (names : List String) : (Entry.dir es').at? (name :: names) = c.at? names := by
    rw [Entry.at?, child']
    rfl
  refine ⟨c, child', fun names d there => ?_, fun names target there => ?_, fun names d missing there => ?_⟩
  · simpa only [inside'] using alike.keeps (name :: names) d ((inside names).trans there)
  · rw [← below_cons]
    exact alike.links (name :: names) target ((inside names).trans there)
  · rw [← below_cons]
    exact alike.others (name :: names) d ((inside names).trans missing) ((inside' names).trans there)

theorem concat_filter (walks : List Listing) :
    Listing.concat (walks.filter (· ≠ .empty)) = Listing.concat walks := by
  induction walks with
  | nil => rfl
  | cons walk walks ih =>
    by_cases nothing : walk = .empty
    · subst nothing
      rw [List.filter_cons_of_neg (by simp), ih]
      rfl
    · rw [List.filter_cons_of_pos (by simpa using nothing)]
      exact congrArg walk.append ih

/-- Walks in the order of their names come to the same when they differ in empty ones only. -/
theorem concat_inNameOrder_congr {walks walks' : List (String × Listing)} (distinct : (walks.map Prod.fst).Nodup)
    (distinct' : (walks'.map Prod.fst).Nodup) (kept : ∀ w ∈ walks, w ∈ walks')
    (fresh : ∀ w ∈ walks', w ∈ walks ∨ w.2 = .empty) :
    Listing.concat ((inNameOrder walks').map (·.2)) = Listing.concat ((inNameOrder walks).map (·.2)) := by
  have irrefl : Std.Irrefl fun w w' : String × Listing => w.1 < w'.1 := ⟨fun _ => lt_irrefl _⟩
  have asymm : Std.Asymm fun w w' : String × Listing => w.1 < w'.1 := ⟨fun _ _ => lt_asymm⟩
  have perm : (inNameOrder walks).Perm walks := List.mergeSort_perm walks _
  have perm' : (inNameOrder walks').Perm walks' := List.mergeSort_perm walks' _
  rw [← concat_filter, ← concat_filter ((inNameOrder walks).map _), List.filter_map, List.filter_map]
  congr 2
  -- both are in the order of their names, so that they are told by their members
  refine ((List.pairwise_map.mp (pairwise_inNameOrder distinct')).filter _).eq_of_mem_iff
    ((List.pairwise_map.mp (pairwise_inNameOrder distinct)).filter _) fun w => ?_
  rw [List.mem_filter, List.mem_filter, perm.mem_iff, perm'.mem_iff]
  refine and_congr_left fun nonempty => ⟨fun mem => (fresh w mem).resolve_right ?_, kept w⟩
  simpa using nonempty

theorem AddsNothing.candidate_eq {dir : Path} {name : String} (isName : Entry.IsName name) {e : Entry}
    (nothing : s.AddsNothing ending (dir.below [name]) e) (leaf : ∀ es, e ≠ .dir es) :
    candidate ending dir name = .empty := by
  have other : Text.endsWith name ending = false := by
    simpa [parts_below_singleton dir isName] using nothing.other leaf
  rw [candidate, other]
  rfl

/-- Where nothing is added by an entry or inside it, the walk below the entry is empty. -/
theorem walkEntry_eq_empty {e : Entry} (sound : e.Sound) {dir : Path} {name : String} (isName : Entry.IsName name)
    (nothing : ∀ names c, e.at? names = some c → s.AddsNothing ending ((dir.below [name]).below names) c) :
    s.walkEntry ending dir name e = .empty := by
  have here := nothing [] e rfl
  rw [Path.below_nil] at here
  induction sound generalizing dir name with
  | file content => exact here.candidate_eq isName (by simp)
  | link target =>
    rw [walkEntry, linked, isRegularFile, ofString_entryText dir isName]
    cases found : s.entry? (dir.below [name]) with
    | error b =>
      obtain rfl := here.settled target rfl b found
      rfl
    | ok e =>
      dsimp only
      cases e.any Entry.isFile with
      | false => rfl
      | true => exact here.candidate_eq isName (by simp)
  | @dir es distinct names inside ih =>
    have empty : ∀ w ∈ s.walkEach ending (dir.below [name]) es, w.2 = .empty := by
      rw [walkEach_eq_map]
      refine List.forall_mem_map.mpr fun p mem => ?_
      have below (l : List String) (c : Entry) (there : p.2.at? l = some c) :
          s.AddsNothing ending (((dir.below [name]).below [p.1]).below l) c := by
        rw [← below_cons]
        refine nothing (p.1 :: l) c ?_
        rw [Entry.at?, Entry.child?, Entry.entries, lookup_of_mem distinct mem]
        exact there
      have first := below [] p.2 rfl
      rw [Path.below_nil] at first
      exact ih p mem (names p mem) below first
    have perm : (inNameOrder (s.walkEach ending (dir.below [name]) es)).Perm _ := List.mergeSort_perm _ _
    have nothing : ((inNameOrder (s.walkEach ending (dir.below [name]) es)).map (·.2)).filter (· ≠ .empty) = [] :=
      List.filter_eq_nil_iff.mpr (List.forall_mem_map.mpr fun w mem => by simp [empty w (perm.mem_iff.mp mem)])
    rw [walkEntry, ofString_entryText dir isName, ← concat_filter, nothing]
    rfl

/-- The walks below the entries of two directories are alike if those below entries of one name are. -/
theorem concat_walkEach_congr {dir : Path} {es es' : List (String × Entry)} (sound : (Entry.dir es).Sound)
    (sound' : (Entry.dir es').Sound) (alike : s.WalksAlike s' ending dir (.dir es) (.dir es'))
    (each : ∀ name e e', es.lookup name = some e → es'.lookup name = some e' →
      s'.walkEntry ending dir name e' = s.walkEntry ending dir name e) :
    Listing.concat ((inNameOrder (s'.walkEach ending dir es')).map (·.2)) =
      Listing.concat ((inNameOrder (s.walkEach ending dir es)).map (·.2)) := by
  cases sound with | dir distinct names inside => ?_
  cases sound' with | dir distinct' names' inside' => ?_
  refine concat_inNameOrder_congr (by rwa [names_walkEach]) (by rwa [names_walkEach]) (fun w mem => ?_) fun w mem => ?_
  · rw [walkEach_eq_map] at mem ⊢
    obtain ⟨⟨name, e⟩, among, rfl⟩ := List.mem_map.mp mem
    have child := lookup_of_mem distinct among
    obtain ⟨e', child', -⟩ := alike.child child
    exact List.mem_map.mpr ⟨(name, e'), mem_of_lookup child', by rw [each name e e' child child']⟩
  · rw [walkEach_eq_map] at mem ⊢
    obtain ⟨⟨name, e'⟩, among, rfl⟩ := List.mem_map.mp mem
    have child' := lookup_of_mem distinct' among
    cases child : es.lookup name with
    | some e =>
      exact .inl (List.mem_map.mpr ⟨(name, e), mem_of_lookup child, by rw [each name e e' child child']⟩)
    | none =>
      refine .inr (walkEntry_eq_empty (inside' _ among) (names' _ among) fun l c there => ?_)
      rw [← below_cons]
      refine alike.others (name :: l) c ?_ ?_
      · rw [Entry.at?, Entry.child?, Entry.entries, child]
        rfl
      · rw [Entry.at?, Entry.child?, Entry.entries, child']
        exact there

/-- Trees that make for the same walk are walked alike. -/
theorem walkEntry_congr {e : Entry} (sound : e.Sound) {e' : Entry} (sound' : e'.Sound) (dir : Path) {name : String}
    (isName : Entry.IsName name) (alike : s.WalksAlike s' ending (dir.below [name]) e e') :
    s'.walkEntry ending dir name e' = s.walkEntry ending dir name e := by
  induction sound generalizing e' dir name with
  | file content =>
    obtain ⟨c, is, same⟩ := alike.keeps [] _ rfl
    obtain rfl := Option.some.inj is
    cases same
    rfl
  | link target =>
    obtain ⟨c, is, same⟩ := alike.keeps [] _ rfl
    obtain rfl := Option.some.inj is
    cases same
    have leads := alike.links [] target rfl
    rw [Path.below_nil, ← ofString_entryText dir isName] at leads
    rw [walkEntry, walkEntry, linked, linked, leads]
  | @dir es distinct names inside ih =>
    obtain ⟨c, is, same⟩ := alike.keeps [] _ rfl
    obtain rfl := Option.some.inj is
    cases same with | dir _ es' => ?_
    rw [walkEntry, walkEntry, ofString_entryText dir isName]
    refine concat_walkEach_congr (.dir distinct names inside) sound' alike fun n e e' child child' => ?_
    obtain ⟨_, child'', alike⟩ := alike.child child
    obtain rfl := Option.some.inj (child'.symm.trans child'')
    exact ih (n, e) (mem_of_lookup child) (sound'.child? child') _ (names _ (mem_of_lookup child)) alike

/-- Where a path leads to the same place, and to the same kind of entry, it is a file in both stores or in none. -/
theorem isRegularFile_congr {p : Path} (located : s'.locate p = s.locate p)
    (same : ∀ loc, s.locate p = .ok (.present loc) → Entry.SameKind (s.root.at? loc) (s'.root.at? loc))
    (shown : String) : s'.isRegularFile p shown = s.isRegularFile p shown := by
  rw [isRegularFile, isRegularFile, entry?, entry?, located]
  cases found : s.locate p with
  | error b => rfl
  | ok place =>
    cases place with
    | absent => rfl
    | present loc =>
      have same := same loc found
      simp only [Except.map]
      generalize s.root.at? loc = e, s'.root.at? loc = e' at same
      cases same with
      | none => rfl
      | some alike => cases alike <;> rfl

/-- The same for directories. -/
theorem isDirectory_congr {p : Path} (located : s'.locate p = s.locate p)
    (same : ∀ loc, s.locate p = .ok (.present loc) → Entry.SameKind (s.root.at? loc) (s'.root.at? loc)) :
    s'.isDirectory p = s.isDirectory p := by
  rw [isDirectory, isDirectory, entry?, entry?, located]
  cases found : s.locate p with
  | error b => rfl
  | ok place =>
    cases place with
    | absent => rfl
    | present loc =>
      have same := same loc found
      simp only [Except.map]
      generalize s.root.at? loc = e, s'.root.at? loc = e' at same
      cases same with
      | none => rfl
      | some alike => cases alike <;> rfl

/-- Walks below a path in two stores are alike if the path denotes a directory in both or in none, and if the trees
there, if they are directories, make for the same walk. -/
theorem findFiles_congr (sound : s.Sound) (sound' : s'.Sound) {dir : Path}
    (same : s'.isDirectory dir = s.isDirectory dir)
    (alike : ∀ here here' es es', s.locate dir = .ok (.present here) → s.root.at? here = some (.dir es) →
      s'.locate dir = .ok (.present here') → s'.root.at? here' = some (.dir es') →
        s.WalksAlike s' ending dir (.dir es) (.dir es')) :
    s'.findFiles ending dir = s.findFiles ending dir := by
  rw [findFiles, findFiles, same]
  cases is : s.isDirectory dir with
  | error f => rfl
  | ok b =>
    cases b with
    | false => rfl
    | true =>
      obtain ⟨-, es, found⟩ := isDirectory_eq_true_iff.mp is
      obtain ⟨-, es', found'⟩ := isDirectory_eq_true_iff.mp (same.trans is)
      obtain ⟨here, leads, there⟩ := entry?_eq_ok_some.mp found
      obtain ⟨here', leads', there'⟩ := entry?_eq_ok_some.mp found'
      have alike := alike here here' es es' leads there leads' there'
      have sound := sound.tree.at? there
      have sound' := sound'.tree.at? there'
      rw [found, found']
      refine concat_walkEach_congr sound sound' alike fun name e e' child child' => ?_
      obtain ⟨_, child'', alike⟩ := alike.child child
      obtain rfl := Option.some.inj (child'.symm.trans child'')
      have isName : Entry.IsName name := by
        cases sound with | dir distinct names inside => exact names _ (mem_of_lookup child)
      exact walkEntry_congr (sound.child? child) (sound'.child? child') dir isName alike

/-- File contents apart, and the order in which directories hold their entries, a walk is told by what is where. -/
theorem findFiles_of_sameKind (sound : s.Sound) (sound' : s'.Sound) (cwd : s'.cwd = s.cwd)
    (same : ∀ loc, Entry.SameKind (s.root.at? loc) (s'.root.at? loc)) (dir : Path) :
    s'.findFiles ending dir = s.findFiles ending dir := by
  have located (p : Path) : s'.locate p = s.locate p := by
    rw [locate, locate, start, start, cwd]
    exact (locateFrom_congr fun place _ => same place).symm
  refine findFiles_congr sound sound' (isDirectory_congr (located dir) fun loc _ => same loc) ?_
  intro here here' es es' leads there leads' there'
  obtain rfl : here = here' := Place.present.inj (Except.ok.inj (leads.symm.trans ((located dir).symm.trans leads')))
  have inside (names : List String) : Entry.SameKind ((Entry.dir es).at? names) ((Entry.dir es').at? names) := by
    rw [Entry.at?_of_at? there, Entry.at?_of_at? there']
    exact same _
  refine ⟨fun names c is => ?_, fun names target _ => isRegularFile_congr (located _) fun loc _ => same loc,
    fun names c missing is => ?_⟩
  · have same := inside names
    rw [is] at same
    generalize (Entry.dir es').at? names = other at same ⊢
    cases same with | some alike => exact ⟨_, rfl, alike⟩
  · have same := inside names
    rw [missing, is] at same
    cases same

end EntityAtlas.Store
