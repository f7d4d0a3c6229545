import EntityAtlas.Proofs.FaultIsolation
import EntityAtlas.Proofs.NestingForest
import EntityAtlas.Proofs.PackageSpelling
import EntityAtlas.Proofs.SupertypeChoice

/-!
# Locality of scans

Every walk up from an entity looks through all sources. A new file outside the package can still not be seen in what a
scan finds, as long as no link comes by it and none of its types has the name of a type that is extended somewhere.
-/

namespace EntityAtlas

theorem flatMap_filter_of_nil {α β : Type} {l : List α} {kept : α → Bool} {f : α → List β}
    (nothing : ∀ a ∈ l, kept a = false → f a = []) : (l.filter kept).flatMap f = l.flatMap f := by
  induction l with
  | nil => rfl
  | cons a l ih =>
    obtain ⟨here, nothing⟩ := List.forall_mem_cons.mp nothing
    cases keep : kept a with
    | true => rw [List.filter_cons_of_pos keep, List.flatMap_cons, List.flatMap_cons, ih nothing]
    | false => rw [List.filter_cons_of_neg (by simp [keep]), List.flatMap_cons, here keep, ih nothing, List.nil_append]

namespace Store

/-- The places that a file makes which is new at `loc`: its own, and those of the directories that are new with it. -/
def IsNewWith (s : Store) (loc place : List String) : Prop :=
  place <+: loc ∧ s.root.at? place = none

instance (s : Store) (loc : List String) : DecidablePred (s.IsNewWith loc) := fun place =>
  decidable_of_iff (place <+: loc ∧ (s.root.at? place).isNone = true) (by simp [IsNewWith])

/-- A place that is free, below a directory. -/
def IsFree (s : Store) (loc : List String) : Prop :=
  ∃ dir name rest es, loc = dir ++ name :: rest ∧ s.root.at? dir = some (.dir es) ∧ s.root.at? (dir ++ [name]) = none

variable {s : Store} {loc : List String}

theorem IsFree.addsOnly (free : s.IsFree loc) (content : List UInt8) :
    Entry.AddsOnly (s.IsNewWith loc) s.root (s.withFile loc content).root := by
  obtain ⟨dir, name, rest, es, rfl, here, free⟩ := free
  refine ⟨⟨fun place old => ?_, fun place new => new.2⟩, fun place target new isLink => ?_⟩
  · refine Entry.sameKind_insertAt _ here free (fun _ _ => rfl) ?_
    rw [Option.isSome_iff_ne_none, ← not_and_or, and_comm]
    exact old
  · obtain ⟨more, is⟩ := new.1
    have there := Entry.at?_insertAt (.file content) (dir ++ name :: rest) s.root
    cases more with
    | nil =>
      rw [List.append_nil] at is
      subst is
      cases isLink.symm.trans there
    | cons n more =>
      rw [← is] at there
      obtain ⟨es', isDir⟩ := Entry.exists_dir_above there
      rw [withFile, ← is] at isLink
      cases isLink.symm.trans isDir

theorem IsFree.grows (free : s.IsFree loc) (content : List UInt8) :
    Entry.Grows [loc] s.root (s.withFile loc content).root := by
  obtain ⟨dir, name, rest, es, rfl, here, free⟩ := free
  exact Entry.grows_insertFile here free content

theorem IsFree.at?_eq_none (free : s.IsFree loc) : s.root.at? loc = none := by
  obtain ⟨dir, name, rest, es, rfl, -, free⟩ := free
  exact Entry.at?_eq_none_of_prefix free ⟨rest, by simp⟩

theorem IsFree.sound (free : s.IsFree loc) (sound : s.Sound) (isNames : ∀ n ∈ loc, Entry.IsName n)
    (content : List UInt8) : (s.withFile loc content).Sound := by
  obtain ⟨dir, name, rest, es, rfl, -⟩ := free
  cases dir with
  | nil => exact sound.withFile isNames content
  | cons n dir => exact sound.withFile isNames content

/-- Below a directory whose links do not come by a new file, every path of an entry is read as before. -/
theorem IsFree.readText_below (free : s.IsFree loc) (sound : s.Sound) (isNames : ∀ n ∈ loc, Entry.IsName n)
    (content : List UInt8) {dir : Path} {here : List String} {es : List (String × Entry)}
    (found : s.locate dir = .ok (.present here)) (isDir : s.root.at? here = some (.dir es))
    (avoids : s.Avoids here (s.IsNewWith loc)) {names : List String} (nonempty : names ≠ []) {e : Entry}
    (there : s.root.at? (here ++ names) = some e) :
    (s.withFile loc content).readText (dir.below names) = s.readText (dir.below names) := by
  have adds := (free.addsOnly content).toSameBut
  have located := locate_below_eq sound (free.sound sound isNames content) rfl adds found isDir avoids nonempty there
  refine readText_eq located fun place leads => ?_
  obtain ⟨e', present⟩ := exists_at?_of_locate_below sound found isDir nonempty there leads
  have old : place ≠ loc := by
    rintro rfl
    cases present.symm.trans free.at?_eq_none
  refine ⟨adds.same place fun new => ?_, (free.grows content).files place (by simpa using old)⟩
  rw [new.2] at present
  cases present

/-- The walk finds a new file under its own path only. -/
theorem IsFree.locate_below (free : s.IsFree loc) (sound : s.Sound) (isNames : ∀ n ∈ loc, Entry.IsName n)
    (content : List UInt8) {dir : Path} {here : List String} {es' : List (String × Entry)} {ending : String}
    (found : (s.withFile loc content).locate dir = .ok (.present here))
    (isDir : (s.withFile loc content).root.at? here = some (.dir es')) {names : List String}
    (is : (s.withFile loc content).IsSource ending dir (.dir es') names) (new : s.IsNewWith loc (here ++ names))
    {place : Place} (located : (s.withFile loc content).locate (dir.below names) = .ok place) :
    place = .present loc := by
  have kinds := is.2
  simp only [Entry.at?_of_at? isDir] at kinds
  rcases kinds with ⟨content', there⟩ | ⟨⟨target, isLink⟩, -⟩
  · obtain ⟨more, longer⟩ := new.1
    cases more with
    | nil =>
      rw [← longer, List.append_nil]
      exact place_of_locate_file (free.sound sound isNames content) found isDir there located
    | cons n more =>
      -- what holds the new file is a directory
      have at_loc : (s.withFile loc content).root.at? loc = some (.file content) := Entry.at?_insertAt _ _ _
      rw [← longer] at at_loc
      obtain ⟨es, isDir'⟩ := Entry.exists_dir_above at_loc
      rw [longer] at isDir'
      cases there.symm.trans isDir'
  · exact absurd isLink ((free.addsOnly content).linkless _ target new)

end Store

/-- The directory of a package goes down from the source directory. -/
theorem Package.exists_directory_eq (sources : Path) (package : String) :
    ∃ names, Path.AreNames names ∧ directory sources package = sources.below names :=
  ⟨segments package, areNames_segments package, directory_eq sources package⟩

/-- Where the directory of a package is found, the source directory is found too. -/
theorem Collector.exists_locate_sources (c : Collector) {s : Store} {package : String} {here : List String}
    {es : List (String × Entry)} (found : s.locate (c.directory package) = .ok (.present here))
    (isDir : s.root.at? here = some (.dir es)) (nulFree : Store.hasNul (c.directory package) = false) :
    Store.hasNul c.sources = false ∧
      ∃ front es, s.locate c.sources = .ok (.present front) ∧ s.root.at? front = some (.dir es) := by
  obtain ⟨names, areNames, is⟩ := Package.exists_directory_eq c.sources package
  rw [show c.directory package = c.sources.below names from is] at found nulFree
  constructor
  · rw [Store.hasNul, Store.parts_below areNames, List.any_append, Bool.or_eq_false_iff] at nulFree
    exact nulFree.1
  · cases names with
    | nil =>
      rw [Path.below_nil] at found
      exact ⟨here, es, found, isDir⟩
    | cons name names =>
      obtain ⟨isPart, up⟩ := areNames name List.mem_cons_self
      have stay : name ≠ "." := by
        rintro rfl
        exact absurd isPart.1 (by decide)
      rw [Store.locate, Store.parts_below areNames] at found
      obtain ⟨front, es, leads, isDir⟩ := (Store.locateFrom_eq_ok_iff.mp found).exists_front up stay
      exact ⟨front, es, Store.locateFrom_eq_ok_iff.mpr leads, isDir⟩

namespace Collector

variable (c : Collector) {s : Store} {package : String} {loc : List String}

theorem fault_listing_of_entities {entities : List Placed} (scans : (c.entities s package).value = .ok entities) :
    (c.listing s package).fault = none := by
  rw [value_entities, value_extract] at scans
  cases listed : (c.listing s package).fault with
  | none => rfl
  | some f =>
    rw [listed] at scans
    cases scans

/-- What is declared in a file is read from the bytes at the place that its path leads to. -/
theorem exists_of_mem_declaredIn {f : Path} {p : Placed} (mem : p ∈ c.declaredIn s f) :
    ∃ place content cs outline, s.locate f = .ok (.present place) ∧ s.root.at? place = some (.file content) ∧
      Text.Utf8.decode content = .ok cs ∧
      Java.Outline.ofSource c.parser c.level (some f.text) (Text.Utf8.unifyLineEnds cs) = .ok outline ∧
      p ∈ outline.unit.walk f.text := by
  rw [declaredIn_eq, Store.readText] at mem
  cases bytes : s.readBytes f with
  | error fault => simp [bytes] at mem
  | ok content =>
    cases decoded : Text.Utf8.decode content with
    | error malformed => simp [bytes, decoded] at mem
    | ok cs =>
      simp only [bytes, decoded] at mem
      cases read : Java.Outline.ofSource c.parser c.level (some f.text) (Text.Utf8.unifyLineEnds cs) with
      | error refusal => simp [read] at mem
      | ok outline =>
        rw [read] at mem
        obtain ⟨-, place, located, there⟩ := Store.exists_of_readBytes bytes
        exact ⟨place, content, cs, outline, located, there, decoded, read, mem⟩

section NewFile

variable (sound : s.Sound) (free : s.IsFree loc) (isNames : ∀ n ∈ loc, Entry.IsName n) (content : List UInt8)
  (nulFree : Store.hasNul (c.directory package) = false) {here : List String}
  {es : List (String × Entry)} (found : s.locate (c.directory package) = .ok (.present here))
  (isDir : s.root.at? here = some (.dir es)) (avoids : s.Avoids here (s.IsNewWith loc))

include sound free isNames nulFree found isDir avoids

/-- A new file adds to a scan, if anything, a stretch of its own. -/
theorem exists_rows_withFile :
    ((c.listing (s.withFile loc content) package).fault = none ↔ (c.listing s package).fault = none) ∧
      ((c.listing s package).fault = none → ∃ rows rows' : List (List String),
        c.declaredBelow s package =
          rows.flatMap (fun names => c.declaredIn (s.withFile loc content) ((c.directory package).below names)) ∧
        c.declaredBelow (s.withFile loc content) package =
          rows'.flatMap (fun names => c.declaredIn (s.withFile loc content) ((c.directory package).below names)) ∧
        rows = rows'.filter (fun names => ¬ s.IsNewWith loc (here ++ names)) ∧
        ∀ names ∈ rows', s.IsNewWith loc (here ++ names) →
          ∀ p ∈ c.declaredIn (s.withFile loc content) ((c.directory package).below names),
            (s.withFile loc content).locate ((c.directory package).below names) = .ok (.present loc)) := by
  have sound' := free.sound sound isNames content
  have adds := free.addsOnly content
  have cwd : (s.withFile loc content).cwd = s.cwd := rfl
  obtain ⟨found', -⟩ := Store.locate_dir cwd adds.keeps found isDir
  have agree := Store.linksAgree_of_avoids sound sound' cwd adds found isDir avoids
  obtain ⟨fault, walks⟩ := Store.findFiles_of_addsOnly sound sound' cwd adds found isDir agree c.ending nulFree
  refine ⟨fault, fun listed => ?_⟩
  obtain ⟨rows, rows', files, files', same, are, es', isDir', are'⟩ := walks listed
  refine ⟨rows, rows', ?_, ?_, same, fun names mem new p among => ?_⟩
  · rw [declaredBelow, listing, files, List.flatMap_map]
    refine List.flatMap_congr fun names mem => ?_
    have is := are names mem
    obtain ⟨name, rest, -, isCons, -⟩ := is.exists_cons
    obtain ⟨e, there⟩ := is.exists_at?
    rw [Entry.at?_of_at? isDir] at there
    rw [declaredIn_eq, declaredIn_eq,
      free.readText_below sound isNames content found isDir avoids (by simp [isCons]) there]
  · rw [declaredBelow, listing, files', List.flatMap_map]
  · obtain ⟨place, -, -, -, located, -⟩ := c.exists_of_mem_declaredIn among
    rw [located, free.locate_below sound isNames content found' isDir' (are' names mem) new located]

/-- What is not looked for among the declarations of the new file is found as before. -/
theorem filter_declaredBelow_withFile (listed : (c.listing s package).fault = none) {wanted : Placed → Bool}
    (unwanted : ∀ f, (s.withFile loc content).locate f = .ok (.present loc) →
      ∀ p ∈ c.declaredIn (s.withFile loc content) f, wanted p = false) :
    (c.declaredBelow (s.withFile loc content) package).filter wanted = (c.declaredBelow s package).filter wanted := by
  obtain ⟨-, walks⟩ :=
    c.exists_rows_withFile sound free isNames content nulFree found isDir avoids
  obtain ⟨rows, rows', is, is', same, own⟩ := walks listed
  rw [is, is', same, List.filter_flatMap, List.filter_flatMap]
  refine (flatMap_filter_of_nil fun names mem new => ?_).symm
  refine List.filter_eq_nil_iff.mpr fun p among => ?_
  have new : s.IsNewWith loc (here ++ names) := by simpa using new
  simp [unwanted _ (own names mem new p among) p among]

/-- A new file outside adds nothing. -/
theorem declaredBelow_withFile (listed : (c.listing s package).fault = none) (outside : ¬ here <+: loc) :
    c.declaredBelow (s.withFile loc content) package = c.declaredBelow s package := by
  obtain ⟨-, walks⟩ :=
    c.exists_rows_withFile sound free isNames content nulFree found isDir avoids
  obtain ⟨rows, rows', is, is', same, -⟩ := walks listed
  rw [is, is', same, List.filter_eq_self.mpr fun names _ => ?_]
  simpa using fun new : s.IsNewWith loc (here ++ names) => outside ((List.prefix_append here names).trans new.1)

end NewFile

end Collector

theorem find?_eq_of_filter {α : Type} {l l' : List α} {kept wanted : α → Bool} (same : l'.filter kept = l.filter kept)
    (imp : ∀ a ∈ l, wanted a = true → kept a = true) (imp' : ∀ a ∈ l', wanted a = true → kept a = true) :
    l'.find? wanted = l.find? wanted := by
  have through (l : List α) (imp : ∀ a ∈ l, wanted a = true → kept a = true) :
      l.find? wanted = (l.filter kept).find? wanted := by
    rw [List.find?_filter]
    refine List.find?_congr fun a mem => ?_
    cases wants : wanted a with
    | true => simp [imp a mem wants]
    | false => simp
  rw [through l imp, through l' imp', same]

namespace Supertype

/-- What the usual chain finds for a reference depends on the declarations with the simple name only. -/
theorem Chain.found_congr {c : Collector} {package : String} {s s' : Store} {d : Decl}
    (fault : (c.listing s' "").fault = none ↔ (c.listing s "").fault = none)
    (same : (c.listing s "").fault = none → ∀ ref ∈ d.supertype?,
      (c.declared s').filter (fun p => p.decl.name == ref.simpleName) =
        (c.declared s).filter fun p => p.decl.name == ref.simpleName) :
    (standard c package).found s' d = (standard c package).found s d := by
  cases listed : (c.listing s "").fault with
  | some f =>
    have listed' : ∃ f', (c.listing s' "").fault = some f' := by
      refine Option.ne_none_iff_exists'.mp fun listed' => ?_
      cases listed.symm.trans (fault.mp listed')
    obtain ⟨f', listed'⟩ := listed'
    rw [found_of_fault (c := standard c package) listed', found_of_fault (c := standard c package) listed]
  | none =>
    have listed' := fault.mpr listed
    cases extended : d.supertype? with
    | none => simp only [found, extended, Option.bind_none]
    | some ref =>
      rw [found_standard_eq package extended, found_standard_eq package extended]
      have same := same listed ref (by simp [extended])
      rw [found_of_stages listed' extended [] (by simp), found_of_stages listed extended [] (by simp)]
      refine congrArg₂ Option.or ?_ ?_
      · cases states : Stage.stated? ref d with
        | none => simp only [Option.bind_none]
        | some name =>
          have named (s : Store) (p : Placed) (mem : p ∈ c.declared s) (is : (p.decl.qualifiedName == name) = true) :
              (p.decl.name == ref.simpleName) = true := by
            rw [← Stage.lastPiece_stated? states, ← beq_iff_eq.mp is,
              Decl.lastPiece_qualifiedName (c.isSegment_of_mem_declaredBelow s mem).2]
            exact beq_self_eq_true _
          simp only [Option.bind_some, Collector.named?, listed, listed']
          exact find?_eq_of_filter same (named s) (named s')
      · rw [besideOrFirst, besideOrFirst]
        have beside (p : Placed) (is : isBeside d ref.simpleName p = true) : (p.decl.name == ref.simpleName) = true :=
          (Bool.and_eq_true_iff.mp is).1
        refine congrArg₂ Option.or ?_ ?_
        · exact find?_eq_of_filter same (fun p _ => beside p) fun p _ => beside p
        · exact find?_eq_of_filter same (fun _ _ => id) fun _ _ => id

end Supertype

namespace Nesting

variable {n : Nesting} {s s' : Store}

theorem ancestor?_congr {d : Decl}
    (same : ∀ i e, n.ancestor? s d i = some e → n.parent? s' e = n.parent? s e) (i : Nat) :
    n.ancestor? s' d i = n.ancestor? s d i := by
  induction i with
  | zero => rfl
  | succ i ih =>
    rw [ancestor?, ancestor?, ih]
    exact Option.bind_congr fun e reached => same i e reached

/-- The columns of a declaration depend on its chain of supertypes only. -/
theorem columns_congr (contained : n.chain.Contained s) (contained' : n.chain.Contained s') {d : Decl}
    (same : ∀ i e, n.ancestor? s d i = some e → n.parent? s' e = n.parent? s e) :
    (n.columns s' d).value = (n.columns s d).value := by
  obtain ⟨stretch, lineage, -, columns, -⟩ := exists_lineage contained d
  obtain ⟨stretch', lineage', -, columns', -⟩ := exists_lineage contained' d
  have lineage'' : n.IsLineage s d stretch' := by
    have chain := ancestor?_congr same
    refine ⟨fun i inside => ?_, lineage'.distinct, fun e beyond => ?_⟩
    · rw [lineage'.follows i inside, chain]
    · exact lineage'.longest e ((chain _).trans beyond)
  rw [columns, columns', lineage.unique lineage'']

/-- A scan depends on the entities of the package and their columns only. -/
theorem scan_congr (entities : (n.collector.entities s' n.package).value = (n.collector.entities s n.package).value)
    (columns : ∀ es, (n.collector.entities s n.package).value = .ok es →
      ∀ p ∈ es, (n.columns s' p.decl).value = (n.columns s p.decl).value) :
    (n.scan s').value = (n.scan s).value := by
  have all (es : List Placed) (same : ∀ p ∈ es, (n.columns s' p.decl).value = (n.columns s p.decl).value) :
      (n.allColumns s' (n.heightBound s') es).value = (n.allColumns s (n.heightBound s) es).value := by
    induction es with
    | nil => simp only [allColumns, Logged.value_pure]
    | cons p es ih =>
      obtain ⟨first, others⟩ := List.forall_mem_cons.mp same
      simp only [Nesting.columns] at first
      simp only [allColumns, Logged.value_bind, first]
      cases (n.columnsFrom s p.decl (n.heightBound s) [] p.decl).value with
      | error f => simp only [Logged.value_pure]
      | ok own => simp only [Logged.value_bind, Logged.value_pure, ih others]
  simp only [scan, Logged.value_bind, entities]
  cases found : (n.collector.entities s n.package).value with
  | error e => simp only [Logged.value_pure]
  | ok es =>
    simp only [Logged.value_bind, all es (columns es found)]

/-- A declaration further up is declared in the sources. -/
theorem mem_declared_of_ancestor? (contained : n.chain.Contained s) {d e : Decl} {i : Nat}
    (reached : n.ancestor? s d i = some e) : e = d ∨ ∃ p ∈ n.chain.collector.declared s, p.decl = e := by
  cases i with
  | zero => exact .inl (Option.some.inj reached).symm
  | succ i =>
    obtain ⟨below, -, next⟩ := Option.bind_eq_some_iff.mp reached
    rw [(value_supertype_eq contained below).2] at next
    obtain ⟨p, finds, is⟩ := Option.map_eq_some_iff.mp next
    exact .inr ⟨p, Supertype.Chain.mem_declared_of_found finds, is⟩

/-- A scan that succeeds gives the same in another store that has the entities of the package, and the declarations with
the names that are extended somewhere. -/
theorem scan_eq_of_declared {c : Collector} {package : String} {s s' : Store} {scan : Scan}
    (succeeds : ((standard package c).scan s).value = .ok scan)
    (same_entities : (c.entities s' (Package.normalize package)).value =
      (c.entities s (Package.normalize package)).value)
    (fault : (c.listing s' "").fault = none ↔ (c.listing s "").fault = none)
    (same : (c.listing s "").fault = none → ∀ d ∈ c.declared s ++ c.declaredBelow s (Package.normalize package),
      ∀ ref ∈ d.decl.supertype?, (c.declared s').filter (fun p => p.decl.name == ref.simpleName) =
        (c.declared s).filter fun p => p.decl.name == ref.simpleName) :
    ((standard package c).scan s').value = .ok scan := by
  obtain ⟨entities, scans⟩ := exists_entities succeeds
  have contained (s : Store) : (standard package c).chain.Contained s :=
    Supertype.Chain.contained_standard c (Package.normalize package) s
  rw [← succeeds]
  refine scan_congr same_entities fun es is p mem => ?_
  obtain rfl : es = entities := Except.ok.inj (is.symm.trans scans)
  refine columns_congr (contained _) (contained _) fun i e reached => ?_
  -- whatever is met on the way up is declared in the package or in the sources
  have among : ∃ q ∈ c.declared s ++ c.declaredBelow s (Package.normalize package), q.decl = e := by
    rcases mem_declared_of_ancestor? (contained s) reached with rfl | ⟨q, declared, rfl⟩
    · rw [Collector.value_entities_eq_ok _ scans] at mem
      exact ⟨p, List.mem_append_right _ (List.mem_filter.mp mem).1, rfl⟩
    · exact ⟨q, List.mem_append_left _ declared, rfl⟩
  obtain ⟨q, among, rfl⟩ := among
  rw [(value_supertype_eq (contained _) q.decl).2, (value_supertype_eq (contained _) q.decl).2]
  exact congrArg _ (Supertype.Chain.found_congr fault fun listed ref extended => same listed q among ref extended)

/-- A new file at a free place that a scan has nothing to do with: it is not below the directory of the package, no link
of the sources comes by it or by the directories that are new with it, and no type that is declared in it has the simple
name of a type that a declaration of the sources extends. -/
structure IsForeign (n : Nesting) (s : Store) (loc : List String) (content : List UInt8) : Prop where
  free : s.IsFree loc
  isNames : ∀ name ∈ loc, Entry.IsName name
  outside : ∀ here, s.locate (n.collector.directory n.package) = .ok (.present here) → ¬ here <+: loc
  avoided : ∀ dir ∈ [n.collector.sources, n.collector.directory n.package], ∀ here,
    s.locate dir = .ok (.present here) → s.Avoids here (s.IsNewWith loc)
  unnamed : ∀ cs file outline, Text.Utf8.decode content = .ok cs →
    Java.Outline.ofSource n.collector.parser n.collector.level (some file) (Text.Utf8.unifyLineEnds cs) = .ok outline →
      ∀ p ∈ outline.unit.walk file, ∀ d ∈ n.collector.declared s ++ n.collector.declaredBelow s n.package,
        ∀ ref ∈ d.decl.supertype?, p.decl.name ≠ ref.simpleName

section Foreign

variable {c : Collector} {package : String} {loc : List String} {content : List UInt8}

/-- In the sources as a whole, types with a name that is extended are found as before. -/
theorem IsForeign.declared_eq (foreign : (Nesting.standard package c).IsForeign s loc content) (sound : s.Sound)
    (listed : (c.listing s (Package.normalize package)).fault = none) :
    ((c.listing (s.withFile loc content) "").fault = none ↔ (c.listing s "").fault = none) ∧
      ((c.listing s "").fault = none → ∀ d ∈ c.declared s ++ c.declaredBelow s (Package.normalize package),
        ∀ ref ∈ d.decl.supertype?,
          (c.declared (s.withFile loc content)).filter (fun p => p.decl.name == ref.simpleName) =
            (c.declared s).filter fun p => p.decl.name == ref.simpleName) := by
  obtain ⟨nulFree, es, found⟩ := Store.exists_of_fault_findFiles listed
  obtain ⟨here, found, isDir⟩ := Store.entry?_eq_ok_some.mp found
  obtain ⟨nulFree, front, es, found, isDir⟩ := c.exists_locate_sources found isDir nulFree
  have whole : c.directory "" = c.sources := rfl
  have avoids : s.Avoids front (s.IsNewWith loc) := foreign.avoided c.sources List.mem_cons_self front found
  rw [← whole] at nulFree found
  obtain ⟨fault, -⟩ :=
    c.exists_rows_withFile sound foreign.free foreign.isNames content nulFree found isDir avoids
  refine ⟨fault, fun listed d mem ref extended => ?_⟩
  refine c.filter_declaredBelow_withFile sound foreign.free foreign.isNames content nulFree found isDir avoids
    listed fun f leads p among => ?_
  obtain ⟨place, bytes, cs, outline, located, there, decoded, read, walked⟩ := c.exists_of_mem_declaredIn among
  obtain rfl : place = loc := Store.Place.present.inj (Except.ok.inj (located.symm.trans leads))
  obtain rfl : content = bytes := by simpa [Store.withFile, Entry.at?_insertAt] using there
  exact beq_eq_false_iff_ne.mpr (foreign.unnamed cs f.text outline decoded read p walked d mem ref extended)

/-- In the package nothing changes. -/
theorem IsForeign.entities_eq (foreign : (Nesting.standard package c).IsForeign s loc content) (sound : s.Sound)
    (listed : (c.listing s (Package.normalize package)).fault = none) :
    (c.entities (s.withFile loc content) (Package.normalize package)).value =
      (c.entities s (Package.normalize package)).value := by
  obtain ⟨nulFree, es, found⟩ := Store.exists_of_fault_findFiles listed
  obtain ⟨here, found, isDir⟩ := Store.entry?_eq_ok_some.mp found
  have avoids : s.Avoids here (s.IsNewWith loc) :=
    foreign.avoided (c.directory (Package.normalize package)) (by simp [Nesting.standard]) here found
  obtain ⟨fault, -⟩ :=
    c.exists_rows_withFile sound foreign.free foreign.isNames content nulFree found isDir avoids
  have declared := c.declaredBelow_withFile sound foreign.free foreign.isNames content nulFree found isDir avoids
    listed (foreign.outside here found)
  rw [Collector.value_entities, Collector.value_entities, Collector.value_extract, Collector.value_extract,
    fault.mpr listed, listed, declared]

end Foreign

/-- A class and an entity that extends it, in a directory of their own. -/
def smallSources : Store where
  root := .dir [("p", .dir [("A.java",
    .file (Text.Utf8.encode "package p; class B { @Column int x; } @Table class A extends B { }".toList))])]
  cwd := []

theorem sound_smallSources : smallSources.Sound where
  tree := .dir (by decide) (by simpa using by decide)
    (by simpa using .dir (by decide) (by simpa using by decide) (by simpa using .file _))
  isDir := rfl

/-- A class in another package, with one inside it. -/
def stranger : List UInt8 := Text.Utf8.encode "package q; class Z { class Y { } }".toList

theorem names_stranger (file : String) :
    ((Java.Outline.ofTree true (some file) (.ofSource "package q; class Z { class Y { } }".toList)).unit.walk file).map
      (·.decl.name) = ["Z", "Y"] := by
  rfl

theorem isForeign_stranger :
    (Nesting.standard "p" (.standard .here .java17)).IsForeign smallSources ["q", "Z.java"] stranger where
  free := ⟨[], "q", ["Z.java"], _, rfl, rfl, rfl⟩
  isNames := by decide
  outside here found := by
    have package : smallSources.locate (Package.directory .here (Package.normalize "p")) = .ok (.present ["p"]) := by
      decide +kernel
    obtain rfl : ["p"] = here := Store.Place.present.inj (Except.ok.inj (package.symm.trans found))
    decide
  avoided _ _ _ _ _ _ _ isLink := by cases Entry.isLinkFree_of_at? (by decide) isLink
  unnamed cs file outline decoded read p mem d among ref extended := by
    have text : Text.Utf8.decode stranger = .ok "package q; class Z { class Y { } }".toList := by decide +kernel
    have heirs : ∀ d ∈ (Collector.standard .here .java17).declared smallSources ++
        (Collector.standard .here .java17).declaredBelow smallSources (Package.normalize "p"),
          ∀ ref ∈ d.decl.supertype?, ref.simpleName = "B" := by
      decide +kernel
    obtain rfl := Except.ok.inj (text.symm.trans decoded)
    obtain rfl := Except.ok.inj read
    have named : p.decl.name ∈ ["Z", "Y"] := names_stranger file ▸ List.mem_map_of_mem mem
    rw [heirs d among ref extended]
    rintro same
    rw [same] at named
    exact absurd named (by decide)

end Nesting

end EntityAtlas
