import EntityAtlas.Proofs.Ancestry
import EntityAtlas.Proofs.FamilyGraph
import EntityAtlas.Proofs.Listing

/-!
# The nesting forest

Entities are found file by file, and within a file each before those inside it. An entity that is declared directly
inside another one is found as well, so the graph that links every entity to the entities directly inside it has just
the entities that were found for its nodes, and it is a forest.
-/

namespace EntityAtlas

namespace Collector

variable (c : Collector) {s : Store} {package : String}

theorem file_of_mem_declaredIn {f : Path} {p : Placed} (mem : p ∈ c.declaredIn s f) : p.file = f.text := by
  rw [value_declarationsIn] at mem
  cases reads : (c.readUnit s f).value with
  | none => simp [reads] at mem
  | some u =>
    simp only [reads, Option.map_some, Option.getD_some] at mem
    exact (Placed.trail_of_mem_ofItems mem).1

theorem nodup_trails_declaredIn (f : Path) : ((c.declaredIn s f).map Placed.trail).Nodup := by
  rw [value_declarationsIn]
  cases (c.readUnit s f).value with
  | none => exact List.nodup_nil
  | some u => exact Placed.nodup_trails _ _ _ _

/-- What stands directly inside a find is found as well. -/
theorem mem_declaredBelow_of_mem_children {p child : Placed} (mem : p ∈ c.declaredBelow s package)
    (inside : child ∈ p.children) : child ∈ c.declaredBelow s package := by
  obtain ⟨f, listed, mem⟩ := List.mem_flatMap.mp mem
  refine List.mem_flatMap.mpr ⟨f, listed, ?_⟩
  rw [value_declarationsIn] at mem ⊢
  cases reads : (c.readUnit s f).value with
  | none => simp [reads] at mem
  | some u =>
    simp only [reads, Option.map_some, Option.getD_some] at mem ⊢
    exact Placed.mem_ofItems_of_mem_children mem inside

/-- Two finds at one place are the same. -/
theorem eq_of_place (sound : s.Sound) {p q : Placed} (mem : p ∈ c.declaredBelow s package)
    (mem' : q ∈ c.declaredBelow s package) (file : p.file = q.file) (trail : p.trail = q.trail) : p = q := by
  obtain ⟨f, listed, mem⟩ := List.mem_flatMap.mp mem
  obtain ⟨f', listed', mem'⟩ := List.mem_flatMap.mp mem'
  rw [file_of_mem_declaredIn c mem, file_of_mem_declaredIn c mem'] at file
  obtain rfl := List.inj_on_of_nodup_map (Store.nodup_findFiles sound _ _) listed listed' file
  exact List.inj_on_of_nodup_map (nodup_trails_declaredIn c f) mem mem' trail

theorem nodup_declaredBelow (sound : s.Sound) : (c.declaredBelow s package).Nodup := by
  refine List.nodup_flatMap.mpr ⟨fun f _ => .of_map _ (nodup_trails_declaredIn c f), ?_⟩
  refine (List.pairwise_map.mp (Store.nodup_findFiles sound c.ending (c.directory package))).imp ?_
  intro f f' different p mem mem'
  exact different ((file_of_mem_declaredIn c mem).symm.trans (file_of_mem_declaredIn c mem'))

/-- The entities directly inside a declaration. -/
def entitiesIn (p : Placed) : List Placed :=
  p.children.filter fun child => c.isEntity child.decl

theorem value_entities_eq_ok {entities : List Placed} (scans : (c.entities s package).value = .ok entities) :
    entities = (c.declaredBelow s package).filter fun p => c.isEntity p.decl := by
  rw [value_entities, value_extract] at scans
  split at scans
  · exact (Except.ok.inj scans).symm
  · cases scans

theorem mem_entitiesIn {entities : List Placed} (scans : (c.entities s package).value = .ok entities) {p : Placed}
    (mem : p ∈ entities) (q : Placed) : q ∈ c.entitiesIn p ↔ q ∈ entities ∧ q ∈ p.children := by
  rw [value_entities_eq_ok c scans] at mem ⊢
  simp only [entitiesIn, List.mem_filter]
  constructor
  · rintro ⟨inside, isEntity⟩
    exact ⟨⟨mem_declaredBelow_of_mem_children c (List.mem_filter.mp mem).1 inside, isEntity⟩, inside⟩
  · rintro ⟨⟨-, isEntity⟩, inside⟩
    exact ⟨inside, isEntity⟩

/-- The entities of a package and those directly inside them are a forest. -/
theorem isForest (sound : s.Sound) {entities : List Placed} (scans : (c.entities s package).value = .ok entities) :
    Digraph.IsForest c.entitiesIn (fun p => p.trail.length) entities where
  nodup := value_entities_eq_ok c scans ▸ (nodup_declaredBelow c sound).filter _
  distinct p _ := (Placed.nodup_children p).filter _
  closed p mem q inside := ((mem_entitiesIn c scans mem q).mp inside).1
  unique p mem q mem' child inside inside' := by
    obtain ⟨file, i, trail⟩ := Placed.place_of_mem_children (List.mem_filter.mp inside).1
    obtain ⟨file', i', trail'⟩ := Placed.place_of_mem_children (List.mem_filter.mp inside').1
    rw [value_entities_eq_ok c scans] at mem mem'
    refine eq_of_place c sound (List.mem_filter.mp mem).1 (List.mem_filter.mp mem').1 (file.symm.trans file') ?_
    exact (List.append_inj' (trail.symm.trans trail') rfl).1
  deeper p child inside := by
    obtain ⟨-, i, trail⟩ := Placed.place_of_mem_children (List.mem_filter.mp inside).1
    simp [trail]

end Collector

namespace Nesting

variable {n : Nesting} {s : Store}

/-- The graph of entities holds them and those directly inside them. -/
theorem holds_entities {entities : List Placed} (nodup : entities.Nodup) :
    (entities.foldl (addEntity n.collector) .empty).Holds n.collector.entitiesIn entities := by
  exact (Digraph.holds_empty n.collector.entitiesIn).foldl (fun p => (Placed.nodup_children p).filter _) nodup

/-- The columns of entities are found one after another. -/
theorem value_allColumns (contained : n.chain.Contained s) (entities : List Placed) :
    ∃ columns, (n.allColumns s (n.heightBound s) entities).value = .ok columns ∧
      columns.map Prod.fst = entities ∧ ∀ e ∈ columns, (n.columns s e.1.decl).value = .ok e.2 := by
  induction entities with
  | nil => exact ⟨[], rfl, rfl, by simp⟩
  | cons p entities ih =>
    obtain ⟨columns, others, names, each⟩ := ih
    obtain ⟨stretch, -, -, own, -⟩ := exists_lineage contained p.decl
    refine ⟨(p, stretch.flatMap n.collector.columns) :: columns, ?_, by simp [names], fun e mem => ?_⟩
    · have own : (n.columnsFrom s p.decl (n.heightBound s) [] p.decl).value = _ := own
      simp [allColumns, own, others, Except.map]
    · rcases List.mem_cons.mp mem with rfl | mem
      · exact own
      · exact each e mem

/-- A scan of a package whose entities can be listed gives a graph of them and their columns. -/
theorem exists_scan (contained : n.chain.Contained s) (sound : s.Sound) {entities : List Placed}
    (scans : (n.collector.entities s n.package).value = .ok entities) :
    ∃ scan, (n.scan s).value = .ok scan ∧ scan.graph.Holds n.collector.entitiesIn entities ∧
      scan.columns.map Prod.fst = entities ∧ ∀ e ∈ scan.columns, (n.columns s e.1.decl).value = .ok e.2 := by
  obtain ⟨columns, found, names, each⟩ := value_allColumns contained entities
  refine ⟨⟨entities.foldl (addEntity n.collector) .empty, columns⟩, ?_, ?_, names, each⟩
  · simp [Nesting.scan, scans, found]
  · exact holds_entities (n.collector.isForest sound scans).nodup

theorem exists_entities {scan : Scan} (found : (n.scan s).value = .ok scan) :
    ∃ entities, (n.collector.entities s n.package).value = .ok entities := by
  cases scans : (n.collector.entities s n.package).value with
  | error e =>
    simp only [Nesting.scan, Logged.value_bind, scans] at found
    cases found
  | ok entities => exact ⟨entities, rfl⟩

/-- What a scan finds, it finds of the entities that are listed. -/
theorem holds_of_scan (contained : n.chain.Contained s) (sound : s.Sound) {scan : Scan}
    (found : (n.scan s).value = .ok scan) :
    ∃ entities, (n.collector.entities s n.package).value = .ok entities ∧
      scan.graph.Holds n.collector.entitiesIn entities ∧ scan.columns.map Prod.fst = entities ∧
      ∀ e ∈ scan.columns, (n.columns s e.1.decl).value = .ok e.2 := by
  obtain ⟨entities, scans⟩ := exists_entities found
  obtain ⟨scan', found', holds⟩ := exists_scan contained sound scans
  obtain rfl : scan' = scan := Except.ok.inj (found'.symm.trans found)
  exact ⟨entities, scans, holds⟩

/-- The graph that a scan makes holds the families of a forest of entities. -/
theorem exists_forest_of_scan {c : Collector} {package : String} (sound : s.Sound) {scan : Scan}
    (found : ((Nesting.standard package c).scan s).value = .ok scan) :
    ∃ entities, (c.entities s (Package.normalize package)).value = .ok entities ∧
      scan.graph.Holds c.entitiesIn entities ∧
      Digraph.IsForest c.entitiesIn (fun p => p.trail.length) entities := by
  have contained := Supertype.Chain.contained_standard c (Package.normalize package) s
  obtain ⟨entities, scans, holds, -⟩ := holds_of_scan (n := Nesting.standard package c) contained sound found
  exact ⟨entities, scans, holds, c.isForest sound scans⟩

/-- Building the graph of a package whose entities can be listed succeeds. The nodes of the graph are the entities, each
once, and an arc leads from an entity to each entity directly inside it. No entity has two predecessors and no path
comes back, so each is reached from just one root; the roots are the entities directly inside no other one, in the order
of the listing. Columns are found for each entity once, in the order of the listing. -/
theorem scan_isForest (c : Collector) (package : String) {s : Store} (sound : s.Sound) {entities : List Placed}
    (scans : (c.entities s (Package.normalize package)).value = .ok entities) :
    ∃ scan, ((Nesting.standard package c).scan s).value = .ok scan ∧
      scan.graph.nodes.Nodup ∧ (∀ p, p ∈ scan.graph.nodes ↔ p ∈ entities) ∧
      (∀ p q, (p, q) ∈ scan.graph.edges ↔ p ∈ entities ∧ q ∈ entities ∧ q ∈ p.children) ∧
      (∀ p p' q, (p, q) ∈ scan.graph.edges → (p', q) ∈ scan.graph.edges → p = p') ∧
      (∀ p, ¬ Relation.TransGen (fun a b => (a, b) ∈ scan.graph.edges) p p) ∧
      (∀ p ∈ scan.graph.nodes, ∃! r, r ∈ scan.graph.roots ∧
        Relation.ReflTransGen (fun a b => (a, b) ∈ scan.graph.edges) r p) ∧
      scan.graph.roots = entities.filter (fun q => entities.all fun p => q ∉ p.children) ∧
      entities.Nodup ∧ scan.columns.map Prod.fst = entities := by
  have contained := Supertype.Chain.contained_standard c (Package.normalize package) s
  obtain ⟨scan, found, holds, names, -⟩ := exists_scan (n := Nesting.standard package c) contained sound scans
  have forest := c.isForest sound scans
  have edge (p q : Placed) : (p, q) ∈ scan.graph.edges ↔ p ∈ entities ∧ q ∈ entities ∧ q ∈ p.children := by
    rw [← Digraph.Leads, holds.leads_iff forest]
    exact and_congr_right fun mem => c.mem_entitiesIn scans mem q
  have nodes := holds.mem_nodes forest
  refine ⟨scan, found, holds.nodup, nodes, edge, fun p p' q arc arc' => ?_, fun p path => ?_, fun p mem => ?_, ?_,
    forest.nodup, names⟩
  · obtain ⟨mem, inside⟩ := (holds.leads_iff forest p q).mp arc
    obtain ⟨mem', inside'⟩ := (holds.leads_iff forest p' q).mp arc'
    exact forest.unique p mem p' mem' q inside inside'
  · exact Nat.lt_irrefl _ (holds.depth_lt forest path)
  · obtain ⟨r, isRoot, path⟩ := holds.exists_root forest ((nodes p).mp mem)
    exact ⟨r, ⟨isRoot, path⟩, fun r' reached =>
      holds.root_unique forest reached.1 isRoot reached.2 path⟩
  · rw [holds.roots_eq]
    refine List.filter_congr fun q mem => ?_
    rw [Bool.eq_iff_iff, List.all_eq_true, List.all_eq_true]
    refine forall₂_congr fun p mem' => ?_
    simp [Nesting.standard, c.mem_entitiesIn scans mem', mem]

/-- Three entities, one of them inside another one, and a class between them that is none. -/
def nestedSources : Store where
  root := .dir [("A.java", .file (Text.Utf8.encode
    "@Table class A { @Table class B { } class C { @Table class D { } } }".toList))]
  cwd := []

theorem sound_nestedSources : nestedSources.Sound where
  tree := .dir (by decide) (by simpa using by decide) (by simpa using .file _)
  isDir := rfl

theorem scan_isForest_nested :
    let c := Collector.standard .here .java17
    nestedSources.Sound ∧ ∃ entities, (c.entities nestedSources (Package.normalize "")).value = .ok entities ∧
      ∃ scan, ((Nesting.standard "" c).scan nestedSources).value = .ok scan ∧
      scan.graph.nodes.Nodup ∧ (∀ p, p ∈ scan.graph.nodes ↔ p ∈ entities) ∧
      (∀ p q, (p, q) ∈ scan.graph.edges ↔ p ∈ entities ∧ q ∈ entities ∧ q ∈ p.children) ∧
      (∀ p p' q, (p, q) ∈ scan.graph.edges → (p', q) ∈ scan.graph.edges → p = p') ∧
      (∀ p, ¬ Relation.TransGen (fun a b => (a, b) ∈ scan.graph.edges) p p) ∧
      (∀ p ∈ scan.graph.nodes, ∃! r, r ∈ scan.graph.roots ∧
        Relation.ReflTransGen (fun a b => (a, b) ∈ scan.graph.edges) r p) ∧
      scan.graph.roots = entities.filter (fun q => entities.all fun p => q ∉ p.children) ∧
      entities.Nodup ∧ scan.columns.map Prod.fst = entities := by
  have listed : ((Collector.standard .here .java17).listing nestedSources (Package.normalize "")).fault = none := by
    decide +kernel
  have scans := Collector.value_extract (.standard .here .java17) nestedSources (Package.normalize "")
    (Collector.standard .here .java17).isEntity
  rw [listed, ← Collector.value_entities] at scans
  exact ⟨sound_nestedSources, _, scans, scan_isForest _ "" sound_nestedSources scans⟩

example : (((Nesting.standard "" (.standard .here .java17)).scan nestedSources).value.toOption.map
    fun scan => (scan.graph.roots.map (·.decl.name), scan.graph.edges.map fun e => (e.1.decl.name, e.2.decl.name))) =
      some (["A", "D"], [("A", "B")]) := by
  decide +kernel

end Nesting

end EntityAtlas
