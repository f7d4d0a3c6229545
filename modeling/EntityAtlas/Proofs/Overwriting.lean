import EntityAtlas.Proofs.BlockLayout
import EntityAtlas.Proofs.Resaving

/-!
# Files that are written twice

When files are saved one after another, each path reads in the end what was saved last to its place. A root does not
write to a path that an earlier root has, so the paths that are written differ, but for that of the accessor class,
which a root may have too. All files keep their texts just where the paths that lead to one file have one text.
-/

namespace EntityAtlas

namespace Text.Utf8

theorem encodeChar_eq (c : Char) : encodeChar c = String.utf8EncodeChar c := by
  have bound : c.val.toNat < 1114112 := by
    have valid := c.valid
    simp only [UInt32.isValidChar, Nat.isValidChar] at valid
    omega
  have code : c.toNat = c.val.toNat := rfl
  have byte {m n : Nat} (same : m = n) : m.toUInt8 = UInt8.ofNat n := congrArg UInt8.ofNat same
  rw [encodeChar, String.utf8EncodeChar, code]
  generalize c.val.toNat = n at bound
  have limits : (n ≤ 127 ↔ n < 128) ∧ (n ≤ 2047 ↔ n < 2048) ∧ (n ≤ 65535 ↔ n < 65536) := by omega
  simp only [limits]
  by_cases one : n < 128
  · simp only [one, if_true]
  by_cases two : n < 2048
  · simp only [one, two, if_true, if_false, List.cons.injEq, and_true]
    exact ⟨byte (by omega), byte (Nat.add_comm ..)⟩
  by_cases three : n < 65536
  · simp only [one, two, three, if_true, if_false, List.cons.injEq, and_true]
    exact ⟨byte (by omega), byte (Nat.add_comm ..), byte (Nat.add_comm ..)⟩
  · simp only [one, two, three, if_false, List.cons.injEq, and_true]
    exact ⟨byte (by omega), byte (Nat.add_comm ..), byte (Nat.add_comm ..), byte (Nat.add_comm ..)⟩

/-- A text is told by its bytes. -/
theorem encode_injective : Function.Injective encode := by
  intro cs cs' same
  have codes : encode = List.flatMap String.utf8EncodeChar := funext fun cs => by rw [encode, funext encodeChar_eq]
  have bytes : cs.utf8Encode = cs'.utf8Encode := by rw [List.utf8Encode, List.utf8Encode, ← codes, same]
  simpa using congrArg ByteArray.utf8Decode? bytes

end Text.Utf8

namespace Store

variable {s s' : Store} {files : List (Path × List UInt8)}

/-- What a path reads is told by the place that it leads to. -/
theorem readBytes_congr {p q : Path} (named : hasNul q = false) (same : s.locate p = s.locate q)
    {content : List UInt8} (reads : s.readBytes p = .ok content) : s.readBytes q = .ok content := by
  obtain ⟨-, loc, found, there⟩ := exists_of_readBytes reads
  exact readBytes_eq named (same.symm.trans found) there

theorem Saves.hasNul_eq_false (saves : Saves s files s') (begins : ∀ f ∈ files, s.Begins f.1) :
    ∀ f ∈ files, hasNul f.1 = false := by
  induction saves with
  | nil => simp
  | cons saved rest ih =>
    obtain ⟨start, begins⟩ := List.forall_mem_cons.mp begins
    obtain ⟨loc, grows, named, -⟩ := save_spec start saved
    exact List.forall_mem_cons.mpr ⟨named, ih fun f mem => grows.begins (begins f mem)⟩

/-- A path reads what was saved last at the place that it leads to. -/
theorem Saves.exists_last (saves : Saves s files s') (begins : ∀ f ∈ files, s.Begins f.1) {f : Path × List UInt8}
    (mem : f ∈ files) :
    ∃ before last after, files = before ++ last :: after ∧ s'.locate last.1 = s'.locate f.1 ∧
      (∀ later ∈ after, s'.locate later.1 ≠ s'.locate f.1) ∧ s'.readBytes f.1 = .ok last.2 := by
  have any : ∃ l ∈ files, s'.locate l.1 = s'.locate f.1 := ⟨f, mem, rfl⟩
  obtain ⟨before, ⟨p, content⟩, after, rfl, same, others⟩ := exists_split_at_last any
  have named := saves.hasNul_eq_false begins
  have reads := saves.readBytes begins fun later among is => others later among (is.trans same)
  exact ⟨before, (p, content), after, rfl, same, others, readBytes_congr (named f mem) same reads⟩

/-- Files keep their contents just where those that lead to one place have one content. -/
theorem Saves.readBytes_iff (saves : Saves s files s') (begins : ∀ f ∈ files, s.Begins f.1) :
    (∀ f ∈ files, s'.readBytes f.1 = .ok f.2) ↔
      ∀ f ∈ files, ∀ f' ∈ files, s'.locate f.1 = s'.locate f'.1 → f.2 = f'.2 := by
  have named := saves.hasNul_eq_false begins
  constructor
  · intro keeps f mem f' mem' same
    have reads := readBytes_congr (named f' mem') same (keeps f mem)
    exact Except.ok.inj (reads.symm.trans (keeps f' mem'))
  · intro alike f mem
    obtain ⟨before, last, after, split, same, -, reads⟩ := saves.exists_last begins mem
    rw [reads, alike last (by simp [split]) f mem same]

end Store

namespace Generate

/-- Writing that succeeds tells files. -/
theorem Written.exists_files {w : Written} (succeeds : w.outcome.toOption.isSome) :
    ∃ files, w = ⟨.ok files, w.store⟩ := by
  cases w with
  | mk outcome s =>
    cases outcome with
    | error f => cases succeeds
    | ok files => exact ⟨files, rfl⟩

namespace Plan

variable (plan : Plan) {g : EntityGraph}

/-- Among the roots with a file there is the first one. -/
theorem exists_mem_firsts {roots : List Placed} {r : Placed} (mem : r ∈ roots) :
    ∃ first ∈ plan.firsts roots, plan.target first.decl = plan.target r.decl := by
  have found : (roots.find? fun q => plan.target q.decl == plan.target r.decl).isSome :=
    List.find?_isSome.mpr ⟨r, mem, beq_self_eq_true _⟩
  obtain ⟨first, found⟩ := Option.isSome_iff_exists.mp found
  have same : plan.target first.decl = plan.target r.decl := by simpa using List.find?_some found
  refine ⟨first, List.mem_filter.mpr ⟨List.mem_of_find?_eq_some found, ?_⟩, same⟩
  rw [same, found, beq_self_eq_true]

/-- The paths that are written differ just where no root has that of the accessor class. -/
theorem nodup_documents_iff (nodup : g.roots.Nodup) (columnsOf : Placed → List String) :
    ((plan.documents g columnsOf).map Prod.fst).Nodup ↔
      ∀ r ∈ g.roots, plan.target r.decl ≠ Holder.path plan.output := by
  have targets : ((plan.firsts g.roots).map fun r => plan.target r.decl).Nodup :=
    List.Nodup.map_on (fun r mem r' mem' same => plan.eq_of_target mem mem' same) (nodup.filter _)
  rw [map_fst_documents, List.nodup_cons, and_iff_left targets]
  constructor
  · intro apart r mem same
    obtain ⟨first, among, alike⟩ := plan.exists_mem_firsts mem
    exact apart (List.mem_map.mpr ⟨first, among, alike.trans same⟩)
  · intro apart among
    obtain ⟨r, mem, same⟩ := List.mem_map.mp among
    exact apart r (plan.mem_of_mem_firsts mem) same

/-- The file of a root in the package of the accessor class has another text than that of the accessor class. -/
theorem entityText_ne_holderText (columnsOf : Placed → List String) {root : Placed}
    (package : root.decl.head.package = some Holder.package) : plan.entityText g columnsOf root ≠ plan.holderText := by
  have start : Holder.lines = ["package org.springframework.data.r2dbc.config;", ""] ++
      "import org.springframework.beans.BeansException;" :: Holder.lines.drop 3 := rfl
  have start' : preamble (some Holder.package) = ["package org.springframework.data.r2dbc.config;", ""] ++
      "import org.springframework.data.r2dbc.config.StaticR2dbcEntityTemplateAccessor_;" ::
        (preamble none).drop 1 := by
    decide +kernel
  intro same
  -- the first imports differ
  rw [entityText_eq, holderText, package, start, start'] at same
  simp only [textOf_append, textOf_cons, String.append_assoc, String.append_right_inj] at same
  have imports := congrArg String.toList same
  simp [String.toList_append] at imports

/-- Writing without a fault tells the path of the accessor class and then, root by root, the paths of the roots that are
the first with theirs. No path is told twice just where no root has the path of the accessor class. Each path reads in
the end the text that was written last to its file, so all of them keep their texts just where the paths that lead to
one file have one text. -/
theorem write_keeps_texts_iff (proper : g.IsProper) (columnsOf : Placed → List String) {s s' : Store}
    (begins : s.Begins plan.output) {files : List Path}
    (written : (plan.write g columnsOf s).value = ⟨.ok files, s'⟩) :
    let documents := plan.documents g columnsOf
    files = Holder.path plan.output :: (plan.firsts g.roots).map (fun r => plan.target r.decl) ∧
      (files.Nodup ↔ ∀ r ∈ g.roots, plan.target r.decl ≠ Holder.path plan.output) ∧
      (∀ f ∈ documents, ∃ before last after, documents = before ++ last :: after ∧ s'.locate last.1 = s'.locate f.1 ∧
        (∀ later ∈ after, s'.locate later.1 ≠ s'.locate f.1) ∧ s'.readBytes f.1 = .ok last.2) ∧
      ((∀ f ∈ documents, s'.readBytes f.1 = .ok f.2) ↔
        ∀ f ∈ documents, ∀ f' ∈ documents, s'.locate f.1 = s'.locate f'.1 → f.2 = f'.2) := by
  intro documents
  have nodup : g.roots.Nodup := proper.nodup.filter _
  obtain ⟨names, saves⟩ := plan.write_spec nodup written
  have start := plan.begins_documents begins g columnsOf
  subst names
  exact ⟨plan.map_fst_documents g columnsOf, plan.nodup_documents_iff nodup columnsOf,
    fun f mem => saves.exists_last start mem, saves.readBytes_iff start⟩

/-- An entity of a package. -/
def entityIn (package name : String) (trail : List Nat) : Placed where
  file := name ++ ".java"
  trail := trail
  decl := ⟨⟨name, .classKind, .plain, some package, [⟨entityMarker, []⟩], [], none, []⟩, []⟩

/-- Two roots with one file, one with a file of that name in another package, and an entity below it. -/
def crowdedGraph : EntityGraph :=
  .build [entityIn "p" "A" [0], entityIn "p" "A" [1], entityIn "q.r" "A" [0]]
    [(entityIn "q.r" "A" [0], entityIn "q.r" "B" [0, 0])]

theorem write_keeps_texts_iff_crowded :
    let plan : Plan := ⟨.ofString "gen", Naming.standard, "2024-01-01"⟩
    let columnsOf (p : Placed) := [p.decl.name]
    let s : Store := .fresh []
    let written := (plan.write crowdedGraph columnsOf s).value
    crowdedGraph.IsProper ∧ s.Begins plan.output ∧ ∃ files, written.outcome = .ok files ∧
      files.map Path.text = ["gen/org/springframework/data/r2dbc/config/StaticR2dbcEntityTemplateAccessor_.java",
        "gen/p/A_.java", "gen/q/r/A_.java"] ∧
      files.Nodup ∧ ∀ f ∈ plan.documents crowdedGraph columnsOf, written.store.readBytes f.1 = .ok f.2 := by
  intro plan columnsOf s written
  have proper : crowdedGraph.IsProper := Digraph.isProper_build _ _
  have begins : s.Begins plan.output := ⟨[], rfl⟩
  obtain ⟨files, ended⟩ := Written.exists_files (show written.outcome.toOption.isSome by decide +kernel)
  obtain ⟨names, nodup, -, texts⟩ := plan.write_keeps_texts_iff proper columnsOf begins ended
  refine ⟨proper, begins, files, congrArg Written.outcome ended, ?_, nodup.mpr (by decide +kernel),
    texts.mpr fun f mem f' mem' same => ?_⟩
  · rw [names]
    decide +kernel
  · -- the three paths lead to three places
    have places : ((plan.documents crowdedGraph columnsOf).map fun f => written.store.locate f.1).Nodup := by
      decide +kernel
    rw [List.inj_on_of_nodup_map places mem mem' same]

/-- A root in the package of the accessor class, whose file is that of the accessor class. -/
def intruder : Placed :=
  entityIn Holder.package "StaticR2dbcEntityTemplateAccessor" [0]

/-- The file of the accessor class is overwritten with that of a root, and its path is told twice. -/
theorem write_overwrites :
    let plan : Plan := ⟨.ofString "gen", Naming.standard, "2024-01-01"⟩
    let g : EntityGraph := .build [intruder] []
    let columnsOf : Placed → List String := fun _ => ["id"]
    let written := (plan.write g columnsOf (.fresh [])).value
    written.outcome = .ok [Holder.path plan.output, Holder.path plan.output] ∧
      written.store.readBytes (Holder.path plan.output) =
        .ok (Text.Utf8.encode (plan.entityText g columnsOf intruder).toList) ∧
      written.store.readBytes (Holder.path plan.output) ≠ .ok (Text.Utf8.encode plan.holderText.toList) := by
  intro plan g columnsOf written
  have target : plan.target intruder.decl = Holder.path plan.output := by decide +kernel
  have firsts : plan.firsts g.roots = [intruder] := by decide +kernel
  have documents : plan.documents g columnsOf = [(Holder.path plan.output, Text.Utf8.encode plan.holderText.toList)] ++
      [(Holder.path plan.output, Text.Utf8.encode (plan.entityText g columnsOf intruder).toList)] := by
    rw [Plan.documents, firsts, List.map_singleton, document, target]
    rfl
  have nodup : g.roots.Nodup := (Digraph.isProper_build _ _).nodup.filter _
  have begins := plan.begins_documents (s := (.fresh [])) ⟨[], rfl⟩ g columnsOf
  obtain ⟨files, ended⟩ := Written.exists_files (show written.outcome.toOption.isSome by decide +kernel)
  obtain ⟨names, saves⟩ := plan.write_spec nodup ended
  rw [documents] at names saves begins
  have reads := saves.readBytes begins (by simp)
  have outcome : written.outcome = .ok files := congrArg Written.outcome ended
  refine ⟨by rw [outcome, names]; rfl, reads, fun lost => ?_⟩
  have same := Text.Utf8.encode_injective (Except.ok.inj (reads.symm.trans lost))
  exact plan.entityText_ne_holderText columnsOf rfl (String.toList_injective same)

end Plan

end Generate

end EntityAtlas
