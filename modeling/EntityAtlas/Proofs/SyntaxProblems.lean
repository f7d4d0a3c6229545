import EntityAtlas.Proofs.ReadTrees
import EntityAtlas.Proofs.Records

/-!
# Problems of syntax

A part of a source that could not be read, or a token that it lacks, is a fault. The problems of syntax that are told
are the faults that lie in no other fault, in the order of the source, if the flags of the nodes tell where faults are:
then the walk passes over no fault, and it takes the nodes in the order in which they stand.
-/

namespace EntityAtlas.Java

/-- Whether a problem is one of syntax, and no record that is left out. -/
def Problem.isOfSyntax (p : Problem) : Bool :=
  match p.kind with
  | .unsupportedRecord _ => false
  | _ => true

namespace Tree

/-- Whether a tree is a fault by itself: a part that could not be read, or a token that the source lacks. -/
def isFault (t : Tree) : Bool :=
  t.kind == .fault || t.missing?.isSome

/-- How a fault is told: where it starts, with lines and columns counted from one, and what it is. -/
def report (t : Tree) : String :=
  "line " ++ toString (t.start.line + 1) ++ ", column " ++ toString (t.start.column + 1) ++ ": " ++
    match t.missing? with
    | some what => "missing '" ++ what ++ "'"
    | none => "unexpected syntax"

mutual

/-- The nodes of a tree in the order of the source, each with the nodes above it. -/
def nodes (above : List Tree) : Tree → List (List Tree × Tree)
  | .leaf r k t => [(above, .leaf r k t)]
  | .node r k f cs => (above, .node r k f cs) :: nodesAll (above ++ [.node r k f cs]) cs

/-- The nodes of several trees, all below the same nodes. -/
def nodesAll (above : List Tree) : List Tree → List (List Tree × Tree)
  | [] => []
  | t :: ts => nodes above t ++ nodesAll above ts

end

/-- The faults among nodes that have no fault above them. -/
def topFaults (ns : List (List Tree × Tree)) : List Tree :=
  (ns.filter fun n => n.2.isFault && !n.1.any isFault).map Prod.snd

/-- The faults in a tree that lie in no other fault, in the order of the source. -/
def outermostFaults (root : Tree) : List Tree :=
  topFaults (root.nodes [])

/-- Whether the flag of every node tells if the node or one inside it is a fault. -/
def FlagsTell (root : Tree) : Prop :=
  ∀ t ∈ root.subtrees, t.isFaulty = true ↔ ∃ u ∈ t.subtrees, u.isFault = true

mutual

theorem map_snd_nodes (above : List Tree) : ∀ t : Tree, (nodes above t).map Prod.snd = t.subtrees
  | .leaf .. => rfl
  | .node r k f cs => by rw [nodes, List.map_cons, map_snd_nodesAll, subtrees]

theorem map_snd_nodesAll (above : List Tree) : ∀ ts : List Tree, (nodesAll above ts).map Prod.snd = subtreesAll ts
  | [] => rfl
  | t :: ts => by rw [nodesAll, List.map_append, map_snd_nodes, map_snd_nodesAll, subtreesAll]

end

mutual

theorem prefix_of_mem_nodes {n : List Tree × Tree} : ∀ {above : List Tree} (t : Tree), n ∈ nodes above t → above <+: n.1
  | _, .leaf .., mem => by
    cases List.mem_singleton.mp mem
    exact List.prefix_rfl
  | _, .node r k f cs, mem => by
    rcases List.mem_cons.mp mem with rfl | mem
    · exact List.prefix_rfl
    · exact (List.prefix_append _ _).trans (prefix_of_mem_nodesAll cs mem)

theorem prefix_of_mem_nodesAll {n : List Tree × Tree} :
    ∀ {above : List Tree} (ts : List Tree), n ∈ nodesAll above ts → above <+: n.1
  | _, t :: ts, mem =>
    (List.mem_append.mp mem).elim (prefix_of_mem_nodes t) (prefix_of_mem_nodesAll ts)

end

theorem nodesAll_append (above ts us : List Tree) :
    nodesAll above (ts ++ us) = nodesAll above ts ++ nodesAll above us := by
  induction ts with
  | nil => rfl
  | cons t ts ih => rw [List.cons_append, nodesAll, nodesAll, ih, List.append_assoc]

theorem topFaults_append (ns ns' : List (List Tree × Tree)) :
    topFaults (ns ++ ns') = topFaults ns ++ topFaults ns' := by
  rw [topFaults, List.filter_append, List.map_append, topFaults, topFaults]

theorem topFaults_cons {above : List Tree} (clear : above.any isFault = false) (t : Tree)
    (ns : List (List Tree × Tree)) :
    topFaults ((above, t) :: ns) = if t.isFault then t :: topFaults ns else topFaults ns := by
  by_cases fault : t.isFault = true <;> simp [topFaults, clear, fault]

/-- Below a fault there is no topmost one. -/
theorem topFaults_nodesAll_of_fault {above : List Tree} (fault : above.any isFault = true) (ts : List Tree) :
    topFaults (nodesAll above ts) = [] := by
  rw [topFaults, List.map_eq_nil_iff, List.filter_eq_nil_iff]
  intro n mem
  obtain ⟨t, held, isFault⟩ := List.any_eq_true.mp fault
  have covered : n.1.any Tree.isFault = true :=
    List.any_eq_true.mpr ⟨t, (prefix_of_mem_nodesAll ts mem).subset held, isFault⟩
  simp [covered]

mutual

/-- A fault hides what is inside it; nodes above that are no faults make no difference. -/
theorem topFaults_nodes : ∀ {above : List Tree} (_ : above.any isFault = false) (t : Tree),
    topFaults (nodes above t) = if t.isFault then [t] else topFaults (nodesAll [] t.children)
  | above, clear, .leaf r k t => by
    rw [nodes, topFaults_cons clear]
    rfl
  | above, clear, .node r k f cs => by
    rw [nodes, topFaults_cons clear, children]
    split
    · rename_i fault
      rw [topFaults_nodesAll_of_fault (by simp [fault])]
    · rename_i sound
      exact topFaults_nodesAll (by simp [clear, sound]) cs

theorem topFaults_nodesAll : ∀ {above : List Tree} (_ : above.any isFault = false) (ts : List Tree),
    topFaults (nodesAll above ts) = topFaults (nodesAll [] ts)
  | above, clear, [] => rfl
  | above, clear, t :: ts => by
    rw [nodesAll, nodesAll, topFaults_append, topFaults_append, topFaults_nodes clear t, topFaults_nodes rfl t,
      topFaults_nodesAll clear ts]

end

mutual

theorem clear_of_topFaults : ∀ t : Tree, topFaults (nodes [] t) = [] → ∀ u ∈ t.subtrees, u.isFault = false
  | .leaf r k t, noFault, u, mem => by
    rw [topFaults_nodes rfl] at noFault
    rw [List.mem_singleton.mp mem]
    cases fault : (Tree.leaf r k t).isFault <;> simp [fault] at noFault ⊢
  | .node r k f cs, noFault, u, mem => by
    rw [topFaults_nodes rfl] at noFault
    cases fault : (Tree.node r k f cs).isFault with
    | true => simp [fault] at noFault
    | false =>
      rcases List.mem_cons.mp mem with rfl | mem
      · exact fault
      · exact clear_of_topFaultsAll cs (by simpa [fault, children] using noFault) u mem

theorem clear_of_topFaultsAll :
    ∀ ts : List Tree, topFaults (nodesAll [] ts) = [] → ∀ u ∈ subtreesAll ts, u.isFault = false
  | t :: ts, noFault, u, mem => by
    rw [nodesAll, topFaults_append, List.append_eq_nil_iff] at noFault
    rcases List.mem_append.mp mem with mem | mem
    · exact clear_of_topFaults t noFault.1 u mem
    · exact clear_of_topFaultsAll ts noFault.2 u mem

end

/-- Where there is a fault at all, there is one that lies in no other. -/
theorem outermostFaults_eq_nil_iff (t : Tree) : t.outermostFaults = [] ↔ ∀ u ∈ t.subtrees, u.isFault = false := by
  refine ⟨clear_of_topFaults t, fun clear => ?_⟩
  rw [outermostFaults, topFaults, List.map_eq_nil_iff, List.filter_eq_nil_iff]
  intro n mem
  have held : n.2 ∈ t.subtrees := map_snd_nodes [] t ▸ List.mem_map_of_mem mem
  simp [clear n.2 held]

theorem isFault_of_mem_outermostFaults {root t : Tree} (mem : t ∈ root.outermostFaults) : t.isFault = true := by
  obtain ⟨n, kept, rfl⟩ := List.mem_map.mp mem
  exact (Bool.and_eq_true_iff.mp (List.mem_filter.mp kept).2).1

theorem FlagsTell.children {t : Tree} (flags : t.FlagsTell) : ∀ c ∈ t.children, c.FlagsTell := by
  intro c mem u inside
  refine flags u ((subtreesAll_children_sublist t).subset ?_)
  rw [subtreesAll_eq]
  exact List.mem_flatMap_of_mem mem inside

/-- What a flag passes over has no fault in it. -/
theorem FlagsTell.outermostFaults_eq_nil {t : Tree} (flags : t.FlagsTell) (sound : t.isFaulty = false) :
    t.outermostFaults = [] := by
  refine (outermostFaults_eq_nil_iff t).mpr fun u mem => ?_
  cases fault : u.isFault with
  | false => rfl
  | true => simp [(flags t (self_mem_subtrees t)).mpr ⟨u, mem, fault⟩] at sound

theorem isSome_problem? (t : Tree) : t.problem?.isSome = t.isFault := by
  cases missing : t.missing? with
  | some what => simp [problem?, isFault, missing]
  | none => by_cases kind : t.kind = .fault <;> simp [problem?, isFault, missing, kind]

/-- The walk tells the topmost faults of the trees on the stack, the topmost tree first. -/
theorem problemsFrom_eq {stack : List Tree} (flags : ∀ t ∈ stack, t.FlagsTell) :
    problemsFrom stack = (topFaults (nodesAll [] stack)).filterMap problem? := by
  fun_induction problemsFrom stack with
  | case1 => rfl
  | case2 t stack p is ih =>
    have fault : t.isFault = true := by rw [← isSome_problem?, is, Option.isSome_some]
    rw [nodesAll, topFaults_append, topFaults_nodes rfl, if_pos fault, List.singleton_append,
      List.filterMap_cons_some is, ih fun u mem => flags u (List.mem_cons_of_mem _ mem)]
  | case3 t stack none faulty ih =>
    -- the parts of the tree come to lie on top, in their order
    have sound : t.isFault = false := by rw [← isSome_problem?, none, Option.isSome_none]
    rw [ih ?_, pushAll_eq, nodesAll_append, nodesAll, topFaults_append, topFaults_append, topFaults_nodes rfl t]
    · simp [sound]
    · intro u mem
      rw [pushAll_eq] at mem
      rcases List.mem_append.mp mem with mem | mem
      · exact (flags t List.mem_cons_self).children u mem
      · exact flags u (List.mem_cons_of_mem _ mem)
  | case4 t stack none sound ih =>
    have passed := (flags t List.mem_cons_self).outermostFaults_eq_nil (by simpa using sound)
    rw [outermostFaults] at passed
    rw [nodesAll, topFaults_append, passed, List.nil_append, ih fun u mem => flags u (List.mem_cons_of_mem _ mem)]

theorem problems_eq {root : Tree} (flags : root.FlagsTell) :
    root.problems = root.outermostFaults.filterMap problem? := by
  cases faulty : root.isFaulty with
  | true =>
    rw [problems, if_pos faulty, problemsFrom_eq (by simpa using flags), nodesAll, nodesAll, List.append_nil,
      outermostFaults]
  | false => simp [problems, faulty, flags.outermostFaults_eq_nil faulty]

theorem flagsTell_node_iff {r : Role} {k : NodeKind} {f : Bool} {cs : List Tree} : (node r k f cs).FlagsTell ↔
    (f = true ↔ k = .fault ∨ ∃ u ∈ subtreesAll cs, u.isFault = true) ∧
      ∀ t ∈ subtreesAll cs, t.isFaulty = true ↔ ∃ u ∈ t.subtrees, u.isFault = true := by
  simp [FlagsTell, subtrees, isFault, isFaulty, kind, missing?]

/-- Making nodes and playing parts keep flags that tell where faults are. -/
theorem isKept_flagsTell : IsKept FlagsTell where
  leaf r k t := by simp [FlagsTell, subtrees, isFault, isFaulty, kind, missing?]
  ofChildren k cs flags := by
    have parts : cs.any isFaulty = true ↔ ∃ u, (∃ c ∈ cs, u ∈ c.subtrees) ∧ u.isFault = true := by
      rw [List.any_eq_true]
      constructor
      · rintro ⟨c, mem, faulty⟩
        obtain ⟨u, inside, fault⟩ := (flags c mem c (self_mem_subtrees c)).mp faulty
        exact ⟨u, ⟨c, mem, inside⟩, fault⟩
      · rintro ⟨u, ⟨c, mem, inside⟩, fault⟩
        exact ⟨c, mem, (flags c mem c (self_mem_subtrees c)).mpr ⟨u, inside, fault⟩⟩
    rw [ofChildren, flagsTell_node_iff]
    simp only [subtreesAll_eq, List.mem_flatMap]
    constructor
    · rw [Bool.or_eq_true, parts, beq_iff_eq]
    · rintro t ⟨c, mem, inside⟩
      exact flags c mem t inside
  playing t r flags := by
    cases t with
    | leaf => simp [playing, FlagsTell, subtrees, isFault, isFaulty, kind, missing?]
    | node => exact flagsTell_node_iff.mpr (flagsTell_node_iff.mp flags)

/-- The flags in the tree of a source tell where faults are. -/
theorem flagsTell_ofSource (cs : List Char) : (Tree.ofSource cs).FlagsTell :=
  isKept_flagsTell.holds_ofSource cs

/-- A fault is told as a problem of syntax, at its place. -/
theorem spec_of_problem? {t : Tree} {p : Problem} (is : t.problem? = some p) :
    p.isOfSyntax = true ∧ p.message = t.report := by
  cases missing : t.missing? with
  | some what =>
    obtain rfl : ⟨t.start, .missing what⟩ = p := by simpa [problem?, missing] using is
    exact ⟨rfl, by simp [Problem.message, report, missing]⟩
  | none =>
    obtain ⟨-, rfl⟩ : t.kind = .fault ∧ ⟨t.start, .unexpected⟩ = p := by simpa [problem?, missing] using is
    exact ⟨rfl, by simp [Problem.message, report, missing]⟩

/-- Faults are told one by one. -/
theorem map_message_filterMap {ts : List Tree} (faults : ∀ t ∈ ts, t.isFault = true) :
    (ts.filterMap problem?).map Problem.message = ts.map report := by
  induction ts with
  | nil => rfl
  | cons t ts ih =>
    obtain ⟨fault, others⟩ := List.forall_mem_cons.mp faults
    obtain ⟨p, is⟩ := Option.isSome_iff_exists.mp ((isSome_problem? t).trans fault)
    rw [List.filterMap_cons_some is, List.map_cons, List.map_cons, (spec_of_problem? is).2, ih others]

/-- What the walk tells are problems of syntax, one for each fault that lies in no other. -/
theorem problems_spec {root : Tree} (flags : root.FlagsTell) :
    (∀ p ∈ root.problems, p.isOfSyntax = true) ∧
      root.problems.map Problem.message = root.outermostFaults.map report := by
  rw [problems_eq flags]
  refine ⟨fun p mem => ?_, map_message_filterMap fun t mem => isFault_of_mem_outermostFaults mem⟩
  obtain ⟨t, -, is⟩ := List.mem_filterMap.mp mem
  exact (spec_of_problem? is).1

end Tree

namespace Outline

open Java.Tree

/-- The problems that are told of a tree are those of syntax and, after them, records that are left out. -/
theorem problems_ofTree (records : Bool) (sourceFile : Option String) (root : Tree) :
    ∃ dropped, (ofTree records sourceFile root).problems = root.problems ++ dropped ∧
      ∀ p ∈ dropped, p.isOfSyntax = false := by
  let setting : Setting := ⟨root.package?, root.children.filterMap import?, sourceFile, records⟩
  let declared := root.children.filter fun t => (declaredKind? t.kind).isSome
  refine ⟨(allMembers setting [] declared).2, rfl, ?_⟩
  have leavesOut := leavesOut_allMembers setting [] declared
  cases records with
  | true =>
    have none : (allMembers setting [] declared).2 = [] := leavesOut.sound
    simp [none]
  | false =>
    obtain ⟨rows, -, -, -, told⟩ := leavesOut.told
    have told : (allMembers setting [] declared).2 = rows.map fun row => recordProblem row.1 row.2 := told
    rw [told]
    intro p mem
    obtain ⟨row, -, rfl⟩ := List.mem_map.mp mem
    rfl

/-- If flags tell where faults are, the problems of syntax are the faults that lie in no other fault, one for each, in
the order of the source, so there is none just where no node is a fault. They are told first. -/
theorem syntaxProblems_spec (records : Bool) (sourceFile : Option String) {root : Tree} (flags : root.FlagsTell) :
    let outline := ofTree records sourceFile root
    let told := outline.problems.filter (·.isOfSyntax)
    told <+: outline.problems ∧ told.map Problem.message = root.outermostFaults.map report ∧
      (told = [] ↔ ∀ t ∈ root.subtrees, t.isFault = false) := by
  intro outline told
  obtain ⟨dropped, problems, others⟩ := problems_ofTree records sourceFile root
  obtain ⟨ofSyntax, messages⟩ := problems_spec flags
  have is : told = root.problems := by
    change outline.problems.filter (·.isOfSyntax) = root.problems
    rw [problems, List.filter_append, List.filter_eq_self.mpr ofSyntax,
      List.filter_eq_nil_iff.mpr fun p mem => by simp [others p mem], List.append_nil]
  rw [is]
  refine ⟨problems ▸ List.prefix_append _ _, messages, ?_⟩
  rw [← List.map_eq_nil_iff (f := Problem.message), messages, List.map_eq_nil_iff, outermostFaults_eq_nil_iff]

/-- A class in which a part cannot be read, a token is lacking, and a record is declared. -/
def brokenSource : List Char :=
  "class A \x7b\n  int # x;\n  record R() \x7b \x7d\n  int y\n\x7d".toList

theorem syntaxProblems_spec_broken :
    let root := Tree.ofSource brokenSource
    let told := (ofTree false none root).problems.filter (·.isOfSyntax)
    root.FlagsTell ∧
      told.map Problem.message = ["line 2, column 7: unexpected syntax", "line 4, column 8: missing ';'"] := by
  have flags := flagsTell_ofSource brokenSource
  obtain ⟨-, messages, -⟩ := syntaxProblems_spec false none flags
  exact ⟨flags, messages.trans (by decide +kernel)⟩

end Outline

end EntityAtlas.Java
