import EntityAtlas.Proofs.PlainTexts

/-!
# The layout of blocks

A block begins with the line that opens its class and ends with the line that closes it, both indented by two blanks for
each level. The braces between these lines are balanced, so the two lines belong together; and what stands there is
indented further, the blocks inside among it.
-/

namespace EntityAtlas

/-- Characters among which the braces are balanced. -/
inductive Text.IsBalanced : List Char → Prop
  | nil : IsBalanced []
  | other {c : Char} {rest : List Char} (apart : c ∉ braces) (balanced : IsBalanced rest) : IsBalanced (c :: rest)
  | group {inside rest : List Char} (within : IsBalanced inside) (balanced : IsBalanced rest) :
    IsBalanced ('\x7b' :: inside ++ '\x7d' :: rest)

namespace Text

theorem IsBalanced.append {cs ds : List Char} (balanced : IsBalanced cs) (balanced' : IsBalanced ds) :
    IsBalanced (cs ++ ds) := by
  induction balanced with
  | nil => exact balanced'
  | other apart _ ih => exact .other apart ih
  | group within _ _ ih =>
    rw [List.append_assoc, List.cons_append]
    exact .group within ih

theorem isBalanced_of_lacks {s : String} (lacks : Lacks braces s) : IsBalanced s.toList := by
  unfold Lacks at lacks
  generalize s.toList = cs at lacks
  induction cs with
  | nil => exact .nil
  | cons c cs ih =>
    exact .other (fun brace => lacks c brace List.mem_cons_self) (ih fun d brace mem =>
      lacks d brace (List.mem_cons_of_mem _ mem))

end Text

namespace Generate

open Text (Lacks)

/-- Lines among which the braces are balanced. -/
def AreBalanced (lines : List String) : Prop :=
  Text.IsBalanced (textOf lines).toList

theorem areBalanced_nil : AreBalanced [] :=
  Text.IsBalanced.nil

theorem AreBalanced.append {ls ls' : List String} (balanced : AreBalanced ls) (balanced' : AreBalanced ls') :
    AreBalanced (ls ++ ls') := by
  rw [AreBalanced, textOf_append, String.toList_append]
  exact Text.IsBalanced.append balanced balanced'

theorem areBalanced_of_lacks {ls : List String} (lacks : ∀ l ∈ ls, Lacks Text.braces l) : AreBalanced ls := by
  induction ls with
  | nil => exact .nil
  | cons l ls ih =>
    obtain ⟨first, others⟩ := List.forall_mem_cons.mp lacks
    have line : Lacks Text.braces (l ++ "\n") := Text.lacks_append.mpr ⟨first, by decide⟩
    rw [AreBalanced, textOf_cons, String.toList_append]
    exact (Text.isBalanced_of_lacks line).append (ih others)

namespace Block

theorem indent_eq (depth : Nat) : indent depth = .ofList (.replicate (2 * depth) ' ') :=
  String.toList_injective (by rw [toList_indent, String.toList_ofList])

theorem lacks_indent {marks : List Char} (visible : ' ' ∉ marks) (depth : Nat) : Lacks marks (indent depth) := by
  intro c among mem
  rw [toList_indent] at mem
  exact visible (List.eq_of_mem_replicate mem ▸ among)

/-- A line that is empty or starts with at least two blanks for each level. -/
def IsIndented (depth : Nat) (l : String) : Prop :=
  l = "" ∨ List.replicate (2 * depth) ' ' <+: l.toList

theorem isIndented_append {depth depth' : Nat} (le : depth ≤ depth') (text : String) :
    IsIndented depth (indent depth' ++ text) := by
  obtain ⟨more, rfl⟩ := Nat.exists_eq_add_of_le le
  right
  rw [String.toList_append, toList_indent, Nat.mul_add, List.replicate_add, List.append_assoc]
  exact List.prefix_append _ _

theorem IsIndented.mono {depth depth' : Nat} {l : String} (le : depth ≤ depth') (further : IsIndented depth' l) :
    IsIndented depth l := by
  obtain ⟨more, rfl⟩ := Nat.exists_eq_add_of_le le
  refine further.imp_right fun blanks => ?_
  rw [Nat.mul_add, List.replicate_add] at blanks
  exact (List.prefix_append _ _).trans blanks

/-- Lines between one that ends with an opening brace and one that is a closing brace. -/
def braced (depth : Nat) (head : String) (inside : List String) : List String :=
  (indent depth ++ head ++ "\x7b") :: inside ++ [indent depth ++ "\x7d"]

theorem areBalanced_braced {depth : Nat} {head : String} {inside : List String} (lacks : Lacks Text.braces head)
    (balanced : AreBalanced inside) : AreBalanced (braced depth head inside) := by
  have blanks : Lacks Text.braces (indent depth) := lacks_indent (by decide) depth
  have parts : (textOf (braced depth head inside)).toList = (indent depth ++ head).toList ++
      ('\x7b' :: ('\n' :: ((textOf inside).toList ++ (indent depth).toList)) ++ '\x7d' :: ['\n']) := by
    simp [braced]
  rw [AreBalanced, parts]
  exact (Text.isBalanced_of_lacks (Text.lacks_append.mpr ⟨blanks, lacks⟩)).append (.group
    (.other (by decide) (Text.IsBalanced.append balanced (Text.isBalanced_of_lacks blanks)))
    (.other (by decide) .nil))

/-- The constructor and two methods, each after an empty line. -/
theorem methods_eq (depth : Nat) (name entity : String) : methods depth name entity =
    [""] ++ braced (depth + 1) ("private " ++ name ++ "() ") [] ++
    ([""] ++ braced (depth + 1) "public static Table table() " [indent (depth + 2) ++ "return TABLE_;"]) ++
    ([""] ++ braced (depth + 1) "private static Column column(String property) "
      [indent (depth + 2) ++ "return Column.create(" ++ Holder.name ++ ".getPersistentEntity(" ++ entity ++ ".class)",
        indent (depth + 4) ++ ".getRequiredPersistentProperty(property).getColumnName(), TABLE_);"]) := by
  simp [methods, braced, String.append_assoc]

/-- The words before the name of a class. -/
def modifiers (depth : Nat) : String :=
  if depth == 0 then "public final class " else "public static final class "

theorem lacks_modifiers {marks : List Char} (outermost : Lacks marks "public final class ")
    (inner : Lacks marks "public static final class ") (depth : Nat) : Lacks marks (modifiers depth) := by
  unfold modifiers
  split
  · exact outermost
  · exact inner

end Block

namespace ClassHead

open Block

/-- A head whose texts are plain. -/
structure IsPlain (h : ClassHead) : Prop where
  name : Text.IsPlain h.name
  entity : Text.IsPlain h.entity
  constants : ∀ c ∈ h.constants, Text.IsPlain c.1 ∧ Text.IsPlain c.2

/-- The lines of a head after the one that opens the class. -/
def body (depth : Nat) (h : ClassHead) : List String :=
  (opening depth h.name h.entity).tail ++ h.constants.map (constantLine (indent (depth + 1))) ++
    methods depth h.name h.entity

variable {h : ClassHead} {depth : Nat}

theorem lines_eq_cons (h : ClassHead) (depth : Nat) :
    h.lines depth = (indent depth ++ modifiers depth ++ h.name ++ " \x7b") :: h.body depth :=
  rfl

theorem isIndented_of_mem_body : ∀ l ∈ h.body depth, IsIndented (depth + 1) l := by
  have empty : IsIndented (depth + 1) "" := .inl rfl
  simp only [body, List.forall_mem_append, List.forall_mem_map]
  refine ⟨⟨?_, fun c _ => ?_⟩, ?_⟩
  · simp [opening, String.append_assoc, isIndented_append, empty]
  · simp [constantLine, String.append_assoc, isIndented_append]
  · simp [methods, String.append_assoc, isIndented_append, empty]

theorem isIndented_of_mem_lines : ∀ l ∈ h.lines depth, IsIndented depth l := by
  rw [lines_eq_cons, List.forall_mem_cons]
  refine ⟨?_, fun l mem => (isIndented_of_mem_body l mem).mono (Nat.le_succ depth)⟩
  simp only [String.append_assoc]
  exact isIndented_append le_rfl _

theorem lineless_of_mem_lines (plain : h.IsPlain) : ∀ l ∈ h.lines depth, Lacks ['\n'] l := by
  have blanks (n : Nat) : Lacks ['\n'] (indent n) := lacks_indent (by decide) n
  have words : Lacks ['\n'] (modifiers depth) := lacks_modifiers (by decide) (by decide) depth
  have name := plain.name.lineless
  have entity := plain.entity.lineless
  simp only [lines_eq_cons, body, List.forall_mem_cons, List.forall_mem_append, List.forall_mem_map]
  refine ⟨?_, ⟨?_, fun c mem => ?_⟩, ?_⟩
  · simp +decide [blanks, words, name]
  · simp +decide [opening, blanks, entity]
  · obtain ⟨constant, property⟩ := plain.constants c mem
    simp +decide [constantLine, blanks, constant.lineless, property.lineless]
  · simp +decide [methods, blanks, name, entity]

theorem areBalanced_body (plain : h.IsPlain) : AreBalanced (h.body depth) := by
  have blanks (n : Nat) : Lacks Text.braces (indent n) := lacks_indent (by decide) n
  have name := plain.name.braceless
  have entity := plain.entity.braceless
  have empty : AreBalanced [""] := areBalanced_of_lacks (by decide)
  refine .append (.append (areBalanced_of_lacks ?_) (areBalanced_of_lacks ?_)) ?_
  · simp +decide [opening, blanks, entity]
  · rw [List.forall_mem_map]
    intro c mem
    obtain ⟨constant, property⟩ := plain.constants c mem
    simp +decide [constantLine, blanks, constant.braceless, property.braceless]
  · have constructor : AreBalanced (braced (depth + 1) ("private " ++ h.name ++ "() ") []) :=
      areBalanced_braced (by simp +decide [name]) areBalanced_nil
    rw [methods_eq]
    refine .append (.append (empty.append constructor) (empty.append (areBalanced_braced (by decide) ?_)))
      (empty.append (areBalanced_braced (by decide) ?_))
    · exact areBalanced_of_lacks (by simp +decide [blanks])
    · exact areBalanced_of_lacks (by simp +decide [blanks, entity])

end ClassHead

namespace Block

mutual

theorem le_of_mem_heads {depth : Nat} {b : Block} {x : Nat × ClassHead} (mem : x ∈ b.heads depth) : depth ≤ x.1 :=
  match b with
  | .node name entity constants inner => by
    rcases List.mem_cons.mp mem with rfl | mem
    · exact le_rfl
    · exact (Nat.le_succ depth).trans (le_of_mem_innerHeads mem)

theorem le_of_mem_innerHeads {depth : Nat} {bs : List Block} {x : Nat × ClassHead} (mem : x ∈ innerHeads depth bs) :
    depth ≤ x.1 :=
  match bs with
  | [] => nomatch mem
  | b :: bs => by
    rcases List.mem_append.mp mem with mem | mem
    · exact le_of_mem_heads mem
    · exact le_of_mem_innerHeads mem

end

theorem heads_subset_innerHeads {b : Block} {bs : List Block} (mem : b ∈ bs) (depth : Nat) :
    b.heads depth ⊆ innerHeads depth bs := by
  induction bs with
  | nil => cases mem
  | cons b' bs ih =>
    rw [innerHeads]
    rcases List.mem_cons.mp mem with rfl | mem
    · exact List.subset_append_left _ _
    · exact List.subset_append_of_subset_right _ (ih mem)

/-- The heads of a block inside another one are among the heads of that one. -/
theorem heads_subset {b c : Block} {row : List Nat} (there : b.at? row = some c) (depth : Nat) :
    c.heads (depth + row.length) ⊆ b.heads depth := by
  induction row generalizing b depth with
  | nil => exact Option.some.inj there ▸ List.Subset.refl _
  | cons i row ih =>
    obtain ⟨name, entity, constants, inner⟩ := b
    obtain ⟨d, child, deeper⟩ := Option.bind_eq_some_iff.mp there
    have deeper := ih deeper (depth + 1)
    rw [Nat.add_right_comm, Nat.add_assoc] at deeper
    rw [heads]
    have among := heads_subset_innerHeads (List.mem_of_getElem? child) (depth + 1)
    exact List.subset_cons_of_subset _ (List.Subset.trans deeper among)

/-- The lines of the head of a block, then those of the blocks inside, then the one that closes the class. -/
theorem lines_node (depth : Nat) (name entity : String) (constants : List (String × String)) (inner : List Block) :
    lines depth (.node name entity constants inner) = ClassHead.lines depth ⟨name, entity, constants⟩ ++
      (innerLines (depth + 1) inner ++ [indent depth ++ "\x7d"]) := by
  rw [lines, List.append_assoc]
  rfl

mutual

/-- What holds of empty lines, of the lines of the heads and of the lines that close blocks holds of all lines. -/
theorem forall_mem_lines {P : String → Prop} (empty : P "") {depth : Nat} {b : Block}
    (own : ∀ x ∈ b.heads depth, (∀ l ∈ x.2.lines x.1, P l) ∧ P (indent x.1 ++ "\x7d")) : ∀ l ∈ b.lines depth, P l :=
  match b with
  | .node name entity constants inner => by
    obtain ⟨⟨head, close⟩, further⟩ := List.forall_mem_cons.mp own
    intro l mem
    rw [lines_node] at mem
    rcases List.mem_append.mp mem with mem | mem
    · exact head l mem
    · rcases List.mem_append.mp mem with mem | mem
      · exact forall_mem_innerLines empty further l mem
      · exact List.mem_singleton.mp mem ▸ close

theorem forall_mem_innerLines {P : String → Prop} (empty : P "") {depth : Nat} {bs : List Block}
    (own : ∀ x ∈ innerHeads depth bs, (∀ l ∈ x.2.lines x.1, P l) ∧ P (indent x.1 ++ "\x7d")) :
    ∀ l ∈ innerLines depth bs, P l :=
  match bs with
  | [] => nofun
  | b :: bs => by
    obtain ⟨first, others⟩ := List.forall_mem_append.mp own
    intro l mem
    rw [innerLines] at mem
    rcases List.mem_cons.mp mem with rfl | mem
    · exact empty
    · rcases List.mem_append.mp mem with mem | mem
      · exact forall_mem_lines empty first l mem
      · exact forall_mem_innerLines empty others l mem

end

theorem lineless_of_mem_lines {depth : Nat} {b : Block} (plain : ∀ x ∈ b.heads depth, x.2.IsPlain) :
    ∀ l ∈ b.lines depth, Lacks ['\n'] l :=
  forall_mem_lines (by decide) fun x mem => ⟨ClassHead.lineless_of_mem_lines (plain x mem),
    Text.lacks_append.mpr ⟨lacks_indent (by decide) x.1, by decide⟩⟩

theorem isIndented_of_mem_innerLines {depth : Nat} {bs : List Block} : ∀ l ∈ innerLines depth bs, IsIndented depth l :=
  forall_mem_innerLines (.inl rfl) fun _ mem =>
    ⟨fun l line => (ClassHead.isIndented_of_mem_lines l line).mono (le_of_mem_innerHeads mem),
      isIndented_append (le_of_mem_innerHeads mem) _⟩

/-- The name of the class. -/
def name : Block → String
  | .node name _ _ _ => name

/-- The lines between the one that opens the class and the one that closes it. -/
def insideLines (depth : Nat) : Block → List String
  | .node name entity constants inner => ClassHead.body depth ⟨name, entity, constants⟩ ++ innerLines (depth + 1) inner

theorem lines_eq_braced (b : Block) (depth : Nat) :
    b.lines depth = braced depth (modifiers depth ++ b.name ++ " ") (b.insideLines depth) := by
  obtain ⟨name, entity, constants, inner⟩ := b
  rw [lines_node, ClassHead.lines_eq_cons]
  simp [braced, insideLines, Block.name, String.append_assoc]

mutual

theorem areBalanced_lines {depth : Nat} {b : Block} (plain : ∀ x ∈ b.heads depth, x.2.IsPlain) :
    AreBalanced (b.lines depth) :=
  match b with
  | .node name entity constants inner => by
    obtain ⟨head, further⟩ := List.forall_mem_cons.mp plain
    have words : Lacks Text.braces (modifiers depth ++ name ++ " ") := by
      have words : Lacks Text.braces (modifiers depth) := lacks_modifiers (by decide) (by decide) depth
      simp +decide [words, head.name.braceless]
    rw [lines_eq_braced]
    exact areBalanced_braced words ((ClassHead.areBalanced_body head).append (areBalanced_innerLines further))

theorem areBalanced_innerLines {depth : Nat} {bs : List Block} (plain : ∀ x ∈ innerHeads depth bs, x.2.IsPlain) :
    AreBalanced (innerLines depth bs) :=
  match bs with
  | [] => areBalanced_nil
  | b :: bs => by
    obtain ⟨first, others⟩ := List.forall_mem_append.mp plain
    have empty : AreBalanced [""] := areBalanced_of_lacks (by decide)
    rw [innerLines]
    exact empty.append ((areBalanced_lines first).append (areBalanced_innerLines others))

end

/-- A block is set off at a depth: the lines that open and close its class are indented by two blanks for each level and
no more, with balanced lines between them that are indented further; the blocks inside stand among these, so each of
them ends before this block does. -/
structure IsSetOff (depth : Nat) (b : Block) (inside : List String) : Prop where
  lines : b.lines depth = (.ofList (.replicate (2 * depth) ' ') ++ modifiers depth ++ b.name ++ " \x7b") :: inside ++
    [.ofList (.replicate (2 * depth) ' ') ++ "\x7d"]
  balanced : AreBalanced inside
  indented : ∀ l ∈ inside, IsIndented (depth + 1) l
  within : ∀ c ∈ b.inner, c.lines (depth + 1) <:+: inside

theorem isSetOff {depth : Nat} {b : Block} (plain : ∀ x ∈ b.heads depth, x.2.IsPlain) :
    b.IsSetOff depth (b.insideLines depth) where
  lines := by
    rw [lines_eq_braced, braced, ← indent_eq]
    simp [String.append_assoc]
  balanced := by
    obtain ⟨name, entity, constants, inner⟩ := b
    obtain ⟨head, further⟩ := List.forall_mem_cons.mp plain
    exact (ClassHead.areBalanced_body head).append (areBalanced_innerLines further)
  indented := by
    obtain ⟨name, entity, constants, inner⟩ := b
    exact List.forall_mem_append.mpr ⟨ClassHead.isIndented_of_mem_body, isIndented_of_mem_innerLines⟩
  within c mem := by
    obtain ⟨name, entity, constants, inner⟩ := b
    exact (lines_infix_innerLines mem (depth + 1)).trans (List.suffix_append _ _).isInfix

end Block

end Generate

end EntityAtlas
