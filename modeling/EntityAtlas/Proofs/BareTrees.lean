import EntityAtlas.Java.Outline
import Mathlib.Data.List.Basic

/-!
# Syntax trees without layout

White space and comments belong to a syntax tree, but the declarations made of it are meant not to show them. They do
so nearly everywhere: where names and values are taken from single tokens, layout is left out. Where a text of several
tokens is taken as it is written, or a part is taken because it comes first, layout must stay away, and where it does,
the tree without its layout has the same declarations.
-/

namespace EntityAtlas.Java

/-- A token without its place and the white space before it. -/
def Token.placeless (t : Token) : Token := { t with before := "", start := default, stop := default }

namespace Tree

mutual

/-- The tree without comments and places. -/
def bare : Tree → Tree
  | .leaf r k t => .leaf r k t.placeless
  | .node r k f cs => .node r k f (bareAll cs)

/-- The trees that are no comments, each without comments and places. -/
def bareAll : List Tree → List Tree
  | [] => []
  | t :: ts => if t.kind == .comment then bareAll ts else bare t :: bareAll ts

end

theorem bareAll_eq (ts : List Tree) : bareAll ts = (ts.filter (·.kind != .comment)).map bare := by
  induction ts with
  | nil => rfl
  | cons t ts ih =>
    by_cases comment : t.kind = .comment
    · simp [bareAll, comment, ih]
    · simp [bareAll, comment, ih]

@[simp] theorem role_bare (t : Tree) : t.bare.role = t.role := by
  cases t <;> rfl

@[simp] theorem kind_bare (t : Tree) : t.bare.kind = t.kind := by
  cases t <;> rfl

@[simp] theorem isNamed_bare (t : Tree) : t.bare.isNamed = t.isNamed := by
  rw [isNamed, isNamed, kind_bare]

theorem children_bare (t : Tree) : t.bare.children = bareAll t.children := by
  cases t <;> rfl

/-! ## Parts of a node -/

/-- What is looked up is found without layout too, if it is no comment. -/
theorem find?_bareAll {p : Tree → Bool} (ts : List Tree) (same : ∀ t, p t.bare = p t)
    (found : ∀ t ∈ ts.find? p, t.kind ≠ .comment) : (bareAll ts).find? p = (ts.find? p).map bare := by
  induction ts with
  | nil => rfl
  | cons t ts ih =>
    cases wanted : p t with
    | true =>
      have comment : t.kind ≠ .comment := found t (by simp [wanted])
      simp [bareAll, comment, same, wanted]
    | false =>
      have rest := ih fun u mem => found u (by simpa [wanted] using mem)
      by_cases comment : t.kind = .comment <;> simp [bareAll, comment, rest, same, wanted]

theorem filterMap_bareAll {α : Type} {g : Tree → Option α} (ts : List Tree)
    (same : ∀ t ∈ ts, t.kind ≠ .comment → g t.bare = g t) (others : ∀ t ∈ ts, t.kind = .comment → g t = none) :
    (bareAll ts).filterMap g = ts.filterMap g := by
  induction ts with
  | nil => rfl
  | cons t ts ih =>
    have rest := ih (fun u mem => same u (List.mem_cons_of_mem _ mem))
      (fun u mem => others u (List.mem_cons_of_mem _ mem))
    by_cases comment : t.kind = .comment
    · simp [bareAll, comment, rest, others t List.mem_cons_self comment]
    · simp [bareAll, comment, rest, List.filterMap_cons, same t List.mem_cons_self comment]

theorem childOfKind?_bare (t : Tree) {kinds : List NodeKind} (others : NodeKind.comment ∉ kinds) :
    t.bare.childOfKind? kinds = (t.childOfKind? kinds).map bare := by
  rw [childOfKind?, childOfKind?, children_bare]
  refine find?_bareAll _ (fun c => by rw [kind_bare]) fun c found comment => ?_
  have among : c.kind ∈ kinds := by simpa using List.find?_some found
  exact others (comment ▸ among)

/-! ## Texts -/

mutual

theorem before_of_mem_tokens_bare : ∀ t : Tree, ∀ u ∈ t.bare.tokens, u.before = ""
  | .leaf r k t, u, mem => by
    rw [List.mem_singleton.mp mem]
    rfl
  | .node r k f cs, u, mem => before_of_mem_tokensAll_bare cs u mem

theorem before_of_mem_tokensAll_bare : ∀ ts : List Tree, ∀ u ∈ tokensAll (bareAll ts), u.before = ""
  | [], _, mem => nomatch mem
  | t :: ts, u, mem => by
    unfold bareAll at mem
    split at mem
    · exact before_of_mem_tokensAll_bare ts u mem
    · rcases List.mem_append.mp mem with mem | mem
      · exact before_of_mem_tokens_bare t u mem
      · exact before_of_mem_tokensAll_bare ts u mem

end

/-- Whether the text of a tree is that of its tokens other than comments, with nothing between them. -/
def isDense (t : Tree) : Bool :=
  t.text == String.join (t.bare.tokens.map (·.text))

theorem textOf_of_before {ts : List Token} (none : ∀ t ∈ ts, t.before = "") :
    textOf ts = String.join (ts.map (·.text)) := by
  cases ts with
  | nil => rfl
  | cons t ts =>
    have rest : ts.map (fun u => u.before ++ u.text) = ts.map (·.text) :=
      List.map_congr_left fun u mem => by rw [none u (List.mem_cons_of_mem _ mem), String.empty_append]
    rw [textOf, rest, List.map_cons, String.join_cons]

theorem text_bare {t : Tree} (dense : t.isDense = true) : t.bare.text = t.text := by
  rw [eq_of_beq dense, text, textOf_of_before (before_of_mem_tokens_bare t)]

/-! ## Where layout must stay away -/

/-- Whether a tree is a name that is taken as it is written. -/
def isName (t : Tree) : Bool :=
  t.role == .name || t.role == .key || t.kind == .identifier || t.kind == .scopedIdentifier

/-- Whether a part of a node is a value of an annotation. -/
def hasValue (t c : Tree) : Bool :=
  c.role == .value || (t.kind == .elementValueArray && c.isNamed) ||
    (t.role == .arguments && c.isNamed && c.kind != .elementValuePair && c.kind != .comment)

/-- Whether the name of a type is put together of parts of the tree, or is its whole text without layout in it. -/
def isPlainType (t : Tree) : Bool :=
  t.isDense || t.kind == .scopedTypeIdentifier || (t.kind == .genericType && (genericBase t.children).isSome)

/-- The part of an `extends` clause that counts. -/
def firstType? (t : Tree) : Option Tree :=
  t.children.find? fun c => c.isNamed && c.kind != .marker

/-- Layout between the parts of a node does not show in what is made of them. -/
structure Hides (t : Tree) : Prop where
  comments : ∀ c ∈ t.children, c.kind = .comment → c.role = .plain
  names : ∀ c ∈ t.children, c.isName = true → c.isDense = true
  values : ∀ c ∈ t.children, t.hasValue c = true → c.kind = .elementValueArray ∨ c.isDense = true
  elements : t.kind = .elementValueArray → ∀ c ∈ t.children, c.kind ≠ .comment
  clause : t.role = .superclass ∨ t.kind = .typeList → ∀ c ∈ t.firstType?, c.kind ≠ .comment ∧ c.isPlainType = true
  types : t.kind = .genericType ∨ t.kind = .scopedTypeIdentifier →
    ∀ c ∈ t.children, typeNameKinds.contains c.kind = true → c.isPlainType = true

instance (t : Tree) : Decidable t.Hides :=
  decidable_of_iff
    ((∀ c ∈ t.children, c.kind = .comment → c.role = .plain) ∧
      (∀ c ∈ t.children, c.isName = true → c.isDense = true) ∧
      (∀ c ∈ t.children, t.hasValue c = true → c.kind = .elementValueArray ∨ c.isDense = true) ∧
      (t.kind = .elementValueArray → ∀ c ∈ t.children, c.kind ≠ .comment) ∧
      (t.role = .superclass ∨ t.kind = .typeList →
        ∀ c ∈ t.firstType?, c.kind ≠ .comment ∧ c.isPlainType = true) ∧
      (t.kind = .genericType ∨ t.kind = .scopedTypeIdentifier →
        ∀ c ∈ t.children, typeNameKinds.contains c.kind = true → c.isPlainType = true))
    ⟨fun ⟨comments, names, values, elements, clause, types⟩ => ⟨comments, names, values, elements, clause, types⟩,
      fun hides => ⟨hides.comments, hides.names, hides.values, hides.elements, hides.clause, hides.types⟩⟩

/-- Whether nothing that plays a part is taken from inside a tree. -/
def isPassedOver (t : Tree) : Bool :=
  t.kind == .phrase && t.role == .plain

mutual

/-- Whether layout stays away, all through a tree, from where it would show; what is passed over may hold any. -/
def isTight : Tree → Bool
  | .leaf .. => true
  | .node r k f cs =>
    let t := Tree.node r k f cs
    t.isPassedOver || (decide t.Hides && areTight cs)

def areTight : List Tree → Bool
  | [] => true
  | t :: ts => isTight t && areTight ts

end

theorem areTight_iff {ts : List Tree} : areTight ts = true ↔ ∀ t ∈ ts, t.isTight = true := by
  induction ts with
  | nil => simp [areTight]
  | cons t ts ih => simp [areTight, ih]

theorem tight_inside {t : Tree} (tight : t.isTight = true) (counts : t.isPassedOver = false) :
    t.Hides ∧ ∀ c ∈ t.children, c.isTight = true := by
  cases t with
  | leaf r k token =>
    refine ⟨⟨?_, ?_, ?_, ?_, ?_, ?_⟩, ?_⟩ <;> simp [children, firstType?]
  | node r k f cs => simpa [isTight, counts, areTight_iff, children] using tight

/-! ## Names and values -/

mutual

theorem typeName_bare : ∀ t : Tree, t.isTight = true → t.isPlainType = true → t.bare.typeName = t.typeName
  | .leaf .., _, _ => rfl
  | .node r k f cs, tight, plain => by
    by_cases generic : k = .genericType
    · subst generic
      obtain ⟨hides, inside⟩ := tight_inside tight rfl
      have base := genericBase_bareAll cs inside (hides.types (.inl rfl))
      rw [bare, typeName, typeName, base]
      cases known : genericBase cs with
      | some name => rfl
      | none =>
        -- without a name of its own the whole text counts
        have dense : (node r .genericType f cs).isDense = true := by
          simpa [isPlainType, children, kind, known] using plain
        exact text_bare dense
    by_cases dotted : k = .scopedTypeIdentifier
    · subst dotted
      obtain ⟨hides, inside⟩ := tight_inside tight rfl
      rw [bare, typeName, typeName, scopedParts_bareAll cs inside (hides.types (.inr rfl))]
      rfl
    · have dense : (node r k f cs).isDense = true := by simpa [isPlainType, kind, generic, dotted] using plain
      simpa [bare, typeName, generic, dotted] using text_bare dense

theorem genericBase_bareAll : ∀ ts : List Tree, (∀ t ∈ ts, t.isTight = true) →
    (∀ t ∈ ts, typeNameKinds.contains t.kind = true → t.isPlainType = true) →
    genericBase (bareAll ts) = genericBase ts
  | [], _, _ => rfl
  | t :: ts, tight, plain => by
    have rest := genericBase_bareAll ts (fun u mem => tight u (List.mem_cons_of_mem _ mem))
      fun u mem => plain u (List.mem_cons_of_mem _ mem)
    by_cases comment : t.kind = .comment
    · simp [bareAll, genericBase, comment, rest]
    by_cases base : t.kind = .typeIdentifier ∨ t.kind = .scopedTypeIdentifier
    · have name := typeName_bare t (tight t List.mem_cons_self)
        (plain t List.mem_cons_self (by rcases base with base | base <;> rw [base] <;> rfl))
      simp [bareAll, genericBase, comment, base, name]
    · simp [bareAll, genericBase, comment, base, rest]

theorem scopedParts_bareAll : ∀ ts : List Tree, (∀ t ∈ ts, t.isTight = true) →
    (∀ t ∈ ts, typeNameKinds.contains t.kind = true → t.isPlainType = true) →
    scopedParts (bareAll ts) = scopedParts ts
  | [], _, _ => rfl
  | t :: ts, tight, plain => by
    have rest := scopedParts_bareAll ts (fun u mem => tight u (List.mem_cons_of_mem _ mem))
      fun u mem => plain u (List.mem_cons_of_mem _ mem)
    by_cases comment : t.kind = .comment
    · simp [bareAll, scopedParts, comment, rest, typeNameKinds]
    by_cases part : typeNameKinds.contains t.kind = true
    · have name := typeName_bare t (tight t List.mem_cons_self) (plain t List.mem_cons_self part)
      simp only [bareAll, beq_false_of_ne comment, scopedParts, kind_bare, part, if_true, name, rest,
        Bool.false_eq_true, if_false]
    · simp only [bareAll, beq_false_of_ne comment, scopedParts, kind_bare, part, rest, Bool.false_eq_true, if_false]

end

mutual

theorem valueText_bare : ∀ t : Tree, t.isTight = true → t.kind = .elementValueArray ∨ t.isDense = true →
    t.bare.valueText = t.valueText
  | .leaf .., _, _ => rfl
  | .node r k f cs, tight, plain => by
    by_cases array : k = .elementValueArray
    · subst array
      obtain ⟨hides, inside⟩ := tight_inside tight rfl
      have elements := elementTexts_bareAll cs inside (hides.elements rfl)
        fun c mem named => hides.values c mem (by simp [hasValue, kind, named])
      rw [bare, valueText, valueText, elements]
      rfl
    · have dense : (node r k f cs).isDense = true := plain.resolve_left array
      simpa [bare, valueText, array] using text_bare dense

theorem elementTexts_bareAll : ∀ ts : List Tree, (∀ t ∈ ts, t.isTight = true) → (∀ t ∈ ts, t.kind ≠ .comment) →
    (∀ t ∈ ts, t.isNamed = true → t.kind = .elementValueArray ∨ t.isDense = true) →
    elementTexts (bareAll ts) = elementTexts ts
  | [], _, _, _ => rfl
  | t :: ts, tight, others, plain => by
    have rest := elementTexts_bareAll ts (fun u mem => tight u (List.mem_cons_of_mem _ mem))
      (fun u mem => others u (List.mem_cons_of_mem _ mem)) fun u mem => plain u (List.mem_cons_of_mem _ mem)
    by_cases named : t.isNamed = true
    · have value := valueText_bare t (tight t List.mem_cons_self) (plain t List.mem_cons_self named)
      simp [bareAll, elementTexts, others t List.mem_cons_self, named, value, rest]
    · simp [bareAll, elementTexts, others t List.mem_cons_self, named, rest]

end

/-! ## Markers and fields -/

section Parts

variable {t : Tree}

/-- A part of a node that plays a role is found without layout too. -/
theorem Hides.child?_bare (hides : t.Hides) {r : Role} (part : r ≠ .plain) :
    t.bare.child? r = (t.child? r).map bare := by
  rw [child?, child?, children_bare]
  refine find?_bareAll _ (fun c => by rw [role_bare]) fun c found comment => ?_
  have role : c.role = r := by simpa using List.find?_some found
  exact part (role.symm.trans (hides.comments c (List.mem_of_find?_eq_some found) comment))

theorem Hides.text_bare_of_name (hides : t.Hides) {n : Tree} (found : t.child? .name = some n) :
    n.bare.text = n.text := by
  have role : n.role = .name := by simpa using List.find?_some found
  exact text_bare (hides.names n (List.mem_of_find?_eq_some found) (by simp [isName, role]))

/-- What is made of the name of a node is the same without layout, if it is made of the text. -/
theorem Hides.map_name_bare {α : Type} (hides : t.Hides) {g : Tree → α}
    (same : ∀ n : Tree, n.bare.text = n.text → g n.bare = g n) :
    (t.bare.child? .name).map g = (t.child? .name).map g := by
  rw [hides.child?_bare (by decide), Option.map_map]
  exact Option.map_congr fun n found => same n (hides.text_bare_of_name found)

theorem argument?_bare (tight : t.isTight = true) (comment : t.kind ≠ .comment)
    (plain : t.kind = .elementValuePair ∨ t.kind = .elementValueArray ∨ t.isDense = true) :
    argument? t.bare = argument? t := by
  by_cases pair : t.kind = .elementValuePair
  · obtain ⟨hides, inside⟩ := tight_inside tight (by simp [isPassedOver, pair])
    rw [argument?, argument?, kind_bare, if_pos (by simp [pair]), if_pos (by simp [pair]),
      hides.child?_bare (by decide), hides.child?_bare (by decide)]
    cases key : t.child? .key with
    | none => rfl
    | some k =>
      cases value : t.child? .value with
      | none => rfl
      | some v =>
        have isKey : k.role = .key := by simpa using List.find?_some key
        have isValue : v.role = .value := by simpa using List.find?_some value
        have mem := List.mem_of_find?_eq_some value
        have name := text_bare (hides.names k (List.mem_of_find?_eq_some key) (by simp [isName, isKey]))
        have text := valueText_bare v (inside v mem) (hides.values v mem (by simp [hasValue, isValue]))
        simp [name, text]
  · simp [argument?, pair, comment, valueText_bare t tight (plain.resolve_left pair)]

/-- The arguments of an annotation are the same without layout. -/
theorem arguments_bare (tight : t.isTight = true) (role : t.role = .arguments) :
    t.bare.namedChildren.filterMap argument? = t.namedChildren.filterMap argument? := by
  obtain ⟨hides, inside⟩ := tight_inside tight (by simp [isPassedOver, role])
  rw [namedChildren, namedChildren, List.filterMap_filter, List.filterMap_filter, children_bare]
  refine filterMap_bareAll _ (fun c mem comment => ?_) fun c mem comment => by simp [argument?, comment]
  rw [isNamed_bare]
  by_cases named : c.isNamed = true
  · by_cases pair : c.kind = .elementValuePair
    · rw [argument?_bare (inside c mem) comment (.inl pair)]
    · have plain := hides.values c mem (by simp [hasValue, role, named, pair, comment])
      rw [argument?_bare (inside c mem) comment (.inr plain)]
  · simp [named]

theorem marker?_bare (tight : t.isTight = true) : marker? t.bare = marker? t := by
  rw [marker?, marker?, kind_bare]
  split
  · rename_i marks
    have counts : t.isPassedOver = false := by
      rcases Bool.or_eq_true_iff.mp marks with marks | marks <;> simp [isPassedOver, eq_of_beq marks]
    obtain ⟨hides, inside⟩ := tight_inside tight counts
    rw [hides.child?_bare (r := .arguments) (by decide)]
    cases found : t.child? .arguments with
    | none => exact hides.map_name_bare fun n same => by rw [same]
    | some list =>
      have role : list.role = .arguments := by simpa using List.find?_some found
      have same := arguments_bare (inside list (List.mem_of_find?_eq_some found)) role
      simp only [Option.map_some, same]
      exact hides.map_name_bare fun n same => by rw [same]
  · rfl

/-- The markers of a declaration are the same without layout. -/
theorem markers_bare (inside : ∀ c ∈ t.children, c.isTight = true) : t.bare.markers = t.markers := by
  rw [markers, markers, childOfKind?_bare t (by decide)]
  cases found : t.childOfKind? [.modifiers] with
  | none => rfl
  | some m =>
    have kind : m.kind = .modifiers := by simpa using List.find?_some found
    obtain ⟨-, inside⟩ := tight_inside (inside m (List.mem_of_find?_eq_some found)) (by simp [isPassedOver, kind])
    simp only [Option.map_some]
    rw [namedChildren, namedChildren, List.filterMap_filter, List.filterMap_filter, children_bare]
    refine filterMap_bareAll _ (fun c mem comment => ?_) fun c mem comment => by simp [marker?, comment]
    rw [isNamed_bare, marker?_bare (inside c mem)]

theorem fields_bare (hides : t.Hides) (inside : ∀ c ∈ t.children, c.isTight = true) : t.bare.fields = t.fields := by
  rw [fields, fields, markers_bare inside, childrenPlaying, childrenPlaying, List.filterMap_filter,
    List.filterMap_filter, children_bare]
  refine filterMap_bareAll _ (fun c mem comment => ?_) fun c mem comment => by simp [hides.comments c mem comment]
  rw [role_bare]
  by_cases declarator : c.role = .declarator
  · obtain ⟨hides', -⟩ := tight_inside (inside c mem) (by simp [isPassedOver, declarator])
    rw [if_pos (by simp [declarator]), if_pos (by simp [declarator])]
    exact hides'.map_name_bare fun n same => by rw [same]
  · simp [declarator]

theorem components_bare (hides : t.Hides) (inside : ∀ c ∈ t.children, c.isTight = true) :
    t.bare.components = t.components := by
  rw [components, components, hides.child?_bare (by decide)]
  cases found : t.child? .parameters with
  | none => rfl
  | some ps =>
    have role : ps.role = .parameters := by simpa using List.find?_some found
    obtain ⟨-, inside⟩ := tight_inside (inside ps (List.mem_of_find?_eq_some found)) (by simp [isPassedOver, role])
    simp only [Option.map_some]
    rw [namedChildren, namedChildren, List.filterMap_filter, List.filterMap_filter, children_bare]
    refine filterMap_bareAll _ (fun c mem comment => ?_) fun c mem comment => by simp [comment]
    rw [isNamed_bare, kind_bare]
    by_cases parameter : c.kind = .formalParameter ∨ c.kind = .spreadParameter
    · have counts : c.isPassedOver = false := by
        rcases parameter with kind | kind <;> simp [isPassedOver, kind]
      obtain ⟨hides', inside'⟩ := tight_inside (inside c mem) counts
      rw [markers_bare inside', hides'.map_name_bare fun n same => by rw [same]]
    · simp [parameter]

theorem map_firstType?_bare (tight : t.isTight = true) (clause : t.role = .superclass ∨ t.kind = .typeList) :
    t.bare.firstType?.map typeName = t.firstType?.map typeName := by
  have counts : t.isPassedOver = false := by
    rcases clause with role | kind
    · simp [isPassedOver, role]
    · simp [isPassedOver, kind]
  obtain ⟨hides, inside⟩ := tight_inside tight counts
  have first := hides.clause clause
  have bare_first : t.bare.firstType? = t.firstType?.map bare := by
    rw [firstType?, children_bare]
    exact find?_bareAll _ (fun c => by rw [isNamed_bare, kind_bare]) fun c found => (first c found).1
  rw [bare_first, Option.map_map]
  refine Option.map_congr fun c found => ?_
  exact typeName_bare c (inside c (List.mem_of_find?_eq_some found)) (first c found).2

/-- The clause that names what a declaration extends. -/
def extendsClause? (t : Tree) : Option Tree :=
  (t.child? .superclass).or ((t.childOfKind? [.extendsInterfaces]).bind fun c => c.childOfKind? [.typeList])

theorem supertype?_eq (t : Tree) :
    t.supertype? = t.extendsClause?.bind fun c => (c.firstType?.map typeName).map TypeRef.mk := by
  have first (c : Tree) : c.namedChildren.find? (·.kind != .marker) = c.firstType? := by
    rw [namedChildren, List.find?_filter, firstType?]
    congr 1
    funext d
    rw [Bool.eq_iff_iff]
    simp
  simp only [supertype?, extendsClause?, first, Option.map_map]
  rfl

theorem extendsClause?_bare (hides : t.Hides) : t.bare.extendsClause? = t.extendsClause?.map bare := by
  rw [extendsClause?, extendsClause?, hides.child?_bare (by decide), childOfKind?_bare t (by decide), Option.map_or,
    Option.map_bind, Option.bind_map]
  congr 1
  refine Option.bind_congr fun c _ => childOfKind?_bare c (by decide)

/-- The clause is a part of the declaration, or of a part of it. -/
theorem clause_of_extendsClause? (inside : ∀ c ∈ t.children, c.isTight = true) {c : Tree}
    (found : t.extendsClause? = some c) : c.isTight = true ∧ (c.role = .superclass ∨ c.kind = .typeList) := by
  rcases Option.or_eq_some_iff.mp found with found | ⟨-, found⟩
  · exact ⟨inside c (List.mem_of_find?_eq_some found), .inl (by simpa using List.find?_some found)⟩
  · obtain ⟨list, found', found⟩ := Option.bind_eq_some_iff.mp found
    have kind : list.kind = .extendsInterfaces := by simpa using List.find?_some found'
    obtain ⟨-, inside⟩ := tight_inside (inside list (List.mem_of_find?_eq_some found')) (by simp [isPassedOver, kind])
    exact ⟨inside c (List.mem_of_find?_eq_some found), .inr (by simpa using List.find?_some found)⟩

theorem supertype?_bare (hides : t.Hides) (inside : ∀ c ∈ t.children, c.isTight = true) :
    t.bare.supertype? = t.supertype? := by
  rw [supertype?_eq, supertype?_eq, extendsClause?_bare hides, Option.bind_map]
  refine Option.bind_congr fun c found => ?_
  obtain ⟨tight, clause⟩ := clause_of_extendsClause? inside found
  rw [Function.comp_apply, map_firstType?_bare tight clause]

theorem head_bare (hides : t.Hides) (inside : ∀ c ∈ t.children, c.isTight = true) (setting : Setting)
    (enclosing : List String) (kind : TypeKind) (name : String) :
    t.bare.head setting enclosing kind name = t.head setting enclosing kind name := by
  simp only [head, markers_bare inside, supertype?_bare hides inside, components_bare hides inside]

theorem dottedName?_bare (hides : t.Hides) : t.bare.dottedName? = t.dottedName? := by
  rw [dottedName?, dottedName?, childOfKind?_bare t (by decide), Option.map_map]
  refine Option.map_congr fun n found => ?_
  have kind : n.kind = .scopedIdentifier ∨ n.kind = .identifier := by simpa using List.find?_some found
  have isName : n.isName = true := by rcases kind with kind | kind <;> simp [isName, kind]
  exact text_bare (hides.names n (List.mem_of_find?_eq_some found) isName)

theorem hasSymbol_bare (t : Tree) (symbol : String) : t.bare.hasSymbol symbol = t.hasSymbol symbol := by
  rw [hasSymbol, hasSymbol, children_bare]
  induction t.children with
  | nil => rfl
  | cons c cs ih =>
    by_cases comment : c.kind = .comment
    · cases c with
      | leaf r k u =>
        have same : k = .comment := comment
        subst same
        simp [bareAll, kind, ih]
      | node r k f ds =>
        have same : k = .comment := comment
        subst same
        simp [bareAll, kind, ih]
    · simp only [bareAll, beq_false_of_ne comment, Bool.false_eq_true, if_false, List.any_cons, ih]
      cases c with
      | leaf r k u =>
        by_cases symbol : k = .symbol
        · subst symbol
          rfl
        · simp [bare, symbol]
      | node => rfl

theorem import?_bare (tight : t.isTight = true) : import? t.bare = import? t := by
  rw [import?, import?, kind_bare, hasSymbol_bare]
  by_cases kind : t.kind = .importDeclaration
  · obtain ⟨hides, -⟩ := tight_inside tight (by simp [isPassedOver, kind])
    rw [dottedName?_bare hides, childOfKind?_bare t (by decide), Option.isSome_map]
  · simp [kind]

end Parts

/-! ## Declarations -/

theorem members_of_comment (setting : Setting) (enclosing : List String) {t : Tree} (comment : t.kind = .comment) :
    members setting enclosing t = ([], []) := by
  cases t with
  | leaf => rfl
  | node r k f cs =>
    have same : k = .comment := comment
    subst same
    simp [members, declaredKind?]

theorem partMembers_cons (setting : Setting) (enclosing : List String) {t : Tree} (ts : List Tree)
    (other : t.kind ≠ .enumBodyDeclarations) :
    (partMembers setting enclosing (t :: ts)).1 =
      (members setting enclosing t).1 ++ (partMembers setting enclosing ts).1 := by
  conv_lhs => unfold partMembers
  split
  · rename_i none
    cases none
  · rename_i same
    cases same
    exact absurd rfl other
  · rename_i same
    cases same
    rfl

mutual

/-- The members that a node stands for are the same without layout. -/
theorem members_bare (setting : Setting) (enclosing : List String) :
    ∀ t : Tree, t.isTight = true → (members setting enclosing t.bare).1 = (members setting enclosing t).1
  | .leaf .., _ => rfl
  | .node r k f cs, tight => by
    by_cases field : k = .fieldDeclaration ∨ k = .constantDeclaration
    · have counts : (node r k f cs).isPassedOver = false := by
        rcases field with rfl | rfl <;> rfl
      obtain ⟨hides, inside⟩ := tight_inside tight counts
      have same := fields_bare hides inside
      rw [bare] at same ⊢
      simp [members, field, same]
    cases declared : declaredKind? k with
    | none => simp [members, bare, field, declared]
    | some kind =>
      have counts : (node r k f cs).isPassedOver = false := by
        cases k <;> first | rfl | cases declared
      obtain ⟨hides, inside⟩ := tight_inside tight counts
      have role : (node r k f (bareAll cs)).child? .name = ((node r k f cs).child? .name).map bare :=
        hides.child?_bare (by decide)
      cases found : (node r k f cs).child? .name with
      | none => simp [members, bare, field, declared, role, found]
      | some n =>
        have text := hides.text_bare_of_name found
        have same := head_bare hides inside setting enclosing kind n.text
        have body := bodyMembers_bareAll setting (enclosing ++ [n.text]) cs inside hides.comments
        rw [bare] at same ⊢
        have noField : (k == .fieldDeclaration || k == .constantDeclaration) = false := by simpa using field
        simp only [members, noField, Bool.false_eq_true, if_false, declared, role, found, Option.map_some, text, same]
        split
        · rfl
        · exact congrArg (fun items => [Item.type _ items]) body

theorem bodyMembers_bareAll (setting : Setting) (enclosing : List String) :
    ∀ ts : List Tree, (∀ t ∈ ts, t.isTight = true) → (∀ t ∈ ts, t.kind = .comment → t.role = .plain) →
      (bodyMembers setting enclosing (bareAll ts)).1 = (bodyMembers setting enclosing ts).1
  | [], _, _ => rfl
  | .leaf r k u :: ts, tight, comments => by
    have rest := bodyMembers_bareAll setting enclosing ts (fun u mem => tight u (List.mem_cons_of_mem _ mem))
      fun u mem => comments u (List.mem_cons_of_mem _ mem)
    by_cases comment : k = .comment <;> simpa [bareAll, bare, kind, comment, bodyMembers] using rest
  | .node r k f cs :: ts, tight, comments => by
    have rest := bodyMembers_bareAll setting enclosing ts (fun u mem => tight u (List.mem_cons_of_mem _ mem))
      fun u mem => comments u (List.mem_cons_of_mem _ mem)
    by_cases body : r = .body
    · subst body
      obtain ⟨-, inside⟩ := tight_inside (tight _ List.mem_cons_self) (by simp [isPassedOver, role])
      -- comments play no part, so the body is none
      have comment : k ≠ .comment := fun comment => nomatch comments _ List.mem_cons_self comment
      simpa [bareAll, bare, kind, comment, bodyMembers] using partMembers_bareAll setting enclosing cs inside
    · by_cases comment : k = .comment
      · simpa [bareAll, kind, comment, bodyMembers, body] using rest
      · simpa [bareAll, bare, kind, comment, bodyMembers, body] using rest

theorem partMembers_bareAll (setting : Setting) (enclosing : List String) :
    ∀ ts : List Tree, (∀ t ∈ ts, t.isTight = true) →
      (partMembers setting enclosing (bareAll ts)).1 = (partMembers setting enclosing ts).1
  | [], _ => rfl
  | t :: ts, tight => by
    have rest := partMembers_bareAll setting enclosing ts fun u mem => tight u (List.mem_cons_of_mem _ mem)
    -- a comment stands for no member; members of an enum are one level deeper, those of other trees in the tree itself
    by_cases comment : t.kind = .comment
    · rw [partMembers_cons setting enclosing ts (by rw [comment]; decide), members_of_comment setting enclosing comment,
        ← rest]
      simp [bareAll, comment]
    have some : bareAll (t :: ts) = t.bare :: bareAll ts := by simp [bareAll, comment]
    by_cases held : t.kind = .enumBodyDeclarations
    · rw [some]
      cases t with
      | leaf r k u =>
        have same : k = .enumBodyDeclarations := held
        subst same
        exact rest
      | node r k f cs =>
        have same : k = .enumBodyDeclarations := held
        subst same
        obtain ⟨-, inside⟩ := tight_inside (tight _ List.mem_cons_self) rfl
        have within := allMembers_bareAll setting enclosing cs inside
        exact congrArg₂ (· ++ ·) within rest
    · rw [some, partMembers_cons setting enclosing ts held, partMembers_cons setting enclosing _ (by rwa [kind_bare]),
        members_bare setting enclosing t (tight t List.mem_cons_self), rest]

theorem allMembers_bareAll (setting : Setting) (enclosing : List String) :
    ∀ ts : List Tree, (∀ t ∈ ts, t.isTight = true) →
      (allMembers setting enclosing (bareAll ts)).1 = (allMembers setting enclosing ts).1
  | [], _ => rfl
  | t :: ts, tight => by
    have rest := allMembers_bareAll setting enclosing ts fun u mem => tight u (List.mem_cons_of_mem _ mem)
    by_cases comment : t.kind = .comment
    · simp [bareAll, comment, allMembers, members_of_comment setting enclosing comment, rest]
    · have some : bareAll (t :: ts) = t.bare :: bareAll ts := by simp [bareAll, comment]
      rw [some]
      exact congrArg₂ (· ++ ·) (members_bare setting enclosing t (tight t List.mem_cons_self)) rest

end

end Tree

/-- Where layout stays away from what is taken as it is written, a source has the same declarations without layout. -/
theorem Outline.unit_ofTree_bare (records : Bool) (sourceFile : Option String) {root : Tree}
    (tight : Tree.areTight root.children = true) :
    (ofTree records sourceFile root.bare).unit = (ofTree records sourceFile root).unit := by
  have inside := Tree.areTight_iff.mp tight
  have imports : root.bare.children.filterMap Tree.import? = root.children.filterMap Tree.import? := by
    rw [Tree.children_bare]
    exact Tree.filterMap_bareAll _ (fun t mem _ => Tree.import?_bare (inside t mem)) fun t _ comment => by
      simp [Tree.import?, comment]
  have package : root.bare.package? = root.package? := by
    rw [Tree.package?, Tree.package?, List.filterMap_filter, List.filterMap_filter, Tree.children_bare]
    congr 1
    refine Tree.filterMap_bareAll _ (fun t mem _ => ?_) fun t _ comment => by simp [comment]
    by_cases kind : t.kind = .packageDeclaration
    · obtain ⟨hides, -⟩ := Tree.tight_inside (inside t mem) (by simp [Tree.isPassedOver, kind])
      simp [kind, Tree.dottedName?_bare hides]
    · simp [kind]
  have declared : root.bare.children.filter (fun t => (Tree.declaredKind? t.kind).isSome) =
      Tree.bareAll (root.children.filter fun t => (Tree.declaredKind? t.kind).isSome) := by
    rw [Tree.children_bare, Tree.bareAll_eq, Tree.bareAll_eq, List.filter_map, List.filter_filter, List.filter_filter]
    congr 1
    refine List.filter_congr fun t _ => ?_
    rw [Function.comp_apply, Tree.kind_bare, Bool.and_comm]
  have members := Tree.allMembers_bareAll ⟨root.package?, root.children.filterMap Tree.import?, sourceFile, records⟩ []
    (root.children.filter fun t => (Tree.declaredKind? t.kind).isSome)
    fun t mem => inside t (List.mem_of_mem_filter mem)
  simp only [ofTree, imports, package, declared]
  exact congrArg (fun items => (⟨_, _, _, Tree.declsOf items⟩ : CompilationUnit)) members

end EntityAtlas.Java
