import EntityAtlas.Proofs.ReadTrees
import EntityAtlas.Proofs.Records

/-!
# Trees of types

A type is written as identifiers with dots between them, and each of them may be given arguments. Its tree is made of
scopes and applications, one inside the other. Every tree of a type that a source is read to is such a tree, repaired
sources included: that is a property of the grammar as data, so a survey of the rules tells it.
-/

namespace EntityAtlas.Java

namespace Tree

/-- Trees that neither are types nor parts of the name of one: dots, comments, annotations and arguments. -/
def AreNoTypes (ts : List Tree) : Prop :=
  ∀ t ∈ ts, t.kind ∉ typeNameKinds

/-- A tree is a type, and these are the identifiers in it that stand outside all arguments. A type is given arguments
once; whatever follows it then is not looked at. -/
inductive Spells : Tree → List String → Prop where
  | identifier (r : Role) (x : Token) : Spells (.leaf r .typeIdentifier x) [x.text]
  | member {outer : Tree} {names : List String} (scope : Spells outer names) (before between after : List Tree)
    (aside : AreNoTypes before ∧ AreNoTypes between ∧ AreNoTypes after) (r r' : Role) (f : Bool) (x : Token) :
    Spells (.node r .scopedTypeIdentifier f (before ++ outer :: (between ++ .leaf r' .typeIdentifier x :: after)))
      (names ++ [x.text])
  | applied {base : Tree} {names : List String} (type : Spells base names) (once : base.kind ≠ .genericType)
    (before arguments : List Tree) (aside : AreNoTypes before) (r : Role) (f : Bool) :
    Spells (.node r .genericType f (before ++ base :: arguments)) names

variable {t : Tree} {ts us : List Tree} {names : List String}

theorem Spells.kind (spells : t.Spells names) :
    t.kind = .typeIdentifier ∨ t.kind = .scopedTypeIdentifier ∨ t.kind = .genericType := by
  cases spells with
  | identifier => exact .inl rfl
  | member => exact .inr (.inl rfl)
  | applied => exact .inr (.inr rfl)

theorem Spells.kind_mem (spells : t.Spells names) : t.kind ∈ typeNameKinds := by
  rcases spells.kind with kind | kind | kind <;> simp [typeNameKinds, kind]

theorem Spells.playing (spells : t.Spells names) (r : Role) : (t.playing r).Spells names := by
  cases spells with
  | identifier => exact .identifier _ _
  | member scope before between after aside => exact .member scope before between after aside _ _ _ _
  | applied type once before arguments aside => exact .applied type once before arguments aside _ _

theorem kind_playing (t : Tree) (r : Role) : (t.playing r).kind = t.kind := by
  cases t <;> rfl

theorem AreNoTypes.append (aside : AreNoTypes ts) (aside' : AreNoTypes us) : AreNoTypes (ts ++ us) :=
  List.forall_mem_append.mpr ⟨aside, aside'⟩

/-- All the types in a tree are made of scopes and applications. -/
def IsSpelled (root : Tree) : Prop :=
  ∀ t ∈ root.subtrees, t.kind ∈ typeNameKinds → ∃ names, t.Spells names

/-- A tree stands beside the parts of a type. -/
structure IsAside (t : Tree) : Prop where
  spelled : t.IsSpelled
  kind : t.kind ∉ typeNameKinds

theorem isSpelled_node {r : Role} {k : NodeKind} {f : Bool} (inside : ∀ t ∈ ts, t.IsSpelled)
    (made : k ∈ typeNameKinds → ∃ names, (Tree.node r k f ts).Spells names) : (Tree.node r k f ts).IsSpelled := by
  intro u mem type
  rcases List.mem_cons.mp mem with rfl | mem
  · exact made type
  · rw [subtreesAll_eq] at mem
    obtain ⟨t, among, mem⟩ := List.mem_flatMap.mp mem
    exact inside t among u mem type

theorem isSpelled_leaf {r : Role} {k : NodeKind} (x : Token) (identifier : k ∈ typeNameKinds → k = .typeIdentifier) :
    (Tree.leaf r k x).IsSpelled := by
  intro u mem type
  obtain rfl := List.mem_singleton.mp mem
  obtain rfl : k = .typeIdentifier := identifier type
  exact ⟨_, .identifier r x⟩

theorem isSpelled_playing (t : Tree) (r : Role) (spelled : t.IsSpelled) : (t.playing r).IsSpelled := by
  intro u mem type
  cases t with
  | leaf r' k x =>
    obtain rfl := List.mem_singleton.mp mem
    obtain ⟨names, spells⟩ := spelled (.leaf r' k x) (self_mem_subtrees _) type
    exact ⟨names, spells.playing r⟩
  | node r' k f cs =>
    rcases List.mem_cons.mp mem with rfl | mem
    · obtain ⟨names, spells⟩ := spelled (.node r' k f cs) (self_mem_subtrees _) type
      exact ⟨names, spells.playing r⟩
    · exact spelled u (List.mem_cons_of_mem _ mem) type

theorem isAside_leaf {r : Role} {k : NodeKind} (x : Token) (other : k ∉ typeNameKinds) : (Tree.leaf r k x).IsAside :=
  ⟨isSpelled_leaf x fun type => absurd type other, other⟩

theorem isAside_comment (x : Token) : (TokenRow.commentTree x).IsAside :=
  isAside_leaf x (by decide)

theorem isAside_faultTree (row : TokenRow) (first stop : Nat) : (Repair.faultTree row first stop).IsAside := by
  have inside : ∀ t ∈ (Repair.faultTree row first stop).children, t.IsSpelled :=
    Repair.holds_children_faultTree (fun x => (isAside_comment x).spelled)
      (fun x => isSpelled_leaf x fun type => absurd type (by decide)) first stop
  have other : NodeKind.fault ∉ typeNameKinds := by decide
  exact ⟨isSpelled_node inside fun type => absurd type other, other⟩

end Tree

open Java.Tree (AreNoTypes IsSpelled IsAside typeNameKinds)

/-- What is told of the pieces of a group, as far as types go. -/
inductive TypeShape where
  /-- There are no pieces. -/
  | nothing
  /-- None of them is a type. -/
  | aside
  /-- A single identifier. -/
  | identifier
  /-- A type, and nothing after it that is one; if it is `plain`, it is not given arguments. -/
  | type (plain : Bool)
  /-- A type with an identifier after it. -/
  | dotted
  | anything
  deriving DecidableEq

namespace TypeShape

/-- What a shape says of the trees in a group. -/
def Describes : TypeShape → List Tree → Prop
  | .nothing, ts => ts = []
  | .aside, ts => AreNoTypes ts
  | .identifier, ts => ∃ r x, ts = [.leaf r .typeIdentifier x]
  | .type plain, ts => ∃ t names after, ts = t :: after ∧ t.Spells names ∧ AreNoTypes after ∧
    (plain = true → t.kind ≠ .genericType)
  | .dotted, ts => ∃ t names between r x, ts = t :: (between ++ [.leaf r .typeIdentifier x]) ∧ t.Spells names ∧
    AreNoTypes between
  | .anything, _ => True

def ofToken (k : NodeKind) : Option TypeShape :=
  if k = .typeIdentifier then some .identifier else if k ∈ typeNameKinds then none else some .aside

/-- A dotted type is made of a type and an identifier, and a type that is given arguments of one that is given none. -/
def ofNode : NodeKind → TypeShape → Option TypeShape
  | .scopedTypeIdentifier, .dotted => some (.type true)
  | .genericType, .type true => some (.type false)
  | k, _ => if k ∈ typeNameKinds then none else some .aside

def append : TypeShape → TypeShape → TypeShape
  | .nothing, b => b
  | a, .nothing => a
  | .aside, .aside => .aside
  | .identifier, .aside => .type true
  | .identifier, .identifier => .dotted
  | .type plain, .aside => .type plain
  | .type _, .identifier => .dotted
  | _, _ => .anything

def either (a b : TypeShape) : TypeShape :=
  if a = b then a else
    match a, b with
    | .identifier, .type plain => .type plain
    | .type plain, .identifier => .type plain
    | .type _, .type _ => .type false
    | _, _ => .anything

def playing : TypeShape → TypeShape
  | .nothing => .nothing
  | .aside => .aside
  | _ => .anything

/-- The survey that tells where types are. What is wanted of rules is that annotations and arguments are no types. -/
def survey : Grammar.Survey Rule TypeShape where
  nothing := .nothing
  anything := .anything
  token := ofToken
  node := ofNode
  append := append
  either := either
  playing := playing
  rule r := if r ∈ [.qualifiedName, .marker, .typeArguments] then .aside else .anything

/-- All the shapes. -/
def all : List TypeShape :=
  [.nothing, .aside, .identifier, .type true, .type false, .dotted, .anything]

theorem mem_all (a : TypeShape) : a ∈ all := by
  cases a with
  | type plain => cases plain <;> decide
  | _ => decide

theorem covers_survey : survey.Covers Rule.grammar := by
  intro r a
  -- the shapes are listed, so that one evaluation checks a rule
  have checked : ∀ a ∈ all, (survey.after? (Rule.grammar r) a).any
      (fun b => survey.either b (survey.append a (survey.rule r)) = survey.append a (survey.rule r)) = true := by
    cases r <;> decide +kernel
  exact checked a (mem_all a)

variable {a b : TypeShape} {ts us before : List Tree} {g h : List Piece}

theorem Describes.type_of_identifier (describes : Describes .identifier ts) (plain : Bool) :
    Describes (.type plain) ts := by
  obtain ⟨r, x, rfl⟩ := describes
  exact ⟨_, _, [], rfl, .identifier r x, nofun, fun _ => nofun⟩

theorem Describes.relax {plain : Bool} (describes : Describes (.type plain) ts) : Describes (.type false) ts := by
  obtain ⟨t, names, after, rfl, spells, aside, -⟩ := describes
  exact ⟨t, names, after, rfl, spells, aside, nofun⟩

/-- Trees that are no types do not change that a type stands first. -/
theorem Describes.type_append {plain : Bool} (describes : Describes (.type plain) ts) (aside : AreNoTypes us) :
    Describes (.type plain) (ts ++ us) := by
  obtain ⟨t, names, after, rfl, spells, aside', bare⟩ := describes
  exact ⟨t, names, after ++ us, rfl, spells, aside'.append aside, bare⟩

theorem Describes.dotted_append {plain : Bool} (describes : Describes (.type plain) ts) (aside : AreNoTypes before)
    (identifier : Describes .identifier us) : Describes .dotted (ts ++ before ++ us) := by
  obtain ⟨t, names, after, rfl, spells, aside', -⟩ := describes
  obtain ⟨r, x, rfl⟩ := identifier
  exact ⟨t, names, after ++ before, r, x, by simp, spells, aside'.append aside⟩

theorem Describes.append (describes : Describes a ts) (describes' : Describes b us) (aside : AreNoTypes before)
    (first : ts = [] → before = []) (last : us = [] → before = []) : Describes (append a b) (ts ++ before ++ us) := by
  fun_cases TypeShape.append a b with
  | case1 =>
    obtain rfl : ts = [] := describes
    simpa [first rfl] using describes'
  | case2 =>
    obtain rfl : us = [] := describes'
    simpa [last rfl] using describes
  | case3 => exact (AreNoTypes.append describes aside).append describes'
  | case4 =>
    rw [List.append_assoc]
    exact (describes.type_of_identifier true).type_append (aside.append describes')
  | case5 => exact (describes.type_of_identifier true).dotted_append aside describes'
  | case6 =>
    rw [List.append_assoc]
    exact describes.type_append (aside.append describes')
  | case7 => exact describes.dotted_append aside describes'
  | case8 => trivial

theorem Describes.either (describes : Describes a ts ∨ Describes b ts) : Describes (either a b) ts := by
  unfold TypeShape.either
  split
  · rename_i same
    exact describes.elim id (same ▸ id)
  · split
    · exact describes.elim (·.type_of_identifier _) id
    · exact describes.elim id (·.type_of_identifier _)
    · exact describes.elim (·.relax) (·.relax)
    · trivial

/-- What the survey of types tells of the pieces of a group. -/
structure Fits (a : TypeShape) (g : List Piece) : Prop where
  holds : ∀ p ∈ g, p.Holds IsAside IsSpelled
  describes : a.Describes (Piece.parts g.reverse)

theorem isSpelled_parts (holds : ∀ p ∈ g, p.Holds IsAside IsSpelled) : ∀ t ∈ Piece.parts g.reverse, t.IsSpelled :=
  Piece.holds_parts (fun _ aside => aside.spelled) fun p mem => holds p (List.mem_reverse.mp mem)

theorem describes_token {k : NodeKind} (tells : ofToken k = some a) (r : Role) (x : Token) :
    a.Describes [.leaf r k x] ∧ (k ∈ typeNameKinds → k = .typeIdentifier) := by
  unfold ofToken at tells
  split at tells
  · rename_i identifier
    subst identifier
    cases tells
    exact ⟨⟨r, x, rfl⟩, fun _ => rfl⟩
  · split at tells
    · cases tells
    · rename_i other
      cases tells
      exact ⟨by simpa [Describes, AreNoTypes, Tree.kind] using other, fun type => absurd type other⟩

/-- A node of parts that a survey tells of. -/
theorem describes_node {k : NodeKind} (tells : ofNode k a = some b) (describes : a.Describes ts) :
    b.Describes [.ofChildren k ts] ∧ (k ∈ typeNameKinds → ∃ names, (Tree.ofChildren k ts).Spells names) := by
  unfold ofNode at tells
  split at tells
  · cases tells
    obtain ⟨t, names, between, r, x, rfl, spells, aside⟩ := describes
    have made := Tree.Spells.member spells [] between [] ⟨nofun, aside, nofun⟩ .plain r
      (Tree.ofChildren .scopedTypeIdentifier (t :: (between ++ [.leaf r .typeIdentifier x]))).isFaulty x
    exact ⟨⟨_, _, [], rfl, made, nofun, fun _ => nofun⟩, fun _ => ⟨_, made⟩⟩
  · cases tells
    obtain ⟨t, names, after, rfl, spells, -, plain⟩ := describes
    have made := Tree.Spells.applied spells (plain rfl) [] after nofun .plain
      (Tree.ofChildren .genericType (t :: after)).isFaulty
    exact ⟨⟨_, _, [], rfl, made, nofun, nofun⟩, fun _ => ⟨_, made⟩⟩
  · split at tells
    · cases tells
    · rename_i other
      cases tells
      exact ⟨by simpa [Describes, AreNoTypes, Tree.ofChildren, Tree.kind] using other, fun type => absurd type other⟩

theorem describes_playing (fits : a.Fits g) (r : Role) :
    (playing a).Describes (Piece.parts (g.map fun p => { p with tree := p.tree.playing r }).reverse) := by
  cases a with
  | nothing =>
    have none : g = [] := List.reverse_eq_nil_iff.mp (Piece.parts_eq_nil_iff.mp fits.describes)
    rw [none]
    rfl
  | aside =>
    have others : ∀ p ∈ g, p.tree.kind ∉ typeNameKinds :=
      fun p mem => fits.describes p.tree (Piece.tree_mem_parts (List.mem_reverse.mpr mem))
    refine Piece.holds_parts (fun t (aside : t.IsAside) => aside.kind) fun p mem => ?_
    obtain ⟨q, held, rfl⟩ := List.mem_map.mp (List.mem_reverse.mp mem)
    exact ⟨Tree.kind_playing q.tree r ▸ others q held, (fits.holds q held).leading⟩
  | _ => trivial

theorem isSound_survey : survey.IsSound IsAside Fits where
  comment := Tree.isAside_comment
  fault := Tree.isAside_faultTree
  nothing := ⟨nofun, rfl⟩
  anything fits := ⟨fits.holds, trivial⟩
  token tells aside n := by
    obtain ⟨describes, identifier⟩ := describes_token tells .plain _
    exact ⟨by simpa using ⟨Tree.isSpelled_leaf _ identifier, aside⟩, describes⟩
  node tells fits n := by
    obtain ⟨describes, made⟩ := describes_node tells fits.describes
    have spelled := Tree.isSpelled_node (isSpelled_parts fits.holds) made
    exact ⟨by simpa using Piece.holds_wrap spelled fits.holds n, describes⟩
  append {a b g h} fits fits' := by
    obtain ⟨before, aside, first, last, parts⟩ := Piece.exists_parts_append h.reverse
      fun q mem => fits'.holds q (List.mem_reverse.mp mem)
    refine ⟨List.forall_mem_append.mpr ⟨fits'.holds, fits.holds⟩, ?_⟩
    rw [List.reverse_append, parts]
    exact fits.describes.append fits'.describes (fun t mem => (aside t mem).kind) first last
  either fits := ⟨fits.elim (·.holds) (·.holds), .either (fits.imp (·.describes) (·.describes))⟩
  playing fits r := ⟨Piece.holds_playing Tree.isSpelled_playing fits.holds r, describes_playing fits r⟩
  joined {a g} fits n := by
    have same : Piece.parts (Reading.joinLatest n g).reverse = Piece.parts g.reverse :=
      Piece.parts_congr (by rw [List.map_reverse, Reading.map_joinLatest, List.map_reverse])
    exact ⟨Piece.holds_joinLatest n fits.holds, same ▸ fits.describes⟩

end TypeShape

/-- All the types in the tree of a source are made of scopes and applications. -/
theorem Tree.isSpelled_ofSource (cs : List Char) : (ofSource cs).IsSpelled := by
  have others {k : NodeKind} (other : k ∉ typeNameKinds) {ts : List Tree} (inside : ∀ t ∈ ts, t.IsSpelled) :
      (Tree.ofChildren k ts).IsSpelled :=
    isSpelled_node inside fun type => absurd type other
  refine holds_ofSource (fun row r t reads => ?_) (fun row => ?_) cs
  · obtain ⟨g, after, fits, aside, rfl⟩ :=
      Repair.exists_pieces_of_read TypeShape.isSound_survey TypeShape.covers_survey (a := .anything)
        ⟨nofun, trivial⟩ rfl reads
    refine others (by decide) (List.forall_mem_append.mpr ⟨?_, fun t mem => (aside t mem).spelled⟩)
    exact Piece.holds_spread (fun _ aside => aside.spelled) fun p mem => fits.holds p (List.mem_reverse.mp mem)
  · exact others (by decide) (Repair.holds_children_beyondRepair (fun x => (isAside_comment x).spelled)
      fun first stop => (isAside_faultTree row first stop).spelled)

end EntityAtlas.Java
