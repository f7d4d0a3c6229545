import EntityAtlas.Proofs.StrictNames
import EntityAtlas.Proofs.TypeTrees

/-!
# Names of types

What a declaration tells of the type that it extends are the identifiers outside all arguments and the dots between
them: both readers come to the same name, one by going down a tree of scopes and applications, the other by following a
chain. So a declaration tells the same, whatever arguments the type is given.
-/

namespace EntityAtlas.Java

namespace Tree

variable {t u : Tree} {names : List String}

theorem Spells.ne_nil (spells : t.Spells names) : names ≠ [] := by
  induction spells with
  | identifier => exact List.cons_ne_nil _ _
  | member => simp
  | applied _ _ _ _ _ _ _ ih => exact ih

theorem scopedParts_eq (ts : List Tree) : scopedParts ts = (ts.filter (·.kind ∈ typeNameKinds)).map typeName := by
  induction ts with
  | nil => rfl
  | cons t ts ih => by_cases part : t.kind ∈ typeNameKinds <;> simp [scopedParts, part, ih]

theorem filter_of_areNoTypes {ts : List Tree} (aside : AreNoTypes ts) : ts.filter (·.kind ∈ typeNameKinds) = [] :=
  List.filter_eq_nil_iff.mpr fun t mem => by simp [aside t mem]

/-- What stands beside two parts of a dotted type does not show. -/
theorem scopedParts_pair {outer : Tree} (inner : Tree) {before between after : List Tree} (aside : AreNoTypes before)
    (aside' : AreNoTypes between) (aside'' : AreNoTypes after) (part : outer.kind ∈ typeNameKinds)
    (part' : inner.kind ∈ typeNameKinds) :
    scopedParts (before ++ outer :: (between ++ inner :: after)) = [outer.typeName, inner.typeName] := by
  rw [scopedParts_eq, List.filter_append, List.filter_cons_of_pos (by simpa using part), List.filter_append,
    List.filter_cons_of_pos (by simpa using part'), filter_of_areNoTypes aside, filter_of_areNoTypes aside',
    filter_of_areNoTypes aside'']
  rfl

theorem genericBase_of_named {base : Tree} {before : List Tree} (aside : AreNoTypes before)
    (named : base.kind = .typeIdentifier ∨ base.kind = .scopedTypeIdentifier) (arguments : List Tree) :
    genericBase (before ++ base :: arguments) = some base.typeName := by
  induction before with
  | nil => rcases named with kind | kind <;> simp [genericBase, kind]
  | cons t ts ih =>
    have other : t.kind ≠ .typeIdentifier ∧ t.kind ≠ .scopedTypeIdentifier := by
      have none := aside t List.mem_cons_self
      constructor <;> intro kind <;> simp [typeNameKinds, kind] at none
    simp [genericBase, other, ih fun u mem => aside u (List.mem_cons_of_mem _ mem)]

/-- The name of a type are the identifiers outside all arguments, with dots between them. -/
theorem typeName_of_spells (spells : t.Spells names) : t.typeName = ".".intercalate names := by
  induction spells with
  | identifier r x => simp [typeName, text, tokens, textOf]
  | member scope before between after aside r r' f x ih =>
    have inner : typeName (.leaf r' .typeIdentifier x) = x.text := by simp [typeName, text, tokens, textOf]
    have parts := scopedParts_pair (.leaf r' .typeIdentifier x) aside.1 aside.2.1 aside.2.2 scope.kind_mem
      (by simp [typeNameKinds, Tree.kind])
    rw [typeName, if_neg (by decide), if_pos (by decide), parts, ih, inner, String.intercalate_cons_cons,
      String.intercalate_singleton, String.intercalate_append_of_ne_nil scope.ne_nil (List.cons_ne_nil _ _),
      String.intercalate_singleton]
  | applied type once before arguments aside r f ih =>
    have named := type.kind
    rw [typeName, if_pos (by decide), genericBase_of_named aside (by simpa [once] using named), ih]
    rfl

/-- The declarations that are the same but for a type, which stands in the clause that tells what a class extends, or in
the one of an interface. -/
inductive IsSupertypePlace : (Tree → Tree) → Prop where
  | ofClass (r : Role) (k : NodeKind) (f f' : Bool) (before after lead trail : List Tree) :
    IsSupertypePlace fun t => .node r k f (before ++ .node .superclass .superclass f' (lead ++ t :: trail) :: after)
  | ofInterface (r r' : Role) (k : NodeKind) (f f' f'' : Bool) (before after before' after' lead trail : List Tree) :
    IsSupertypePlace fun t => .node r k f (before ++
      .node .plain .extendsInterfaces f' (before' ++ .node r' .typeList f'' (lead ++ t :: trail) :: after') :: after)

/-- What is made of the first tree that is wanted stays the same if one tree gives way to another from which the same
is made. -/
theorem find?_swap {α : Type} (make : Option Tree → α) {p : Tree → Bool} (wanted : p t = p u)
    (same : p u = true → make (some t) = make (some u)) (before after : List Tree) :
    make ((before ++ t :: after).find? p) = make ((before ++ u :: after).find? p) := by
  rw [List.find?_append, List.find?_append, List.find?_cons, List.find?_cons, wanted]
  cases before.find? p with
  | some x => rfl
  | none =>
    cases is : p u with
    | true => exact same is
    | false => rfl

/-- The name of the type that counts in a clause. -/
def clauseName? (c : Tree) : Option String :=
  c.firstType?.map typeName

/-- The name of the type that counts in the list of types among the parts of a clause. -/
def listName? (c : Tree) : Option (Option String) :=
  (c.childOfKind? [.typeList]).map clauseName?

theorem supertype?_eq_clauseName? (t : Tree) : t.supertype? =
    (((t.child? .superclass).map clauseName?).or ((t.childOfKind? [.extendsInterfaces]).bind listName?)).bind
      (Option.map TypeRef.mk) := by
  have list : (t.childOfKind? [.extendsInterfaces]).bind listName? =
      ((t.childOfKind? [.extendsInterfaces]).bind fun c => c.childOfKind? [.typeList]).map clauseName? :=
    Option.map_bind.symm
  rw [supertype?_eq, extendsClause?, list, ← Option.map_or, Option.bind_map]
  rfl

theorem supertype?_congr (clause : (t.child? .superclass).map clauseName? = (u.child? .superclass).map clauseName?)
    (list : (t.childOfKind? [.extendsInterfaces]).bind listName? =
      (u.childOfKind? [.extendsInterfaces]).bind listName?) : t.supertype? = u.supertype? := by
  rw [supertype?_eq_clauseName?, supertype?_eq_clauseName?, clause, list]

/-- The type that counts in a clause gives way to one of the same name, or another one counts. -/
theorem clauseName?_swap (spells : t.Spells names) (spells' : u.Spells names) (r : Role) (k : NodeKind) (f : Bool)
    (lead trail : List Tree) :
    clauseName? (.node r k f (lead ++ t :: trail)) = clauseName? (.node r k f (lead ++ u :: trail)) := by
  have counts {v : Tree} (spells : v.Spells names) : (v.isNamed && v.kind != .marker) = true := by
    rcases spells.kind with kind | kind | kind <;> simp [isNamed, kind]
  have name : t.typeName = u.typeName := (typeName_of_spells spells).trans (typeName_of_spells spells').symm
  refine find?_swap (Option.map typeName) ((counts spells).trans (counts spells').symm) (fun _ => ?_) lead trail
  rw [Option.map_some, Option.map_some, name]

/-- A type that a declaration extends may give way to one of the same name. -/
theorem supertype?_swap {place : Tree → Tree} (extending : IsSupertypePlace place) (spells : t.Spells names)
    (spells' : u.Spells names) : (place t).supertype? = (place u).supertype? := by
  cases extending with
  | ofClass r k f f' before after lead trail =>
    have clause := clauseName?_swap spells spells' .superclass .superclass f' lead trail
    refine supertype?_congr ?_ ?_
    · exact find?_swap (Option.map clauseName?) (by rfl) (fun _ => congrArg some clause) before after
    · exact find?_swap (Option.bind · listName?) (by rfl) (by simp [kind]) before after
  | ofInterface r r' k f f' f'' before after before' after' lead trail =>
    have clause := clauseName?_swap spells spells' r' .typeList f'' lead trail
    let around (v : Tree) : Tree :=
      .node .plain .extendsInterfaces f' (before' ++ .node r' .typeList f'' (lead ++ v :: trail) :: after')
    have list : (around t).listName? = (around u).listName? :=
      find?_swap (Option.map clauseName?) (by rfl) (fun _ => congrArg some clause) before' after'
    refine supertype?_congr ?_ ?_
    · exact find?_swap (Option.map clauseName?) (by rfl) (by simp [role]) before after
    · exact find?_swap (Option.bind · listName?) (by rfl) (fun _ => list) before after

end Tree

namespace Strict.Node

/-- A chain of nodes is a type, and these are the identifiers in it that stand outside all arguments: each node holds
one, the outermost first, beside whatever arguments it is given. -/
inductive Spells : Node → List String → Prop where
  | last {ps : List (String × Node)} {x : String} (name : (node .referenceType ps).part "name" = .text x)
    (nonempty : x ≠ "") (ends : (node .referenceType ps).part "sub_type" = .absent) :
    Spells (.node .referenceType ps) [x]
  | outer {ps : List (String × Node)} {x : String} {inner : Node} {names : List String}
    (name : (node .referenceType ps).part "name" = .text x) (nonempty : x ≠ "")
    (goesOn : (node .referenceType ps).part "sub_type" = inner) (rest : Spells inner names) :
    Spells (.node .referenceType ps) (x :: names)

variable {n m : Node} {names : List String}

theorem innerNames_eq (k : NodeKind) (ps : List (String × Node)) :
    innerNames ps = ((node k ps).part "sub_type").typeNames := by
  induction ps with
  | nil => rfl
  | cons p ps ih => by_cases inner : p.1 = "sub_type" <;> simp_all [innerNames, part]

/-- The names of a chain are the one that its first node holds and those of the rest. -/
theorem typeNames_node {k : NodeKind} {ps : List (String × Node)} {x : String}
    (name : (node k ps).part "name" = .text x) (nonempty : x ≠ "") :
    (node k ps).typeNames = x :: ((node k ps).part "sub_type").typeNames := by
  have held : (ps.find? (·.1 == "name")).map (·.2) = some (.text x) := by
    rw [part] at name
    cases found : (ps.find? (·.1 == "name")).map (·.2) with
    | none => simp [found] at name
    | some value => simpa [found] using name
  rw [typeNames, held, innerNames_eq k ps]
  simp [nonempty]

theorem typeNames_of_spells (spells : n.Spells names) : n.typeNames = names := by
  induction spells with
  | last name nonempty ends => rw [typeNames_node name nonempty, ends, typeNames]; simp
  | outer name nonempty goesOn _ ih => rw [typeNames_node name nonempty, goesOn, ih]

theorem typeName_of_spells (spells : n.Spells names) : n.typeName = ".".intercalate names := by
  rw [typeName, typeNames_of_spells spells]

/-- A declaration tells the name of the type that it extends, or of the first one of several. -/
theorem supertype?_of_spells (spells : n.Spells names) (d : Node) :
    (d.part "extends" = n → d.supertype? = some ⟨".".intercalate names⟩) ∧
      ∀ others, d.part "extends" = .list (n :: others) → d.supertype? = some ⟨".".intercalate names⟩ := by
  rw [← typeName_of_spells spells]
  constructor
  · intro held
    rw [supertype?, held]
    cases spells <;> rfl
  · intro others held
    rw [supertype?, held]

/-- A type that is declared somewhere is a chain. -/
def IsSpelled (n : Node) : Prop :=
  n.kind? = some .referenceType → ∃ names, n.Spells names

theorem Spells.set (spells : n.Spells names) {part : String} (name : part ≠ "name") (inner : part ≠ "sub_type")
    (value : Node) : (n.set part value).Spells names := by
  cases spells with
  | @last ps _ held nonempty ends =>
    have others {other : String} (apart : part ≠ other) := part_set_of_ne (.node .referenceType ps) apart value
    exact .last ((others name).trans held) nonempty ((others inner).trans ends)
  | @outer ps _ _ _ held nonempty goesOn rest =>
    have others {other : String} (apart : part ≠ other) := part_set_of_ne (.node .referenceType ps) apart value
    exact .outer ((others name).trans held) nonempty ((others inner).trans goesOn) rest

/-- Brackets do not change which type it is. -/
theorem IsSpelled.setDimensions (spelled : n.IsSpelled) (value : Node) : (n.set "dimensions" value).IsSpelled := by
  intro kind
  have same : (n.set "dimensions" value).kind? = n.kind? := by cases n <;> rfl
  obtain ⟨names, spells⟩ := spelled (same ▸ kind)
  exact ⟨names, spells.set (by decide) (by decide) value⟩

theorem isSpelled_ofOption {o : Option Node} (spelled : ∀ n ∈ o, n.IsSpelled) : (ofOption o).IsSpelled := by
  cases o with
  | none => nofun
  | some n => exact spelled n rfl

open Read (Gives)

/-- A dotted type that is read is a chain. -/
theorem gives_typeChain (arguments : Read Node) (fuel : Nat) :
    Gives (typeChain arguments fuel) fun n => ∃ names, n.Spells names := by
  induction fuel with
  | zero => exact .throw _
  | succ fuel ih =>
    refine .bind Read.gives_name fun x segment => .after fun given => .bind (.optional ih) fun o chain => .pure ?_
    cases o with
    | none => exact ⟨[x], .last rfl segment.nonempty rfl⟩
    | some n =>
      obtain ⟨names, spells⟩ := chain n rfl
      exact ⟨x :: names, .outer rfl segment.nonempty rfl spells⟩

theorem gives_basicType : Gives basicType IsSpelled :=
  .after fun _ => .pure nofun

theorem gives_referenceType (fuel : Nat) : Gives (Phrase.read fuel .referenceType) IsSpelled := by
  cases fuel with
  | zero => exact .throw _
  | succ fuel =>
    refine .after fun cursor => ?_
    intro s n s' reads kind
    exact gives_typeChain _ _ s n s' reads

theorem gives_anyType (fuel : Nat) : Gives (anyType (Phrase.read fuel)) IsSpelled := by
  have brackets (n : Node) (spelled : n.IsSpelled) :
      Gives (do return n.set "dimensions" (.list (← dimensions))) IsSpelled :=
    .after fun _ => .pure (spelled.setDimensions _)
  refine .after fun _ => .after fun _ => .ite (.bind gives_basicType brackets) (.ite ?_ ?_)
  · exact .bind (gives_referenceType fuel) brackets
  · exact .bind (.refuse _) brackets

theorem gives_objectType (fuel : Nat) : Gives (objectType (Phrase.read fuel)) IsSpelled := by
  have brackets (n : Node) (spelled : n.IsSpelled) : Gives (do return addDimensions n (← dimensions)) IsSpelled :=
    .after fun _ => .pure (spelled.setDimensions _)
  have marked (n : Node) (spelled : n.IsSpelled) (value : Node) :
      Gives (pure (n.set "dimensions" value)) IsSpelled :=
    .pure (spelled.setDimensions value)
  refine .after fun _ => .ite (.bind gives_basicType fun n spelled => .after fun _ => ?_) ?_
  · exact .bind (marked n spelled _) brackets
  · exact .bind (gives_referenceType fuel) fun n spelled => .bind (marked n spelled _) brackets

/-- What a class extends is a type of the language itself, or a chain. -/
theorem gives_classParent (fuel : Nat) :
    Gives (classDeclaration (Phrase.read fuel)) fun d => (d.part "extends").IsSpelled :=
  .after fun _ => .after fun _ => .after fun _ => .bind (.optional (gives_anyType fuel)) fun _ spelled =>
    .after fun _ => .after fun _ => .pure (isSpelled_ofOption spelled)

/-- So is everything that an interface extends. -/
theorem gives_interfaceParents (fuel : Nat) :
    Gives (interfaceDeclaration (Phrase.read fuel)) fun d => ∀ n ∈ (d.part "extends").items, n.IsSpelled := by
  refine .after fun _ => .after fun _ => .after fun _ => .bind (.optional (.oneOrMore (gives_objectType fuel)))
    fun o spelled => .after fun _ => .pure ?_
  cases o with
  | none => nofun
  | some ns => exact (spelled ns rfl).2

end Strict.Node

/-- The types of a source are trees of scopes and applications, or chains of nodes, and the name of a type are the
identifiers outside all arguments with dots between them, however scopes and applications lie in one another: both
readers come to the same one. So types with the same identifiers outside arguments are told alike by what extends them,
whatever arguments they are given. -/
theorem typeName_without_arguments :
    (∀ cs, (Tree.ofSource cs).IsSpelled) ∧
    (∀ fuel, Strict.Read.Gives (Strict.classDeclaration (Strict.Phrase.read fuel)) fun d =>
      (d.part "extends").IsSpelled) ∧
    (∀ fuel, Strict.Read.Gives (Strict.interfaceDeclaration (Strict.Phrase.read fuel)) fun d =>
      ∀ n ∈ (d.part "extends").items, n.IsSpelled) ∧
    ∀ names : List String,
      (∀ t : Tree, t.Spells names → t.typeName = ".".intercalate names) ∧
      (∀ n : Strict.Node, n.Spells names → n.typeName = ".".intercalate names) ∧
      (∀ t u : Tree, t.Spells names → u.Spells names → ∀ place : Tree → Tree, Tree.IsSupertypePlace place →
        (place t).supertype? = (place u).supertype?) ∧
      ∀ n : Strict.Node, n.Spells names → ∀ d : Strict.Node,
        (d.part "extends" = n → d.supertype? = some ⟨".".intercalate names⟩) ∧
          ∀ others, d.part "extends" = .list (n :: others) → d.supertype? = some ⟨".".intercalate names⟩ :=
  ⟨Tree.isSpelled_ofSource, Strict.Node.gives_classParent, Strict.Node.gives_interfaceParents, fun _ =>
    ⟨fun _ spells => Tree.typeName_of_spells spells, fun _ chain => Strict.Node.typeName_of_spells chain,
      fun _ _ spells spells' _ extending => Tree.supertype?_swap extending spells spells',
      fun _ chain d => Strict.Node.supertype?_of_spells chain d⟩⟩

/-- A word as a node of a kind. -/
def wordTree (kind : NodeKind) (s : String) (segment : Text.IsSegment s) : Tree :=
  .leaf .plain kind ⟨.word, s, "", default, default, fun _ => segment⟩

/-- A mark, or several in a row. -/
def markTree (s : String) : Tree :=
  .leaf .plain .symbol ⟨.symbol, s, "", default, default, nofun⟩

/-- The type `A.B`. -/
def plainType : Tree :=
  .ofChildren .scopedTypeIdentifier
    [wordTree .typeIdentifier "A" ⟨by decide, by decide, by decide⟩, markTree ".",
      wordTree .typeIdentifier "B" ⟨by decide, by decide, by decide⟩]

/-- The type `A<?>./**/@N B<?>`. -/
def appliedType : Tree :=
  .ofChildren .genericType
    [.ofChildren .scopedTypeIdentifier
      [.ofChildren .genericType
          [wordTree .typeIdentifier "A" ⟨by decide, by decide, by decide⟩, .ofChildren .phrase [markTree "<?>"]],
        markTree ".", .leaf .plain .comment ⟨.blockComment, "/**/", "", default, default, nofun⟩,
        .ofChildren .bareMarker [markTree "@", wordTree .identifier "N" ⟨by decide, by decide, by decide⟩],
        wordTree .typeIdentifier "B" ⟨by decide, by decide, by decide⟩],
      .ofChildren .phrase [markTree "<?>"]]

/-- The chain of nodes of the type `A<?>.B`. -/
def chainedType : Strict.Node :=
  .node .referenceType [("name", .text "A"), ("arguments", .list [.node .typeArgument [("pattern_type", .text "?")]]),
    ("sub_type", .node .referenceType [("name", .text "B"), ("arguments", .absent), ("sub_type", .absent)])]

theorem typeName_without_arguments_nested :
    let names := ["A", "B"]
    appliedType.Spells names ∧ plainType.Spells names ∧ chainedType.Spells names ∧
      appliedType.typeName = "A.B" ∧ chainedType.typeName = "A.B" ∧
      ∀ place, Tree.IsSupertypePlace place → (place appliedType).supertype? = (place plainType).supertype? := by
  intro names
  have plain : plainType.Spells names :=
    .member (.identifier _ _) [] [_] []
      ⟨nofun, by simp [Tree.AreNoTypes, Tree.kind, Tree.typeNameKinds, markTree], nofun⟩ _ _ _ _
  have applied : appliedType.Spells names :=
    .applied
      (.member (.applied (.identifier _ _) (by decide) [] _ nofun _ _) [] [_, _, _] []
        ⟨nofun, by simp [Tree.AreNoTypes, Tree.kind, Tree.typeNameKinds, markTree, Tree.ofChildren], nofun⟩ _ _ _ _)
      (by decide) [] _ nofun _ _
  have chain : chainedType.Spells names := .outer rfl (by decide) rfl (.last rfl (by decide) rfl)
  obtain ⟨name, chained, place, -⟩ := typeName_without_arguments.2.2.2 names
  exact ⟨applied, plain, chain, name _ applied, chained _ chain, place _ _ applied plain⟩

/-- Both readers tell the same of what a class extends, with arguments and without. -/
example :
    let supertypes (level : Level) (source : String) :=
      (Outline.ofSource .standard level none source.toList).map fun o => o.unit.types.map Decl.supertype?
    ∀ level ∈ Level.all,
      supertypes level "class C extends p.A<? super int[]>.B<D<E>, F> \x7b\x7d" = .ok [some ⟨"p.A.B"⟩] ∧
        supertypes level "class C extends p.A.B \x7b\x7d" = .ok [some ⟨"p.A.B"⟩] := by
  decide +kernel

end EntityAtlas.Java
