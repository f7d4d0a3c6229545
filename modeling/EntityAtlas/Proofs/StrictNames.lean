import EntityAtlas.Java.Strict.Outline
import EntityAtlas.Proofs.DottedNames
import EntityAtlas.Proofs.Places

/-!
# Names in strictly read sources

The strict reader takes every name from one token, and a token that is an identifier is a segment of a dotted name. So
every declaration that it reads, at any depth, is called by a segment, and a package by several. Other members of a body
declare nothing, and what stands before a declaration is set beside its name and its body.
-/

namespace EntityAtlas.Java.Strict

/-! ## What reading gives -/

namespace Read

variable {α β : Type} {P : α → Prop} {Q : β → Prop}

/-- Whatever reading gives has a property. -/
def Gives (r : Read α) (P : α → Prop) : Prop :=
  ∀ s a s', r s = .ok a s' → P a

namespace Gives

theorem pure {a : α} (holds : P a) : Gives (Pure.pure a) P := by
  intro s a' s' reads
  cases reads
  exact holds

theorem bind {r : Read α} {f : α → Read β} (first : Gives r P) (next : ∀ a, P a → Gives (f a) Q) :
    Gives (r >>= f) Q := by
  intro s b s' reads
  change EStateM.bind r f s = _ at reads
  unfold EStateM.bind at reads
  split at reads
  · rename_i a s₁ reads₁
    exact next a (first s a s₁ reads₁) s₁ b s' reads
  · cases reads

theorem any (r : Read α) : Gives r fun _ => True := fun _ _ _ _ => trivial

/-- Reading on after something of which nothing is asked. -/
theorem after {r : Read α} {f : α → Read β} (next : ∀ a, Gives (f a) Q) : Gives (r >>= f) Q :=
  bind (any r) fun a _ => next a

theorem throw (f : Fault) : Gives (MonadExcept.throw f) P := by
  intro s a s' reads
  cases reads

theorem refuse (what : String) : Gives (Read.refuse what) P := by
  unfold Read.refuse
  exact after fun _ => throw _

theorem ite {c : Prop} {_ : Decidable c} {r r' : Read α} (yes : Gives r P) (no : Gives r' P) :
    Gives (if c then r else r') P := by
  split
  · exact yes
  · exact no

theorem tryCatch {r : Read α} {handle : Fault → Read α} (first : Gives r P) (second : ∀ f, Gives (handle f) P) :
    Gives (MonadExcept.tryCatch r handle) P := by
  intro s a s' reads
  change EStateM.tryCatch r handle s = _ at reads
  unfold EStateM.tryCatch at reads
  dsimp only at reads
  split at reads
  · exact second _ _ _ _ reads
  · exact first _ _ _ reads

theorem repeatUpTo {goesOn : Read Bool} {item : Read α} (each : Gives item P) (fuel : Nat) :
    Gives (Read.repeatUpTo goesOn item fuel) fun as => ∀ a ∈ as, P a := by
  induction fuel with
  | zero => exact pure (by simp)
  | succ fuel ih =>
    refine after fun b => ite (bind each fun a holds => bind ih fun as others => pure ?_) (pure (by simp))
    intro a' mem
    rcases List.mem_cons.mp mem with rfl | mem
    · exact holds
    · exact others a' mem

theorem repeatWhile {goesOn : Read Bool} {item : Read α} (each : Gives item P) :
    Gives (Read.repeatWhile goesOn item) fun as => ∀ a ∈ as, P a :=
  after fun _ => repeatUpTo each _

theorem optional {test : Read Bool} {item : Read α} (each : Gives item P) :
    Gives (Read.optional test item) fun found => ∀ a ∈ found, P a :=
  after fun _ => ite (bind each fun _ holds => pure (by simpa using holds)) (pure (by simp))

theorem oneOrMore {goesOn : Read Bool} {item : Read α} (each : Gives item P) :
    Gives (Read.oneOrMore goesOn item) fun as => as ≠ [] ∧ ∀ a ∈ as, P a :=
  .bind each fun _ first => .bind (repeatWhile each) fun _ others =>
    .pure ⟨by simp, List.forall_mem_cons.mpr ⟨first, others⟩⟩

end Gives

/-- A name is a segment. -/
theorem gives_name : Gives name Text.IsSegment := by
  refine .bind (P := fun _ => True) (.any _) fun t _ => ?_
  by_cases accepted : Wanted.accepts .name t = true
  · simp only [accepted, Bool.not_true, Bool.false_eq_true, ↓reduceIte, List.isEmpty_nil]
    exact .pure (t.named (by simpa [Wanted.accepts] using accepted))
  · simp only [accepted, Bool.not_false, ↓reduceIte]
    exact .bind (P := fun _ => False) (.refuse _) fun _ never => never.elim

/-- A dotted name has segments for its pieces. -/
theorem gives_dottedName : Gives dottedName fun s => ∀ piece ∈ Text.pieces '.' s, Text.IsSegment piece := by
  refine .bind (.oneOrMore gives_name) fun names segments => .pure fun piece mem => segments.2 piece ?_
  rwa [Text.pieces_intercalate rfl segments.1 fun name among => (segments.2 name among).2] at mem

end Read

/-! ## Members -/

namespace NodeKind

/-- Whether nodes of the kind declare a type. -/
def declares (k : NodeKind) : Bool :=
  k == .classDeclaration || k == .interfaceDeclaration || k == .enumDeclaration || k == .annotationDeclaration

end NodeKind

namespace Node

/-- What a member declares is called by segments. -/
def Sound (n : Node) : Prop :=
  ∀ setting enclosing, Item.Named (n.members setting enclosing)

/-- What a body declares is called by segments. -/
def Held (n : Node) : Prop :=
  ∀ setting enclosing, Item.Named (heldMembers setting enclosing n)

theorem declared?_node (k : NodeKind) (ps : List (String × Node)) :
    (declared? (.node k ps)).isSome = k.declares := by
  cases k <;> rfl

/-- What a node declares is called by segments if the node declares nothing, or has a segment for its name and a body of
such members. -/
theorem sound_node_iff (k : NodeKind) (ps : List (String × Node)) :
    Sound (.node k ps) ↔ (k.declares = true → Text.IsSegment (declaredName (.node k ps)) ∧
      ∀ setting enclosing, Item.Named (bodyMembers setting (enclosing ++ [declaredName (.node k ps)]) ps)) := by
  have kinds := declared?_node k ps
  have field : k.isFieldDeclaration = true → k.declares = false := by
    cases k <;> decide
  by_cases isField : k.isFieldDeclaration = true
  · simp only [Sound, members, isField, ↓reduceIte, field isField, Bool.false_eq_true, false_implies, iff_true]
    exact fun _ _ => .fields _
  cases declared : declared? (.node k ps) with
  | none =>
    simp only [Sound, members, isField, declared, ← kinds, Option.isSome_none, Bool.false_eq_true, ↓reduceIte,
      false_implies, iff_true]
    exact fun _ _ => .nil
  | some kind =>
    simp only [Sound, members, isField, declared, ← kinds, Option.isSome_some, Bool.false_eq_true, ↓reduceIte,
      forall_const, Item.Named.single_iff]
    constructor
    · intro sound
      exact ⟨(sound ⟨none, [], none⟩ []).1, fun setting enclosing => (sound setting enclosing).2⟩
    · intro sound setting enclosing
      exact ⟨sound.1, sound.2 setting enclosing⟩

theorem sound_of_not_declares {k : NodeKind} {ps : List (String × Node)} (other : k.declares = false) :
    Sound (.node k ps) :=
  (sound_node_iff k ps).mpr fun declares => by simp [other] at declares

theorem sound_list (ns : List Node) : Sound (.list ns) := fun _ _ => .nil

/-- The parts of a declaration that tell its name and its members. -/
def isEssential (part : String) : Bool :=
  part == "name" || part == "body"

theorem bodyMembers_filter (setting : Setting) (enclosing : List String) {part : String} (other : part ≠ "body")
    (ps : List (String × Node)) :
    bodyMembers setting enclosing (ps.filter (·.1 != part)) = bodyMembers setting enclosing ps := by
  induction ps with
  | nil => rfl
  | cons p ps ih =>
    obtain ⟨name, n⟩ := p
    by_cases same : name = part
    · subst same
      simpa [bodyMembers, other] using ih
    · simp only [List.filter_cons, bne_iff_ne, ne_eq, same, not_false_eq_true, ↓reduceIte, bodyMembers, ih]

/-- Setting a part leaves the others as they are. -/
theorem part_set_of_ne (n : Node) {part other : String} (apart : part ≠ other) (value : Node) :
    (n.set part value).part other = n.part other := by
  cases n with
  | node k ps =>
    have found : (ps.filter (·.1 != part)).find? (·.1 == other) = ps.find? (·.1 == other) := by
      rw [List.find?_filter]
      congr 1
      funext p
      by_cases same : p.1 = other
      · simp [same, apart.symm]
      · simp [same]
    simp only [Node.part, set]
    rw [List.find?_cons_of_neg (by simpa using apart), found]
  | _ => rfl

theorem declaredName_set (n : Node) {part : String} (other : part ≠ "name") (value : Node) :
    (n.set part value).declaredName = n.declaredName := by
  rw [declaredName, declaredName, part_set_of_ne n other]

/-- Setting a part that is neither name nor body keeps what a member declares. -/
theorem Sound.set {n : Node} (sound : n.Sound) {part : String} (other : isEssential part = false) (value : Node) :
    (n.set part value).Sound := by
  simp only [isEssential, Bool.or_eq_false_iff, beq_eq_false_iff_ne] at other
  cases n with
  | node k ps =>
    refine (sound_node_iff k _).mpr fun declares => ?_
    obtain ⟨segment, inside⟩ := (sound_node_iff k ps).mp sound declares
    have name := declaredName_set (.node k ps) other.1 value
    rw [Node.set] at name
    refine ⟨name ▸ segment, fun setting enclosing => ?_⟩
    rw [name, bodyMembers, if_neg (by simpa using other.2), bodyMembers_filter setting _ other.2]
    exact inside setting enclosing
  | _ => exact sound

theorem Sound.setAll {n : Node} (sound : n.Sound) {parts : List (String × Node)}
    (other : ∀ p ∈ parts, isEssential p.1 = false) : (Strict.setAll n parts).Sound := by
  induction parts generalizing n with
  | nil => exact sound
  | cons p parts ih =>
    exact ih (sound.set (other p List.mem_cons_self) p.2) fun q mem => other q (List.mem_cons_of_mem _ mem)

theorem named_allMembers {ns : List Node} (sound : ∀ n ∈ ns, n.Sound) (setting : Setting) (enclosing : List String) :
    Item.Named (allMembers setting enclosing ns) := by
  induction ns with
  | nil => exact .nil
  | cons n ns ih =>
    exact (sound n List.mem_cons_self setting enclosing).append (ih fun m mem => sound m (List.mem_cons_of_mem _ mem))

theorem held_list {ns : List Node} (sound : ∀ n ∈ ns, n.Sound) : Held (.list ns) :=
  fun setting enclosing => named_allMembers sound setting enclosing

theorem held_of_parts {parts : List (Option Node)} (sound : ∀ part ∈ parts, ∀ n ∈ part, n.Sound) :
    Held (.list (parts.filterMap id)) := by
  refine held_list fun n mem => ?_
  obtain ⟨part, mem, is⟩ := List.mem_filterMap.mp mem
  exact sound part mem n is

theorem bodyMembers_eq {ps : List (String × Node)} {part : String} {body : Node}
    (isBody : ps.find? (·.1 == "body") = some (part, body)) (setting : Setting) (enclosing : List String) :
    bodyMembers setting enclosing ps = heldMembers setting enclosing body := by
  induction ps with
  | nil => cases isBody
  | cons p ps ih =>
    obtain ⟨name, n⟩ := p
    rw [List.find?_cons] at isBody
    rw [bodyMembers]
    split at isBody
    · rename_i here
      cases isBody
      rw [if_pos here]
    · rename_i other
      rw [if_neg (by simpa using other), ih isBody]

/-- A node with a name and a body declares what is called by segments if both do. -/
theorem sound_declaration {k : NodeKind} {ps : List (String × Node)} {name part : String} {body : Node}
    (isName : declaredName (.node k ps) = name) (isBody : ps.find? (·.1 == "body") = some (part, body))
    (segment : Text.IsSegment name) (held : body.Held) : Sound (.node k ps) := by
  refine (sound_node_iff k _).mpr fun _ => ⟨isName ▸ segment, fun setting enclosing => ?_⟩
  rw [bodyMembers_eq isBody]
  exact held setting _

end Node

/-! ## Declarations -/

open Read Node

section

variable {call : Call} {type : Node} {name : String}

theorem gives_voidMethodRest : Gives (voidMethodRest call name) Sound :=
  .after fun _ => .after fun _ => .after fun _ => .pure (sound_of_not_declares rfl)

theorem gives_methodRest : Gives (methodRest call type name) Sound :=
  .after fun _ => .after fun _ => .after fun _ => .after fun _ => .pure (sound_of_not_declares rfl)

theorem gives_constructorRest : Gives (constructorRest call name) Sound :=
  .after fun _ => .after fun _ => .after fun _ => .pure (sound_of_not_declares rfl)

theorem gives_fieldsRest : Gives (fieldsRest call type name) Sound :=
  .after fun _ => .after fun _ => .pure (sound_of_not_declares rfl)

theorem gives_constantsRest : Gives (constantsRest call type name) Sound :=
  .after fun _ => .after fun _ => .pure (sound_of_not_declares rfl)

theorem gives_methodOrFields : Gives (methodOrFields call) Sound :=
  .after fun _ => .after fun _ => .after fun _ => .ite gives_methodRest
    (.bind gives_fieldsRest fun _ sound => .after fun _ => .pure sound)

theorem gives_methodOrConstants : Gives (methodOrConstants call) Sound :=
  .after fun _ => .after fun _ => .after fun _ => .ite gives_methodRest
    (.bind gives_constantsRest fun _ sound => .after fun _ => .pure sound)

theorem gives_genericMember : Gives (genericMember call) Sound := by
  have last (n parameters : Node) (sound : n.Sound) : Gives (pure (n.set "type_parameters" parameters)) Sound :=
    .pure (sound.set rfl _)
  refine .after fun _ => .after fun _ => .after fun _ => .ite ?_ (.ite ?_ ?_)
  · exact .after fun _ => .bind gives_constructorRest fun n sound => last n _ sound
  · exact .after fun _ => .bind gives_voidMethodRest fun n sound => last n _ sound
  · exact .after fun _ => .after fun _ => .bind gives_methodRest fun n sound => last n _ sound

theorem gives_genericMethod : Gives (genericMethod call) Sound :=
  .after fun _ => .after fun _ => .after fun _ => .bind gives_methodRest fun _ sound =>
    .pure (sound.setAll (by simp [isEssential]))

theorem gives_annotationElement : Gives (annotationElement call type name) Sound :=
  .after fun _ => .ite (.after fun _ => .after fun _ => .after fun _ => .pure (sound_of_not_declares rfl))
    gives_constantsRest

theorem gives_block : Gives (block call) Sound :=
  .after fun _ => .after fun _ => .after fun _ => .pure (sound_list _)

theorem gives_modifiers : Gives (modifiers call) fun ms => ∀ m ∈ ms, isEssential m.1 = false :=
  .after fun _ => .after fun _ => .pure (by simp [isEssential])

end

/-- What is asked of the phrases that declarations are made of. -/
def Phrase.Asked : Phrase → Node → Prop
  | .block => Sound
  | .typeDeclaration => Sound
  | .classBody => Held
  | .enumBody => Held
  | .interfaceBody => Held
  | .annotationTypeBody => Held
  | _ => fun _ => True

section

variable {call : Call} (inside : ∀ phrase, Gives (call phrase) phrase.Asked)

include inside

theorem gives_classDeclaration : Gives (classDeclaration call) Sound :=
  .after fun _ => .bind gives_name fun _ segment => .after fun _ => .after fun _ => .after fun _ =>
    .bind (inside .classBody) fun _ held => .pure (sound_declaration rfl rfl segment held)

theorem gives_enumDeclaration : Gives (enumDeclaration call) Sound :=
  .after fun _ => .bind gives_name fun _ segment => .after fun _ =>
    .bind (inside .enumBody) fun _ held => .pure (sound_declaration rfl rfl segment held)

theorem gives_interfaceDeclaration : Gives (interfaceDeclaration call) Sound :=
  .after fun _ => .bind gives_name fun _ segment => .after fun _ => .after fun _ =>
    .bind (inside .interfaceBody) fun _ held => .pure (sound_declaration rfl rfl segment held)

theorem gives_annotationDeclaration : Gives (annotationDeclaration call) Sound :=
  .after fun _ => .bind gives_name fun _ segment =>
    .bind (inside .annotationTypeBody) fun _ held => .pure (sound_declaration rfl rfl segment held)

theorem gives_declaredType? : Gives (declaredType? call) fun found => ∀ n ∈ found, n.Sound := by
  have some {r : Read Node} (sound : Gives r Sound) :
      Gives (do return some (← r)) fun found => ∀ n ∈ found, n.Sound :=
    .bind sound fun n sound => .pure (by simpa using sound)
  refine .after fun _ => .ite (some (gives_classDeclaration inside)) ?_
  refine .after fun _ => .ite (some (gives_enumDeclaration inside)) ?_
  refine .after fun _ => .ite (some (gives_interfaceDeclaration inside)) ?_
  exact .after fun _ => .ite (some (gives_annotationDeclaration inside)) (.pure (by simp))

theorem gives_typeDeclaration : Gives (typeDeclaration call) Sound := by
  refine .bind gives_modifiers fun ms other => .bind (gives_declaredType? inside) fun found sound => ?_
  cases found with
  | none => exact .refuse _
  | some n => exact .pure ((sound n rfl).setAll other)

theorem gives_member : Gives (member call) Sound := by
  refine .bind gives_modifiers fun ms other => ?_
  have last (n : Node) (sound : n.Sound) : Gives (pure (setAll n ms)) Sound := .pure (sound.setAll other)
  refine .after fun _ => .after fun _ => .ite (.after fun _ => .bind gives_voidMethodRest last) (.ite ?_ ?_)
  · exact .bind gives_genericMember last
  refine .bind (gives_declaredType? inside) fun found sound => ?_
  cases found with
  | some n => exact last n (sound n rfl)
  | none =>
    refine .after fun _ => .ite (.after fun _ => .bind gives_constructorRest last) (.bind gives_methodOrFields last)

theorem gives_classBodyPart : Gives (classBodyPart call) fun part => ∀ n ∈ part, n.Sound := by
  refine .after fun _ => .ite (.pure (by simp)) ?_
  have last {f : Node → Option Node} (kept : ∀ n part, f n = some part → part = n) (n : Node) (sound : n.Sound) :
      Gives (pure (f n)) fun part => ∀ n ∈ part, n.Sound :=
    .pure fun part is => kept n part is ▸ sound
  refine .after fun _ => .after fun _ =>
    .ite (.after fun _ => .bind (inside .block) (last ?_)) (.ite (.bind (inside .block) (last ?_))
      (.bind (gives_member inside) (last ?_)))
  all_goals
    intro n part is
    split at is <;> cases is
    rfl

theorem gives_classBody : Gives (classBody call) Held :=
  .after fun _ => .bind (.repeatWhile (gives_classBodyPart inside)) fun _ sound => .after fun _ =>
    .pure (held_of_parts sound)

theorem gives_interfaceMember : Gives (interfaceMember call) fun part => ∀ n ∈ part, n.Sound := by
  refine .after fun _ => .ite (.pure (by simp)) (.bind gives_modifiers fun ms other => ?_)
  have last (n : Node) (sound : n.Sound) :
      Gives (pure (some (setAll n ms))) fun part => ∀ n ∈ part, n.Sound :=
    .pure (by simpa using sound.setAll other)
  refine .bind (gives_declaredType? inside) fun found sound => ?_
  cases found with
  | some n => exact last n (sound n rfl)
  | none =>
    refine .after fun _ => .ite (.bind gives_genericMethod last) (.after fun _ => .ite ?_ ?_)
    · exact .after fun _ => .bind gives_voidMethodRest last
    · exact .bind gives_methodOrConstants last

theorem gives_interfaceBody : Gives (interfaceBody call) Held :=
  .after fun _ => .bind (.repeatWhile (gives_interfaceMember inside)) fun _ sound => .after fun _ =>
    .pure (held_of_parts sound)

theorem gives_enumBody : Gives (enumBody call) Held := by
  have last (constants : List Node) (parts : List (Option Node)) (sound : ∀ part ∈ parts, ∀ n ∈ part, n.Sound) :
      Gives (do
        let _ ← expect ["\x7d"]
        return .node .enumBody [("constants", .list constants), ("declarations", .list (parts.filterMap id))]) Held :=
    .after fun _ => .pure (held_of_parts sound)
  refine .after fun _ => .after fun _ => .ite (.after fun _ => .after fun _ => ?_)
    (.after fun _ => .after fun _ => .after fun _ => ?_)
  all_goals
    refine .ite (.bind (.repeatWhile (gives_classBodyPart inside)) (last _)) (.bind (.pure ?_) (last _))
    simp

theorem gives_annotationTypeMember : Gives (annotationTypeMember call) Sound := by
  refine .bind gives_modifiers fun ms other => .bind (gives_declaredType? inside) fun found sound => ?_
  have last (n : Node) (sound : n.Sound) : Gives (pure (setAll n ms)) Sound := .pure (sound.setAll other)
  cases found with
  | some n => exact last n (sound n rfl)
  | none =>
    exact .after fun _ => .after fun _ => .bind gives_annotationElement fun n sound =>
      .after fun _ => last n sound

theorem gives_annotationTypeBody : Gives (annotationTypeBody call) Held :=
  .after fun _ => .bind (.repeatWhile (gives_annotationTypeMember inside)) fun _ sound => .after fun _ =>
    .pure (held_list sound)

/-- If the phrases inside a phrase give what is asked of them, the phrase does. -/
theorem gives_form (phrase : Phrase) : Gives (phrase.form call) phrase.Asked := by
  cases phrase with
  | block => exact gives_block
  | typeDeclaration => exact gives_typeDeclaration inside
  | classBody => exact gives_classBody inside
  | enumBody => exact gives_enumBody inside
  | interfaceBody => exact gives_interfaceBody inside
  | annotationTypeBody => exact gives_annotationTypeBody inside
  | _ => exact .any _

end

theorem gives_read (fuel : Nat) (phrase : Phrase) : Gives (Phrase.read fuel phrase) phrase.Asked := by
  induction fuel generalizing phrase with
  | zero => exact .throw _
  | succ fuel ih => exact gives_form ih phrase

/-! ## Sources -/

/-- The package of a source, if it is declared, has segments for its pieces. -/
theorem gives_packageLine (call : Call) :
    Gives (packageLine call) fun package => ∀ p ∈ package, ∀ piece ∈ Text.pieces '.' p, Text.IsSegment piece := by
  refine .after fun _ => .after fun _ => .after fun _ => .ite ?_ (.after fun _ => .pure (by simp))
  exact .after fun _ => .bind gives_dottedName fun name segments => .after fun _ => .pure (by simpa using segments)

/-- What a source declares is called by segments, its package included. -/
structure Source.Sound (s : Source) : Prop where
  package : ∀ p ∈ s.package, ∀ piece ∈ Text.pieces '.' p, Text.IsSegment piece
  types : ∀ n ∈ s.types, n.Sound

theorem gives_source (fuel : Nat) : Gives (source (Phrase.read fuel)) Source.Sound := by
  have topType : Gives (topType (Phrase.read fuel)) fun type => ∀ n ∈ type, n.Sound := by
    refine .after fun _ => .ite (.pure (by simp)) (.tryCatch ?_ fun f => ?_)
    · exact .bind (gives_read fuel .typeDeclaration) fun n sound =>
        .pure fun m is => Option.some.inj is ▸ sound
    · split
      · exact .refuse _
      · exact .throw _
  refine .bind (gives_packageLine _) fun package segments => .after fun _ => .bind (.repeatWhile topType)
    fun types sound => .pure ⟨segments, fun n mem => ?_⟩
  obtain ⟨type, mem, is⟩ := List.mem_filterMap.mp mem
  exact sound type mem n is

theorem Source.sound_of_ofChars {cs : List Char} {s : Source} (reads : Source.ofChars cs = .ok s) : s.Sound := by
  simp only [Source.ofChars] at reads
  cases scanned : Token.scan cs with
  | error f => simp [scanned, bind, Except.bind] at reads
  | ok tokens =>
    simp only [scanned, bind, Except.bind, Source.ofTokens] at reads
    split at reads
    · rename_i s₁ s' is
      cases reads
      exact gives_source _ _ _ _ is
    · cases reads

/-- Every declaration in a strictly read source is called by a segment. -/
theorem Source.isSegment_of_mem_walk {cs : List Char} {s : Source} (reads : Source.ofChars cs = .ok s)
    {sourceFile : Option String} {file : String} {p : Placed} (mem : p ∈ (s.toUnit sourceFile).walk file) :
    Text.IsSegment p.decl.name :=
  Item.Named.isSegment_of_mem_ofItems
    ((named_allMembers (sound_of_ofChars reads).types _ _).declarations _ (fun _ => rfl) (fun _ _ => rfl)) mem

end EntityAtlas.Java.Strict
