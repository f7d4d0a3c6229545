import EntityAtlas.Java.Source
import EntityAtlas.Proofs.BareTrees
import Mathlib.Data.List.Forall2

/-!
# Layout in leniently read sources

The grammar sees no layout: it reads tokens, and comments go where the token after them goes. Only a row of angle
brackets that is read as an operator must not be torn apart. So sources with the same tokens are read to trees that
differ in layout only, and what they declare is the same wherever layout stays away from texts that are taken as they
are written.
-/

namespace EntityAtlas.Java

/-- The tokens that make operators together with a `>` right before them. -/
def angles : List String := [">", ">="]

/-- Trees that hold comments of a source. -/
def AreComments (ts : List Tree) : Prop :=
  ∀ t ∈ ts, t.kind = .comment ∧ t.isFaulty = false

namespace Tree

theorem bare_playing (t : Tree) (r : Role) : (t.playing r).bare = t.bare.playing r := by
  cases t <;> rfl

theorem isFaulty_bare (t : Tree) : t.bare.isFaulty = t.isFaulty := by
  cases t <;> rfl

/-- Rows of trees that make up the same node but for its layout. -/
structure AlikeAll (ts us : List Tree) : Prop where
  bare : bareAll ts = bareAll us
  isFaulty : ts.any isFaulty = us.any isFaulty

theorem AlikeAll.append {ts us ts' us' : List Tree} (alike : AlikeAll ts us) (alike' : AlikeAll ts' us') :
    AlikeAll (ts ++ ts') (us ++ us') where
  bare := by
    have bare := alike.bare
    have bare' := alike'.bare
    simp only [bareAll_eq] at bare bare' ⊢
    rw [List.filter_append, List.filter_append, List.map_append, List.map_append, bare, bare']
  isFaulty := by rw [List.any_append, List.any_append, alike.isFaulty, alike'.isFaulty]

theorem AlikeAll.single {t u : Tree} (same : t.bare = u.bare) : AlikeAll [t] [u] where
  bare := by simp only [bareAll, same, ← kind_bare t, ← kind_bare u]
  isFaulty := by rw [List.any_cons, List.any_cons, ← isFaulty_bare t, same, isFaulty_bare]

/-- Comments make no difference. -/
theorem AlikeAll.comments {ts us : List Tree} (comments : AreComments ts) (comments' : AreComments us) :
    AlikeAll ts us := by
  have none {ts : List Tree} (comments : AreComments ts) : bareAll ts = [] ∧ ts.any Tree.isFaulty = false := by
    rw [bareAll_eq, List.map_eq_nil_iff, List.filter_eq_nil_iff, List.any_eq_false]
    exact ⟨fun t mem => by simp [(comments t mem).1], fun t mem => by simp [(comments t mem).2]⟩
  exact ⟨(none comments).1.trans (none comments').1.symm, (none comments).2.trans (none comments').2.symm⟩

theorem AlikeAll.ofChildren {ts us : List Tree} (alike : AlikeAll ts us) (kind : NodeKind) :
    (Tree.ofChildren kind ts).bare = (Tree.ofChildren kind us).bare := by
  rw [Tree.ofChildren, Tree.ofChildren, Tree.bare, Tree.bare, alike.bare, alike.isFaulty]

end Tree

/-! ## What reading depends on -/

/-- Whether a token touches the one before it. -/
def Lexeme.touches (x : Lexeme) : Bool :=
  x.token.before == "" && x.leading.isEmpty

/-- Tokens to be read that differ in layout only. -/
structure Lexeme.Alike (x y : Lexeme) : Prop where
  kind : x.token.kind = y.token.kind
  text : x.token.text = y.token.text
  isRigid : x.isRigid = y.isRigid
  comments : AreComments x.leading ∧ AreComments y.leading

/-- Tokens to be read, one after another, that differ in layout only; of those that may make an operator together with
the token before them, which `afterAngle` tells of the first ones, both touch it or both do not. -/
inductive Lexeme.AllAlike : (afterAngle : Bool) → List Lexeme → List Lexeme → Prop where
  | nil {c : Bool} : AllAlike c [] []
  | cons {c : Bool} {x y : Lexeme} {xs ys : List Lexeme} (first : x.Alike y)
    (touches : c = true → angles.contains x.token.text = true → x.touches = y.touches)
    (others : AllAlike (x.token.text == ">") xs ys) : AllAlike c (x :: xs) (y :: ys)

theorem Lexeme.AllAlike.weaken {c c' : Bool} {xs ys : List Lexeme} (alike : AllAlike c xs ys)
    (less : c' = true → c = true) : AllAlike c' xs ys := by
  cases alike with
  | nil => exact .nil
  | cons first touches others => exact .cons first (fun after => touches (less after)) others

theorem Lexeme.AllAlike.length_eq {c : Bool} {xs ys : List Lexeme} (alike : AllAlike c xs ys) :
    xs.length = ys.length := by
  induction alike with
  | nil => rfl
  | cons _ _ _ ih => rw [List.length_cons, List.length_cons, ih]

theorem Token.placeless_congr {t u : Token} (kind : t.kind = u.kind) (text : t.text = u.text) :
    t.placeless = u.placeless := by
  obtain ⟨k, s, before, start, stop, word⟩ := t
  obtain ⟨k', s', before', start', stop', word'⟩ := u
  subst kind text
  rfl

/-- Trees that were read and differ in layout only. -/
structure Piece.Alike (p q : Piece) : Prop where
  tree : p.tree.bare = q.tree.bare
  comments : AreComments p.leading ∧ AreComments q.leading

/-- States of reading that differ in layout only; `afterAngle` tells whether a `>` was read last. -/
structure Reading.Alike (afterAngle : Bool) (s t : Reading) : Prop where
  rest : Lexeme.AllAlike afterAngle s.rest t.rest
  groups : List.Forall₂ (List.Forall₂ Piece.Alike) s.groups t.groups

namespace Piece

variable {ps qs : List Piece}

theorem alike_spread (alike : List.Forall₂ Piece.Alike ps qs) :
    Tree.AlikeAll (ps.flatMap fun p => p.leading ++ [p.tree]) (qs.flatMap fun q => q.leading ++ [q.tree]) := by
  induction alike with
  | nil => exact ⟨rfl, rfl⟩
  | cons first rest ih =>
    rw [List.flatMap_cons, List.flatMap_cons]
    exact ((Tree.AlikeAll.comments first.comments.1 first.comments.2).append (.single first.tree)).append ih

theorem alike_parts (alike : List.Forall₂ Piece.Alike ps qs) : Tree.AlikeAll (parts ps) (parts qs) := by
  cases alike with
  | nil => exact ⟨rfl, rfl⟩
  | cons first rest => exact (Tree.AlikeAll.single first.tree).append (alike_spread rest)

theorem alike_wrap (kind : NodeKind) (alike : List.Forall₂ Piece.Alike ps qs) (n m : Nat) :
    (wrap kind ps n).Alike (wrap kind qs m) := by
  have reversed := List.rel_reverse alike
  refine ⟨(alike_parts reversed).ofChildren kind, ?_⟩
  simp only [wrap]
  generalize ps.reverse = first at reversed
  generalize qs.reverse = first' at reversed
  cases reversed with
  | nil => simp [AreComments]
  | cons first rest => exact first.comments

theorem alike_playing (role : Role) (alike : List.Forall₂ Piece.Alike ps qs) :
    List.Forall₂ Piece.Alike (ps.map fun p => { p with tree := p.tree.playing role })
      (qs.map fun q => { q with tree := q.tree.playing role }) := by
  rw [List.forall₂_map_left_iff, List.forall₂_map_right_iff]
  exact alike.imp fun p q same => ⟨by rw [Tree.bare_playing, Tree.bare_playing, same.tree], same.comments⟩

end Piece

namespace Reading

/-- Reading goes the same way wherever layout is. -/
def Blind (read : Reading → Reach → Outcome) (c c' : Bool) : Prop :=
  ∀ s t r r', Alike c s t → Option.Rel (Alike c') (read s r).1 (read t r').1

variable {s t : Reading} {c c' : Bool}

theorem Alike.weaken (alike : Alike c s t) (less : c' = true → c = true) : Alike c' s t :=
  ⟨alike.rest.weaken less, alike.groups⟩

theorem Blind.weaken {read : Reading → Reach → Outcome} {d d' : Bool} (blind : Blind read c c')
    (more : c = true → d = true) (less : d' = true → c' = true) : Blind read d d' := by
  intro s t r r' alike
  have reads := blind s t r r' (alike.weaken more)
  generalize (read s r).1 = after at reads
  generalize (read t r').1 = after' at reads
  cases reads with
  | none => exact .none
  | some same => exact .some (same.weaken less)

theorem Alike.push (alike : Alike c s t) {p q : Piece} (same : p.Alike q) :
    List.Forall₂ (List.Forall₂ Piece.Alike) (s.push p) (t.push q) := by
  obtain ⟨rest, groups⟩ := s
  obtain ⟨rest', groups'⟩ := t
  cases alike.groups with
  | nil => exact .cons (.cons same .nil) .nil
  | cons first others => exact .cons (.cons same first) others

/-- A token is accepted or not wherever layout is. After it, a `>` was read last if nothing else is accepted. -/
theorem blind_takeIf {accepts : Lexeme → Bool} (same : ∀ x y, x.Alike y → accepts x = accepts y)
    (angle : c' = true → ∀ x, accepts x = true → x.token.text = ">") (kind : NodeKind) (welcome : List String) :
    Blind (fun s r => match s.rest with
      | x :: _ => if accepts x then s.take r kind else s.miss r welcome
      | [] => s.miss r []) c c' := by
  rintro ⟨rest, groups⟩ ⟨rest', groups'⟩ r r' alike
  have rests : Lexeme.AllAlike c rest rest' := alike.rest
  cases rests with
  | nil => exact .none
  | @cons _ x y xs ys first touches others =>
    dsimp only
    rw [← same x y first]
    split
    · rename_i accepted
      have leaf := congrArg (Tree.leaf .plain kind) (Token.placeless_congr first.kind first.text)
      have others' := others.weaken fun after => beq_iff_eq.mpr (angle after x accepted)
      exact .some ⟨others', alike.push ⟨leaf, first.comments⟩⟩
    · exact .none

theorem blind_readText (text : String) (canBeSupplied : Bool) :
    Blind (fun s r => s.readText r text canBeSupplied) c (!canBeSupplied && text == ">") := by
  refine blind_takeIf (fun x y same => by simp only [same.kind, same.text]) (fun angle x accepted => ?_) _ _
  simp only [Bool.and_eq_true, Bool.not_eq_true', beq_iff_eq] at angle
  obtain ⟨rfl, rfl⟩ := angle
  cases kind : x.token.kind <;> simp [kind] at accepted <;> exact accepted

theorem blind_readName (excluded : List String) (kind : NodeKind) (canBeSupplied : Bool) :
    Blind (fun s r => s.readName r excluded kind canBeSupplied) c false :=
  blind_takeIf (fun x y same => by simp only [same.kind, same.text, same.isRigid])
    (fun angle => absurd angle Bool.false_ne_true) _ _

theorem blind_readKind (kinds : List TokenKind) (kind : NodeKind) :
    Blind (fun s r => s.readKind r kinds kind) c false :=
  blind_takeIf (fun x y same => by rw [same.kind]) (fun angle => absurd angle Bool.false_ne_true) _ _

/-- Reading one thing after another. -/
theorem Blind.bind {read next : Reading → Reach → Outcome} {d : Bool} (blind : Blind read c d)
    (after : Blind next d c') :
    Blind (fun s r => match read s r with
      | (some s', r') => next s' r'
      | (none, r') => (none, r')) c c' := by
  intro s t r r' alike
  have reads := blind s t r r' alike
  dsimp only
  generalize read s r = o at reads
  generalize read t r' = o' at reads
  obtain ⟨after₁, reach⟩ := o
  obtain ⟨after₂, reach'⟩ := o'
  have reads : Option.Rel (Alike d) after₁ after₂ := reads
  cases reads with
  | none => exact .none
  | some same => exact after _ _ reach reach' same

/-! ### Groups -/

/-- What is done before reading and after it is blind to layout if it keeps states alike. -/
theorem Blind.andThen {read : Reading → Reach → Outcome} (blind : Blind read c c') {opens closes : Reading → Reading}
    (opened : ∀ s t, Alike c s t → Alike c (opens s) (opens t))
    (closed : ∀ s t, Alike c' s t → Alike c' (closes s) (closes t)) :
    Blind (fun s r => Reading.andThen (read (opens s) r) closes) c c' := by
  intro s t r r' alike
  have reads := blind (opens s) (opens t) r r' (opened s t alike)
  simp only [Reading.andThen]
  generalize (read (opens s) r).1 = after at reads
  generalize (read (opens t) r').1 = after' at reads
  cases reads with
  | none => exact .none
  | some same => exact .some (closed _ _ same)

theorem alike_openGroup (s t : Reading) (alike : Alike c s t) : Alike c s.openGroup t.openGroup :=
  ⟨alike.rest, .cons .nil alike.groups⟩

/-- The innermost group is closed alike if its pieces are put into the group around it alike. -/
theorem alike_close (alike : Alike c s t) {join join' : List Piece → List Piece → List Piece}
    (same : ∀ g g' h h', List.Forall₂ Piece.Alike g g' → List.Forall₂ Piece.Alike h h' →
      List.Forall₂ Piece.Alike (join g h) (join' g' h')) :
    Alike c (match s.groups with | g :: h :: gs => ⟨s.rest, join g h :: gs⟩ | _ => s)
      (match t.groups with | g :: h :: gs => ⟨t.rest, join' g h :: gs⟩ | _ => t) := by
  obtain ⟨rest, groups⟩ := s
  obtain ⟨rest', groups'⟩ := t
  have groups : List.Forall₂ (List.Forall₂ Piece.Alike) groups groups' := alike.groups
  cases groups with
  | nil => exact alike
  | cons inner others =>
    cases others with
    | nil => exact alike
    | cons outer others => exact ⟨alike.rest, .cons (same _ _ _ _ inner outer) others⟩

theorem alike_closeGroup (s t : Reading) (alike : Alike c s t) : Alike c s.closeGroup t.closeGroup :=
  alike_close alike fun _ _ _ _ inner outer => List.rel_append inner outer

theorem alike_closeNode (kind : NodeKind) (s t : Reading) (alike : Alike c s t) :
    Alike c (s.closeNode kind) (t.closeNode kind) :=
  alike_close alike fun _ _ _ _ inner outer => .cons (Piece.alike_wrap kind inner _ _) outer

theorem alike_closeRole (role : Role) (s t : Reading) (alike : Alike c s t) :
    Alike c (s.closeRole role) (t.closeRole role) :=
  alike_close alike fun _ _ _ _ inner outer => List.rel_append (Piece.alike_playing role inner) outer

theorem alike_adoptGroup (kind : NodeKind) (s t : Reading) (alike : Alike c s t) :
    Alike c (s.adoptGroup kind) (t.adoptGroup kind) := by
  obtain ⟨rest, groups⟩ := s
  obtain ⟨rest', groups'⟩ := t
  have groups : List.Forall₂ (List.Forall₂ Piece.Alike) groups groups' := alike.groups
  cases groups with
  | nil => exact alike
  | cons inner others => exact ⟨alike.rest, .cons (.cons (Piece.alike_wrap kind inner _ _) .nil) others⟩

/-! ### Repetitions -/

theorem map_joinLatest (number : Nat) (ps : List Piece) :
    (joinLatest number ps).map (fun p => (p.tree, p.leading)) = ps.map fun p => (p.tree, p.leading) := by
  induction ps with
  | nil => rfl
  | cons p ps ih =>
    rw [joinLatest]
    split
    · rw [List.map_cons, List.map_cons, ih]
    · rfl

/-- Numbers of tokens make no difference to what is read. -/
theorem alike_joinLatest {ps qs : List Piece} (alike : List.Forall₂ Piece.Alike ps qs) (n m : Nat) :
    List.Forall₂ Piece.Alike (joinLatest n ps) (joinLatest m qs) := by
  have iff (ps qs : List Piece) : List.Forall₂ Piece.Alike ps qs ↔
      List.Forall₂ (fun a b => a.1.bare = b.1.bare ∧ AreComments a.2 ∧ AreComments b.2)
        (ps.map fun p => (p.tree, p.leading)) (qs.map fun p => (p.tree, p.leading)) := by
    rw [List.forall₂_map_left_iff, List.forall₂_map_right_iff]
    exact ⟨.imp fun p q same => ⟨same.tree, same.comments⟩, .imp fun p q same => ⟨same.1, same.2⟩⟩
  rw [iff, map_joinLatest, map_joinLatest, ← iff]
  exact alike

theorem alike_closeRepeat (alike : Alike c s t) (n m : Nat) (isFirst : Bool) :
    Alike c (s.closeRepeat n isFirst) (t.closeRepeat m isFirst) := by
  obtain ⟨rest, groups⟩ := s
  obtain ⟨rest', groups'⟩ := t
  cases isFirst with
  | true => exact alike
  | false =>
    have groups : List.Forall₂ (List.Forall₂ Piece.Alike) groups groups' := alike.groups
    cases groups with
    | nil => exact alike
    | cons inner others => exact ⟨alike.rest, .cons (alike_joinLatest inner n m) others⟩

theorem blind_iterate {step : Reading → Reach → Outcome} (blind : Blind step c c) (fuel : Nat) (isFirst : Bool) :
    Blind (iterate step fuel isFirst) c c := by
  induction fuel generalizing isFirst with
  | zero => exact fun s t r r' alike => .some alike
  | succ fuel ih =>
    intro s t r r' alike
    have reads := blind s t r r' alike
    rw [iterate, iterate]
    generalize step s r = o at reads
    generalize step t r' = o' at reads
    obtain ⟨after, reach⟩ := o
    obtain ⟨after', reach'⟩ := o'
    have reads : Option.Rel (Alike c) after after' := reads
    cases reads with
    | none => exact .some alike
    | some same =>
      dsimp only
      rw [same.rest.length_eq, alike.rest.length_eq]
      split
      · exact ih false _ _ _ _ (alike_closeRepeat same _ _ isFirst)
      · exact .some alike

end Reading

/-! ## Grammars -/

namespace Grammar

variable {σ : Type}

mutual

/-- Walk over a grammar, given whether a `>` is read right before it: whether one is read last in it, if no token but
an angle bracket after a `>` is asked to touch the one before it. -/
def angleAfter? : Grammar σ → (afterAngle : Bool) → Option Bool
  | .tok text, _ => some (text == ">")
  | .touching, _ => none
  | .seq parts, c => angleAfterAll? parts c
  | .alt choices, c => angleAfterAny? choices c
  | .many item, _ => (angleAfter? item false).map fun _ => false
  | .node _ inside, c => angleAfter? inside c
  | .group inside, c => angleAfter? inside c
  | .adopt _ inside, c => angleAfter? inside c
  | .playing _ inside, c => angleAfter? inside c
  | _, _ => some false

/-- The walk over grammars that are read one after another. -/
def angleAfterAll? : List (Grammar σ) → (afterAngle : Bool) → Option Bool
  | [], c => some c
  | .touching :: .tok text :: gs, c => if c && angles.contains text then angleAfterAll? gs (text == ">") else none
  | g :: gs, c => (angleAfter? g c).bind (angleAfterAll? gs)

/-- The walk over grammars of which one is read. -/
def angleAfterAny? : List (Grammar σ) → (afterAngle : Bool) → Option Bool
  | [], _ => some true
  | g :: gs, c => (angleAfter? g c).bind fun after => (angleAfterAny? gs c).map (after && ·)

end

end Grammar

/-- The rules of the language ask nothing else to touch. -/
theorem Rule.angles_touch (r : Rule) : ((Rule.grammar r).angleAfter? false).isSome = true := by
  cases r <;> decide +kernel

namespace Reading

variable {σ : Type} {call : σ → Reading → Reach → Outcome} {c c' : Bool}

theorem readText_of_ne {x : Lexeme} {text : String} (other : x.token.text ≠ text) (xs : List Lexeme)
    (groups : List (List Piece)) (r : Reach) : (readText ⟨x :: xs, groups⟩ r text false).1 = none := by
  cases kind : x.token.kind <;> simp [readText, kind, other, miss]

theorem runAll_tok_of_ne {x : Lexeme} {text : String} (other : x.token.text ≠ text) (xs : List Lexeme)
    (groups : List (List Piece)) (r : Reach) (gs : List (Grammar σ)) :
    (runAll call (.tok text :: gs) ⟨x :: xs, groups⟩ r).1 = none := by
  have fails := readText_of_ne other xs groups r
  rw [runAll, run]
  split
  · rename_i reads
    rw [reads] at fails
    cases fails
  · rfl

theorem runAll_touching (x : Lexeme) (xs : List Lexeme) (groups : List (List Piece)) (r : Reach)
    (gs : List (Grammar σ)) : (runAll call (.touching :: gs) ⟨x :: xs, groups⟩ r).1 =
      if x.touches then (runAll call gs ⟨x :: xs, groups⟩ r).1 else none := by
  rw [Lexeme.touches]
  by_cases touches : (x.token.before == "" && x.leading.isEmpty) = true
  · simp only [runAll, run, touches, if_true]
  · simp only [runAll, run, touches, if_false, Bool.false_eq_true]

/-- A token that has to touch the one before it may only be an angle bracket after a `>`, so layout elsewhere is not
seen. -/
theorem blind_touching {text : String} (angle : angles.contains text = true) {gs : List (Grammar σ)}
    (others : Blind (runAll call gs) (text == ">") c') :
    Blind (runAll call (.touching :: .tok text :: gs)) true c' := by
  have reads : Blind (runAll call (.tok text :: gs)) true c' :=
    ((blind_readText text false).weaken (fun after => after) (by simp)).bind others
  rintro ⟨rest, groups⟩ ⟨rest', groups'⟩ r r' alike
  have rests : Lexeme.AllAlike true rest rest' := alike.rest
  cases rests with
  | nil => exact .none
  | @cons _ x y _ _ first touches others =>
    rw [runAll_touching, runAll_touching]
    by_cases isAngle : angles.contains x.token.text = true
    · rw [touches rfl isAngle]
      split
      · exact reads _ _ r r' alike
      · exact .none
    · -- one may touch and the other not, but then neither is the token that is asked for
      have other : x.token.text ≠ text := fun same => isAngle (same ▸ angle)
      rw [runAll_tok_of_ne other, runAll_tok_of_ne (first.text ▸ other), ite_self, ite_self]
      exact .none

mutual

/-- Reading by a grammar that passes the walk is blind to layout. -/
theorem blind_run (rules : ∀ name, Blind (call name) false false) :
    ∀ (g : Grammar σ) {c c' : Bool}, g.angleAfter? c = some c' → Blind (run call g) c c'
  | .tok text, c, c', walk => by
    cases walk
    exact (blind_readText text false).weaken (fun after => after) (by simp)
  | .close text, c, c', walk => by
    cases walk
    exact blind_readText text true
  | .ofKind kinds kind, c, c', walk => by
    cases walk
    exact blind_readKind kinds kind
  | .name excluded kind canBeSupplied, c, c', walk => by
    cases walk
    exact blind_readName excluded kind canBeSupplied
  | .seq parts, c, c', walk => blind_runAll rules parts walk
  | .alt choices, c, c', walk => blind_runFirst rules choices walk
  | .many item, c, c', walk => by
    obtain ⟨after, walk', rfl⟩ := Option.map_eq_some_iff.mp walk
    have step : Blind (run call item) false false := (blind_run rules item walk').weaken (by simp) (by simp)
    intro s t r r' alike
    rw [run, run, alike.rest.length_eq]
    exact blind_iterate step _ _ s t r r' (alike.weaken (by simp))
  | .rule name, c, c', walk => by
    cases walk
    exact (rules name).weaken (by simp) (by simp)
  | .node kind inside, c, c', walk => (blind_run rules inside walk).andThen alike_openGroup (alike_closeNode kind)
  | .group inside, c, c', walk => (blind_run rules inside walk).andThen alike_openGroup alike_closeGroup
  | .adopt kind inside, c, c', walk =>
    (blind_run rules inside walk).andThen (fun _ _ alike => alike) (alike_adoptGroup kind)
  | .playing role inside, c, c', walk => (blind_run rules inside walk).andThen alike_openGroup (alike_closeRole role)

theorem blind_runAll (rules : ∀ name, Blind (call name) false false) :
    ∀ (gs : List (Grammar σ)) {c c' : Bool}, Grammar.angleAfterAll? gs c = some c' → Blind (runAll call gs) c c'
  | [], c, c', walk => by
    cases walk
    exact fun s t r r' alike => .some alike
  | g :: gs, c, c', walk => by
    -- a demand to touch is read together with the token after it, anything else on its own
    unfold Grammar.angleAfterAll? at walk
    split at walk
    · rename_i none
      cases none
    · rename_i same
      cases same
      split at walk
      · rename_i fits
        obtain ⟨rfl, angle⟩ := Bool.and_eq_true_iff.mp fits
        exact blind_touching angle (blind_runAll rules _ walk)
      · cases walk
    · rename_i same
      cases same
      obtain ⟨between, walk', walk⟩ := Option.bind_eq_some_iff.mp walk
      exact (blind_run rules g walk').bind (blind_runAll rules gs walk)

theorem blind_runFirst (rules : ∀ name, Blind (call name) false false) :
    ∀ (gs : List (Grammar σ)) {c c' : Bool}, Grammar.angleAfterAny? gs c = some c' → Blind (runFirst call gs) c c'
  | [], c, c', _ => fun s t r r' alike => .none
  | g :: gs, c, c', walk => by
    obtain ⟨one, walk', walk⟩ := Option.bind_eq_some_iff.mp walk
    obtain ⟨others, walks, rfl⟩ := Option.map_eq_some_iff.mp walk
    intro s t r r' alike
    have reads := (blind_run rules g walk').weaken (fun after => after)
      (fun both : (one && others) = true => (Bool.and_eq_true_iff.mp both).1) s t r r' alike
    rw [runFirst, runFirst]
    generalize run call g s r = o at reads
    generalize run call g t r' = o' at reads
    obtain ⟨after, reach⟩ := o
    obtain ⟨after', reach'⟩ := o'
    have reads : Option.Rel (Alike (one && others)) after after' := reads
    cases reads with
    | none =>
      exact (blind_runFirst rules gs walks).weaken (fun after => after)
        (fun both => (Bool.and_eq_true_iff.mp both).2) s t reach reach' alike
    | some same => exact .some same

end

theorem blind_runRule (fuel : Nat) (rule : Rule) : Blind (runRule Rule.grammar fuel rule) false false := by
  induction fuel generalizing rule with
  | zero => exact fun s t r r' alike => .none
  | succ fuel ih =>
    obtain ⟨after, walk⟩ := Option.isSome_iff_exists.mp rule.angles_touch
    exact (blind_run ih _ walk).weaken (fun after => after) nofun

end Reading

/-! ## Rows of tokens -/

namespace TokenRow

/-- What reading sees of the token of a number: its kind, its characters, and of an angle bracket after a `>` whether
the two touch. -/
def sketchAt (row : TokenRow) (n : Nat) : TokenKind × String × Bool :=
  ((row.token n).kind, (row.token n).text,
    !(0 < n && (row.token (n - 1)).text == ">" && angles.contains (row.token n).text) ||
      ((row.token n).before == "" && (row.comments n).isEmpty))

/-- What reading sees of a row. -/
def sketch (row : TokenRow) : List (TokenKind × String × Bool) :=
  (List.range row.tokens.size).map row.sketchAt

/-- What stands before tokens are comments. -/
def Sound (row : TokenRow) : Prop :=
  ∀ p ∈ row.tokens.toList, ∀ t ∈ p.2, t.isComment = true

theorem comments_of_mem_gather (ts comments : List Token) (sound : ∀ t ∈ comments, t.isComment = true) :
    ∀ p ∈ gather comments ts, ∀ t ∈ p.2, t.isComment = true := by
  induction ts generalizing comments with
  | nil => nofun
  | cons t ts ih =>
    rw [gather]
    split
    · rename_i comment
      refine ih _ fun u mem => ?_
      rcases List.mem_append.mp mem with mem | mem
      · exact sound u mem
      · exact List.mem_singleton.mp mem ▸ comment
    · intro p mem
      rcases List.mem_cons.mp mem with rfl | mem
      · exact sound
      · exact ih [] nofun p mem

theorem sound_ofSource (cs : List Char) : (ofSource cs).Sound :=
  comments_of_mem_gather _ [] nofun

theorem Sound.areComments {row : TokenRow} (sound : row.Sound) (n : Nat) : AreComments (row.comments n) := by
  intro c mem
  obtain ⟨t, held, rfl⟩ := List.mem_map.mp mem
  have comment : t.isComment = true := by
    by_cases inside : n < row.tokens.size
    · rw [Array.getD_eq_getD_getElem?, Array.getElem?_eq_getElem inside] at held
      exact sound _ (Array.getElem_mem_toList inside) t held
    · rw [Array.getD_eq_getD_getElem?, Array.getElem?_eq_none (Nat.le_of_not_lt inside)] at held
      cases held
  refine ⟨rfl, ?_⟩
  rcases Bool.or_eq_true_iff.mp comment with kind | kind <;>
    simp [commentTree, Tree.isFaulty, Token.missing?, eq_of_beq kind]

variable {row row' : TokenRow}

theorem size_eq (same : row.sketch = row'.sketch) : row.tokens.size = row'.tokens.size := by
  simpa [sketch] using congrArg List.length same

theorem sketchAt_eq (same : row.sketch = row'.sketch) (n : Nat) : row.sketchAt n = row'.sketchAt n := by
  by_cases inside : n < row.tokens.size
  · have here := congrArg (·[n]?) same
    simpa [sketch, inside, ← size_eq same] using here
  · have none (row : TokenRow) (outside : row.tokens.size ≤ n) :
        row.sketchAt n = ((default : Token).kind, (default : Token).text, true) := by
      have token : row.token n = default := by
        rw [TokenRow.token, Array.getD_eq_getD_getElem?, Array.getElem?_eq_none outside]
        rfl
      have other : angles.contains (default : Token).text = false := rfl
      simp only [sketchAt, token, other, Bool.and_false, Bool.not_false, Bool.true_or]
    rw [none row (Nat.le_of_not_lt inside), none row' (size_eq same ▸ Nat.le_of_not_lt inside)]

theorem alike_lexeme (sound : row.Sound) (sound' : row'.Sound) (same : row.sketch = row'.sketch) (n : Nat) :
    Lexeme.Alike ⟨row.token n, row.comments n, n, false⟩ ⟨row'.token n, row'.comments n, n, false⟩ where
  kind := congrArg (·.1) (sketchAt_eq same n)
  text := congrArg (·.2.1) (sketchAt_eq same n)
  isRigid := rfl
  comments := ⟨sound.areComments n, sound'.areComments n⟩

theorem alike_lexemesFrom (sound : row.Sound) (sound' : row'.Sound) (same : row.sketch = row'.sketch)
    (fuel n : Nat) : Lexeme.AllAlike (0 < n && (row.token (n - 1)).text == ">")
      (Repair.empty.lexemesFrom row fuel n [] false) (Repair.empty.lexemesFrom row' fuel n [] false) := by
  induction fuel generalizing n with
  | zero => exact .nil
  | succ fuel ih =>
    have step (row : TokenRow) : Repair.empty.lexemesFrom row (fuel + 1) n [] false =
        ⟨row.token n, row.comments n, n, false⟩ ::
          if row.last ≤ n then [] else Repair.empty.lexemesFrom row fuel (n + 1) [] false := rfl
    rw [step, step, last, last, size_eq same]
    -- the token of number `n - 1` was the last one, so what the sketches tell of number `n` is what is asked for
    refine .cons (alike_lexeme sound sound' same n) (fun after angle => ?_) ?_
    · have before : (row.token (n - 1)).text = (row'.token (n - 1)).text :=
        congrArg (·.2.1) (sketchAt_eq same (n - 1))
      have text : (row.token n).text = (row'.token n).text := congrArg (·.2.1) (sketchAt_eq same n)
      have touches := congrArg (·.2.2) (sketchAt_eq same n)
      have angle : angles.contains (row.token n).text = true := angle
      simp only [sketchAt, ← before, ← text, after, angle, Bool.true_and, Bool.not_true, Bool.false_or] at touches
      exact touches
    · split
      · exact .nil
      · exact (ih (n + 1)).weaken (by simp)

end TokenRow

namespace Repair

/-- The outcome of reading tokens as a whole source. -/
def outcome (xs : List Lexeme) : Outcome :=
  Reading.iterate (Reading.runRule Rule.grammar (64 * (xs.length + 1)) .topStatement) xs.length true ⟨xs, [[]]⟩
    ⟨0, [], []⟩

/-- The tree of a source from what was read and the end. -/
def program (groups : List (List Piece)) (e : Lexeme) : Tree :=
  .ofChildren .program (groups.flatten.reverse.flatMap (fun p => p.leading ++ [p.tree]) ++ e.leading)

theorem read_eq_ok_iff (row : TokenRow) (r : Repair) (t : Tree) : r.read row = .ok t ↔
    ∃ e groups, (outcome (r.lexemes row)).1 = some ⟨[e], groups⟩ ∧ e.token.kind = .theEnd ∧ program groups e = t := by
  simp only [read, outcome]
  split
  · rename_i e groups found
    rw [found]
    split
    · rename_i isEnd
      simp [program, eq_of_beq isEnd]
    · rename_i notEnd
      have notEnd : e.token.kind ≠ .theEnd := by simpa using notEnd
      simp [notEnd]
  · rename_i other
    simp only [reduceCtorEq, false_iff, not_exists, not_and]
    exact fun e groups is => absurd is (other e groups)

/-- Sources with the same tokens are read without repairs, if one of them is, to trees that differ in layout only. -/
theorem read_empty_of_sketch {row row' : TokenRow} (sound : row.Sound) (sound' : row'.Sound)
    (same : row.sketch = row'.sketch) {t : Tree} (reads : Repair.empty.read row = .ok t) :
    ∃ t', Repair.empty.read row' = .ok t' ∧ t.bare = t'.bare := by
  have alike : Lexeme.AllAlike false (Repair.empty.lexemes row) (Repair.empty.lexemes row') := by
    rw [lexemes, lexemes, TokenRow.size_eq same]
    exact TokenRow.alike_lexemesFrom sound sound' same _ 0
  have outcomes : Option.Rel (Reading.Alike false) (outcome (Repair.empty.lexemes row)).1
      (outcome (Repair.empty.lexemes row')).1 := by
    rw [outcome, outcome, alike.length_eq]
    exact Reading.blind_iterate (Reading.blind_runRule _ _) _ true _ _ _ _ ⟨alike, .cons .nil .nil⟩
  obtain ⟨e, groups, found, isEnd, rfl⟩ := (read_eq_ok_iff row .empty t).mp reads
  rw [found] at outcomes
  generalize is : (outcome (Repair.empty.lexemes row')).1 = after at outcomes
  cases outcomes with
  | @some _ s' alike' =>
    obtain ⟨rest', groups'⟩ := s'
    have rests : Lexeme.AllAlike false [e] rest' := alike'.rest
    cases rests with
    | @cons _ _ e' _ _ last _ others =>
      cases others
      refine ⟨_, (read_eq_ok_iff row' .empty _).mpr ⟨e', groups', is, last.kind.symm.trans isEnd, rfl⟩, ?_⟩
      have pieces := List.rel_reverse (List.rel_flatten alike'.groups)
      exact ((Piece.alike_spread pieces).append (.comments last.comments.1 last.comments.2)).ofChildren .program

end Repair

/-- A source that needs no repairs has the tree that it is read to. -/
theorem Tree.ofSource_of_read {cs : List Char} {t : Tree} (reads : Repair.empty.read (TokenRow.ofSource cs) = .ok t) :
    Tree.ofSource cs = t := by
  unfold Tree.ofSource
  dsimp only
  rw [reads]

/-- Sources with the same tokens declare the same, if they need no repairs and layout stays away from what is taken as
it is written. -/
theorem Outline.unit_ofSource_of_sketch {level : Level} {records : Bool} (lenient : level.reader = .lenient records)
    (sourceFile : Option String) {cs cs' : List Char}
    (same : (TokenRow.ofSource cs).sketch = (TokenRow.ofSource cs').sketch)
    (covered : (Repair.empty.read (TokenRow.ofSource cs)).isOk = true)
    (tight : (Tree.ofSource cs).isTight = true) (tight' : (Tree.ofSource cs').isTight = true) :
    ∃ outline outline', ofSource .standard level sourceFile cs = .ok outline ∧
      ofSource .standard level sourceFile cs' = .ok outline' ∧ outline.unit = outline'.unit := by
  obtain ⟨t, reads⟩ : ∃ t, Repair.empty.read (TokenRow.ofSource cs) = .ok t := by
    cases reads : Repair.empty.read (TokenRow.ofSource cs) with
    | ok t => exact ⟨t, rfl⟩
    | error reach => simp [reads, Except.isOk, Except.toBool] at covered
  obtain ⟨t', reads', bare⟩ := Repair.read_empty_of_sketch (TokenRow.sound_ofSource cs) (TokenRow.sound_ofSource cs')
    same reads
  have unit_bare {cs : List Char} {t : Tree} (reads : Repair.empty.read (TokenRow.ofSource cs) = .ok t)
      (tight : (Tree.ofSource cs).isTight = true) :
      (ofTree records sourceFile t.bare).unit = (ofTree records sourceFile t).unit := by
    rw [Tree.ofSource_of_read reads] at tight
    obtain ⟨_, _, _, _, rfl⟩ := (Repair.read_eq_ok_iff ..).mp reads
    exact unit_ofTree_bare records sourceFile (Tree.areTight_iff.mpr (Tree.tight_inside tight rfl).2)
  refine ⟨ofTree records sourceFile t, ofTree records sourceFile t', ?_, ?_, ?_⟩
  · rw [ofSource, lenient, ← Tree.ofSource_of_read reads, Parser.standard]
  · rw [ofSource, lenient, ← Tree.ofSource_of_read reads', Parser.standard]
  · rw [← unit_bare reads tight, bare, unit_bare reads' tight']

/-- A source with as little layout as possible. -/
def closeSource : List Char :=
  "package p;@Table(name=\"t\")class A extends B<C>\x7bint x,y;\x7d".toList

/-- The same source with layout where it does not show. -/
def looseSource : List Char :=
  "package /**/ p ;\n@Table ( name /**/ = \"t\" ) // A\nclass A extends B < C > \x7b int x /**/ , y ; \x7d".toList

theorem Outline.unit_ofSource_of_sketch_loose :
    let level := Level.java17
    level.reader = .lenient true ∧ (TokenRow.ofSource closeSource).sketch = (TokenRow.ofSource looseSource).sketch ∧
      ∃ outline outline', ofSource .standard level none closeSource = .ok outline ∧
        ofSource .standard level none looseSource = .ok outline' ∧ outline.unit = outline'.unit := by
  have same : (TokenRow.ofSource closeSource).sketch = (TokenRow.ofSource looseSource).sketch := by decide +kernel
  exact ⟨rfl, same, unit_ofSource_of_sketch rfl none same (by decide +kernel) (by decide +kernel) (by decide +kernel)⟩

/-- A comment before the type that a class extends is taken for it. -/
theorem Outline.supertype_of_comment :
    let close := "class A extends B \x7b\x7d".toList
    let loose := "class A extends /* b */ B \x7b\x7d".toList
    let outline (cs : List Char) :=
      (ofSource .standard .java17 none cs).map fun o => (o.unit.types.map Decl.supertype?, o.problems)
    (TokenRow.ofSource close).sketch = (TokenRow.ofSource loose).sketch ∧
      outline close = .ok ([some ⟨"B"⟩], []) ∧ outline loose = .ok ([some ⟨"/* b */"⟩], []) := by
  decide +kernel

/-- Layout in the name of a package is left out by one reader and kept by the other. -/
theorem Outline.package_of_spaced :
    let spaced := "package com . acme; class A \x7b\x7d".toList
    let outline (level : Level) := (ofSource .standard level none spaced).map fun o => (o.unit.package, o.problems)
    outline .java8 = .ok (some "com.acme", []) ∧ outline .java17 = .ok (some "com . acme", []) := by
  decide +kernel

end EntityAtlas.Java
