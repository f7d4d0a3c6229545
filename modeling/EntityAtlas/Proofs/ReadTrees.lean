import EntityAtlas.Proofs.Layout
import EntityAtlas.Proofs.Repairs

/-!
# Trees that are read

What the lenient reader makes of tokens is told by the grammar: tokens become leaves, nodes are made of the pieces that
a group holds. A survey of a grammar follows the innermost group through the grammar without reading, and tells what
shape its pieces have. If what it tells of tokens and nodes is true, it is true of all trees that are read, repaired
ones included.
-/

namespace EntityAtlas.Java

/-! ## Surveys -/

namespace Grammar

/-- A way to tell of a grammar what reading makes of the pieces in the innermost group: of no pieces, of pieces of which
nothing is known, of a token, of a node made of pieces, of pieces after others, of pieces of which one of two things is
known, of pieces that play a part, and of what a rule adds. A token or a node of which nothing is told ends the
survey. -/
structure Survey (σ D : Type) where
  nothing : D
  anything : D
  token : NodeKind → Option D
  node : NodeKind → D → Option D
  append : D → D → D
  either : D → D → D
  playing : D → D
  rule : σ → D

namespace Survey

variable {σ D : Type} [DecidableEq D] (v : Survey σ D)

mutual

/-- What is told of the innermost group after a grammar, given what is told of it before. -/
def after? : Grammar σ → (before : D) → Option D
  | .tok _, a => (v.token .symbol).map (v.append a)
  | .close _, a => (v.token .symbol).map (v.append a)
  | .ofKind _ kind, a => (v.token kind).map (v.append a)
  | .name _ kind _, a => (v.token kind).map (v.append a)
  | .touching, a => some a
  | .seq parts, a => afterAll? parts a
  | .alt choices, a => afterAny? choices a
  -- where one repetition changes what is told, nothing is known after several
  | .many item, a =>
    (after? item a).bind fun b => if b = a then some a else (after? item v.anything).map fun _ => v.anything
  | .rule r, a => some (v.append a (v.rule r))
  | .node kind inside, a => ((after? inside v.nothing).bind (v.node kind)).map (v.append a)
  | .group inside, a => (after? inside v.nothing).map (v.append a)
  | .adopt kind inside, a => (after? inside a).bind (v.node kind)
  | .playing _ inside, a => (after? inside v.nothing).map fun b => v.append a (v.playing b)

/-- What is told after grammars that are read one after another. -/
def afterAll? : List (Grammar σ) → (before : D) → Option D
  | [], a => some a
  | g :: gs, a => (after? g a).bind (afterAll? gs)

/-- What is told after the first of several grammars that can be read. -/
def afterAny? : List (Grammar σ) → (before : D) → Option D
  | [], a => some a
  | g :: gs, a => (after? g a).bind fun b => (afterAny? gs a).map (v.either b)

end

/-- A survey tells of each rule what the rule adds, whatever is there before. -/
def Covers (rules : σ → Grammar σ) : Prop :=
  ∀ r a, (v.after? (rules r) a).any (fun b => v.either b (v.append a (v.rule r)) = v.append a (v.rule r)) = true

end Survey

end Grammar

/-- What holds of the tree of a piece, and of the trees before it. -/
structure Piece.Holds (Beside P : Tree → Prop) (p : Piece) : Prop where
  tree : P p.tree
  leading : ∀ t ∈ p.leading, Beside t

/-- What a survey tells is true: `Fits a g` says that `a` is true of the pieces `g` of a group, the latest one first,
and `Beside` holds of the trees before a token. -/
structure Grammar.Survey.IsSound {σ D : Type} (v : Survey σ D) (Beside : Tree → Prop) (Fits : D → List Piece → Prop) :
    Prop where
  comment : ∀ x, Beside (TokenRow.commentTree x)
  fault : ∀ row first stop, Beside (Repair.faultTree row first stop)
  nothing : Fits v.nothing []
  anything : ∀ {a g}, Fits a g → Fits v.anything g
  token : ∀ {kind a x leading}, v.token kind = some a → (∀ t ∈ leading, Beside t) →
    ∀ n, Fits a [⟨leading, .leaf .plain kind x, n, true⟩]
  node : ∀ {kind a b g}, v.node kind a = some b → Fits a g → ∀ n, Fits b [.wrap kind g n]
  append : ∀ {a b g h}, Fits a h → Fits b g → Fits (v.append a b) (g ++ h)
  either : ∀ {a b g}, Fits a g ∨ Fits b g → Fits (v.either a b) g
  playing : ∀ {a g}, Fits a g → ∀ r, Fits (v.playing a) (g.map fun p => { p with tree := p.tree.playing r })
  joined : ∀ {a g}, Fits a g → ∀ n, Fits a (Reading.joinLatest n g)

namespace Reading

variable {σ D : Type} {Beside : Tree → Prop} {Fits : D → List Piece → Prop} {a b c : D}

/-- Tokens to be read of which each has, before it, trees of which something holds. -/
def Flanked (Beside : Tree → Prop) (rest : List Lexeme) : Prop :=
  ∀ x ∈ rest, ∀ t ∈ x.leading, Beside t

/-- Reading goes on in the innermost group, and turns pieces of which `a` is true into pieces of which `b` is. -/
def Turns (Beside : Tree → Prop) (Fits : D → List Piece → Prop) (read : Reading → Reach → Outcome) (a b : D) : Prop :=
  ∀ rest g gs r, Flanked Beside rest → Fits a g → ∀ s ∈ (read ⟨rest, g :: gs⟩ r).1,
    ∃ rest' g', s = ⟨rest', g' :: gs⟩ ∧ Flanked Beside rest' ∧ Fits b g'

variable {read : Reading → Reach → Outcome}

theorem Turns.weaken (turns : Turns Beside Fits read a b) (less : ∀ g, Fits b g → Fits c g) :
    Turns Beside Fits read a c := by
  intro rest g gs r flanked fits s is
  obtain ⟨rest', g', is, flanked', fits'⟩ := turns rest g gs r flanked fits s is
  exact ⟨rest', g', is, flanked', less g' fits'⟩

/-- Nothing is read. -/
theorem turns_refl : Turns Beside Fits (fun s r => (some s, r)) a a := by
  intro rest g gs r flanked fits s is
  cases is
  exact ⟨rest, g, rfl, flanked, fits⟩

/-- One thing is read after another. -/
theorem Turns.trans {next : Reading → Reach → Outcome} (turns : Turns Beside Fits read a b)
    (turns' : Turns Beside Fits next b c) :
    Turns Beside Fits (fun s r => match read s r with
      | (some s', r') => next s' r'
      | (none, r') => (none, r')) a c := by
  intro rest g gs r flanked fits s is
  dsimp only at is
  split at is
  · rename_i s₁ r₁ reads
    obtain ⟨rest', g', rfl, flanked', fits'⟩ := turns rest g gs r flanked fits s₁ (by simp [reads])
    exact turns' rest' g' gs r₁ flanked' fits' s is
  · cases is

/-- If one thing cannot be read, another one is. -/
theorem Turns.orElse {next : Reading → Reach → Outcome} (turns : Turns Beside Fits read a b)
    (turns' : Turns Beside Fits next a b) :
    Turns Beside Fits (fun s r => match read s r with
      | (some s', r') => (some s', r')
      | (none, r') => next s r') a b := by
  intro rest g gs r flanked fits s is
  dsimp only at is
  split at is
  · rename_i s₁ r₁ reads
    cases is
    exact turns rest g gs r flanked fits s (by simp [reads])
  · exact turns' rest g gs _ flanked fits s is

/-- What is read is closed in some way. -/
theorem Turns.closed (turns : Turns Beside Fits read a b) {close : Reading → Reading}
    (closes : ∀ rest g gs, Fits b g → ∃ g', close ⟨rest, g :: gs⟩ = ⟨rest, g' :: gs⟩ ∧ Fits c g') :
    Turns Beside Fits (fun s r => andThen (read s r) close) a c := by
  intro rest g gs r flanked fits s is
  obtain ⟨s₁, reads, rfl⟩ := Option.map_eq_some_iff.mp is
  obtain ⟨rest', g', rfl, flanked', fits'⟩ := turns rest g gs r flanked fits s₁ reads
  obtain ⟨g'', is, fits''⟩ := closes rest' g' gs fits'
  exact ⟨rest', g'', is, flanked', fits''⟩

/-- A group of its own is read, and put into the group around it in some way. -/
theorem Turns.inGroup {nothing inner : D} (turns : Turns Beside Fits read nothing inner) (empty : Fits nothing [])
    {close : Reading → Reading} (closes : ∀ rest g h gs, Fits inner g → Fits a h →
      ∃ g', close ⟨rest, g :: h :: gs⟩ = ⟨rest, g' :: gs⟩ ∧ Fits b g') :
    Turns Beside Fits (fun s r => andThen (read s.openGroup r) close) a b := by
  intro rest g gs r flanked fits s is
  obtain ⟨s₁, reads, rfl⟩ := Option.map_eq_some_iff.mp is
  obtain ⟨rest', g', rfl, flanked', fits'⟩ := turns rest [] (g :: gs) r flanked empty s₁ reads
  obtain ⟨g'', is, fits''⟩ := closes rest' g' g gs fits' fits
  exact ⟨rest', g'', is, flanked', fits''⟩

theorem turns_iterate {step : Reading → Reach → Outcome} (turns : Turns Beside Fits step a a)
    (joined : ∀ g n, Fits a g → Fits a (joinLatest n g)) (fuel : Nat) (isFirst : Bool) :
    Turns Beside Fits (iterate step fuel isFirst) a a := by
  induction fuel generalizing isFirst with
  | zero => exact turns_refl
  | succ fuel ih =>
    intro rest g gs r flanked fits s is
    rw [iterate] at is
    split at is
    · rename_i s₁ r₁ reads
      obtain ⟨rest', g', rfl, flanked', fits'⟩ := turns rest g gs r flanked fits s₁ (by simp [reads])
      split at is
      · cases isFirst with
        | true => exact ih false rest' g' gs r₁ flanked' fits' s is
        | false => exact ih false rest' _ gs r₁ flanked' (joined g' _ fits') s is
      · cases is
        exact ⟨rest, g, rfl, flanked, fits⟩
    · cases is
      exact ⟨rest, g, rfl, flanked, fits⟩

/-! ### Grammars -/

open Grammar (Survey)

variable {v : Survey σ D}

theorem turns_takeIf (sound : v.IsSound Beside Fits) {kind : NodeKind}
    (tells : (v.token kind).map (v.append a) = some b) (accepts : Lexeme → Bool) (welcome : List String) :
    Turns Beside Fits (fun s r => match s.rest with
      | x :: _ => if accepts x then s.take r kind else s.miss r welcome
      | [] => s.miss r []) a b := by
  obtain ⟨leaf, told, rfl⟩ := Option.map_eq_some_iff.mp tells
  intro rest g gs r flanked fits s is
  cases rest with
  | nil => cases is
  | cons x xs =>
    dsimp only at is
    split at is
    · obtain ⟨first, others⟩ := List.forall_mem_cons.mp flanked
      cases is
      exact ⟨xs, _, rfl, others, sound.append fits (sound.token told first _)⟩
    · cases is

variable [DecidableEq D] {call : σ → Reading → Reach → Outcome}

mutual

/-- Reading turns pieces into those that the survey tells of, if it does so for rules. -/
theorem turns_run (sound : v.IsSound Beside Fits)
    (rules : ∀ name a, Turns Beside Fits (call name) a (v.append a (v.rule name))) :
    ∀ (g : Grammar σ) {a b : D}, v.after? g a = some b → Turns Beside Fits (run call g) a b
  | .tok text, a, b, tells => turns_takeIf sound tells _ _
  | .close text, a, b, tells => turns_takeIf sound tells _ _
  | .ofKind kinds kind, a, b, tells => turns_takeIf sound tells _ _
  | .name excluded kind canBeSupplied, a, b, tells => turns_takeIf sound tells _ _
  | .touching, a, b, tells => by
    cases tells
    intro rest g gs r flanked fits s is
    have same : s = ⟨rest, g :: gs⟩ := by
      simp only [run] at is
      split at is
      · split at is <;> cases is
        rfl
      · cases is
    exact ⟨rest, g, same, flanked, fits⟩
  | .seq parts, a, b, tells => turns_runAll sound rules parts tells
  | .alt choices, a, b, tells => turns_runFirst sound rules choices tells
  | .many item, a, b, tells => by
    have repeats {a : D} (turns : Turns Beside Fits (run call item) a a) :
        Turns Beside Fits (run call (.many item)) a a :=
      fun rest => turns_iterate turns (fun _ n fits => sound.joined fits n) rest.length true rest
    obtain ⟨once, told, tells⟩ := Option.bind_eq_some_iff.mp tells
    split at tells
    · rename_i stable
      cases tells
      subst stable
      exact repeats (turns_run sound rules item told)
    · obtain ⟨other, told', rfl⟩ := Option.map_eq_some_iff.mp tells
      have turns := repeats ((turns_run sound rules item told').weaken fun _ => sound.anything)
      exact fun rest g gs r flanked fits => turns rest g gs r flanked (sound.anything fits)
  | .rule name, a, b, tells => by
    cases tells
    exact rules name a
  | .node kind inside, a, b, tells => by
    obtain ⟨made, tells', rfl⟩ := Option.map_eq_some_iff.mp tells
    obtain ⟨inner, told, makes⟩ := Option.bind_eq_some_iff.mp tells'
    exact (turns_run sound rules inside told).inGroup sound.nothing fun rest g h gs fits fits' =>
      ⟨_, rfl, sound.append fits' (sound.node makes fits _)⟩
  | .group inside, a, b, tells => by
    obtain ⟨inner, told, rfl⟩ := Option.map_eq_some_iff.mp tells
    exact (turns_run sound rules inside told).inGroup sound.nothing fun rest g h gs fits fits' =>
      ⟨_, rfl, sound.append fits' fits⟩
  | .adopt kind inside, a, b, tells => by
    obtain ⟨inner, told, makes⟩ := Option.bind_eq_some_iff.mp tells
    exact (turns_run sound rules inside told).closed fun rest g gs fits => ⟨_, rfl, sound.node makes fits _⟩
  | .playing role inside, a, b, tells => by
    obtain ⟨inner, told, rfl⟩ := Option.map_eq_some_iff.mp tells
    exact (turns_run sound rules inside told).inGroup sound.nothing fun rest g h gs fits fits' =>
      ⟨_, rfl, sound.append fits' (sound.playing fits role)⟩

theorem turns_runAll (sound : v.IsSound Beside Fits)
    (rules : ∀ name a, Turns Beside Fits (call name) a (v.append a (v.rule name))) :
    ∀ (gs : List (Grammar σ)) {a b : D}, v.afterAll? gs a = some b → Turns Beside Fits (runAll call gs) a b
  | [], a, b, tells => by
    cases tells
    exact turns_refl
  | g :: gs, a, b, tells => by
    obtain ⟨between, told, tells⟩ := Option.bind_eq_some_iff.mp tells
    exact (turns_run sound rules g told).trans (turns_runAll sound rules gs tells)

theorem turns_runFirst (sound : v.IsSound Beside Fits)
    (rules : ∀ name a, Turns Beside Fits (call name) a (v.append a (v.rule name))) :
    ∀ (gs : List (Grammar σ)) {a b : D}, v.afterAny? gs a = some b → Turns Beside Fits (runFirst call gs) a b
  | [], a, b, tells => by
    intro rest g gs r flanked fits s is
    cases is
  | g :: gs, a, b, tells => by
    obtain ⟨first, told, tells⟩ := Option.bind_eq_some_iff.mp tells
    obtain ⟨others, told', rfl⟩ := Option.map_eq_some_iff.mp tells
    exact ((turns_run sound rules g told).weaken fun _ fits => sound.either (.inl fits)).orElse
      ((turns_runFirst sound rules gs told').weaken fun _ fits => sound.either (.inr fits))

end

theorem turns_runRule (sound : v.IsSound Beside Fits) {rules : σ → Grammar σ} (covers : v.Covers rules) (fuel : Nat)
    (name : σ) (a : D) :
    Turns Beside Fits (runRule rules fuel name) a (v.append a (v.rule name)) := by
  induction fuel generalizing name a with
  | zero =>
    intro rest g gs r flanked fits s is
    cases is
  | succ fuel ih =>
    have covered := covers name a
    cases told : v.after? (rules name) a with
    | none => simp [told] at covered
    | some b =>
      have below : v.either b (v.append a (v.rule name)) = v.append a (v.rule name) := by simpa [told] using covered
      exact (turns_run sound ih (rules name) told).weaken fun g fits => below ▸ sound.either (.inl fits)

end Reading

/-- What a survey tells of any number of statements is true of the pieces that a source is read to. -/
theorem Repair.exists_pieces_of_read {D : Type} [DecidableEq D] {Beside : Tree → Prop} {Fits : D → List Piece → Prop}
    {v : Grammar.Survey Rule D} (sound : v.IsSound Beside Fits) (covers : v.Covers Rule.grammar) {a : D}
    (start : Fits a []) (stable : v.append a (v.rule .topStatement) = a) {row : TokenRow} {r : Repair} {t : Tree}
    (reads : r.read row = .ok t) :
    ∃ g after, Fits a g ∧ (∀ u ∈ after, Beside u) ∧
      t = .ofChildren .program (g.reverse.flatMap (fun p => p.leading ++ [p.tree]) ++ after) := by
  obtain ⟨e, groups, found, -, rfl⟩ := (read_eq_ok_iff row r t).mp reads
  have flanked : Reading.Flanked Beside (r.lexemes row) :=
    holds_leading sound.comment (sound.fault row) r _ _ false nofun
  have statements := stable ▸ Reading.turns_runRule sound covers (64 * ((r.lexemes row).length + 1)) .topStatement a
  obtain ⟨rest, g, is, flanked', fits⟩ := Reading.turns_iterate statements (fun _ n fits => sound.joined fits n) _ true
    _ [] [] _ flanked start _ found
  cases is
  exact ⟨g, e.leading, fits, flanked' e List.mem_cons_self, by simp [program]⟩

/-! ## Pieces -/

namespace Piece

variable {Beside P : Tree → Prop} {ps : List Piece}

theorem holds_spread (aside : ∀ t, Beside t → P t) (holds : ∀ p ∈ ps, p.Holds Beside P) :
    ∀ t ∈ ps.flatMap fun p => p.leading ++ [p.tree], P t := by
  intro t mem
  obtain ⟨p, among, mem⟩ := List.mem_flatMap.mp mem
  rcases List.mem_append.mp mem with mem | mem
  · exact aside t ((holds p among).leading t mem)
  · exact List.mem_singleton.mp mem ▸ (holds p among).tree

theorem holds_parts (aside : ∀ t, Beside t → P t) (holds : ∀ p ∈ ps, p.Holds Beside P) : ∀ t ∈ parts ps, P t := by
  cases ps with
  | nil => nofun
  | cons p ps =>
    intro t mem
    rcases List.mem_cons.mp mem with rfl | mem
    · exact (holds p List.mem_cons_self).tree
    · exact holds_spread aside (fun q among => holds q (List.mem_cons_of_mem _ among)) t mem

theorem parts_eq_nil_iff {ps : List Piece} : parts ps = [] ↔ ps = [] := by
  cases ps <;> simp [parts]

theorem tree_mem_parts {ps : List Piece} {p : Piece} (mem : p ∈ ps) : p.tree ∈ parts ps := by
  cases ps with
  | nil => cases mem
  | cons q ps =>
    rcases List.mem_cons.mp mem with rfl | mem
    · exact List.mem_cons_self
    · exact List.mem_cons_of_mem _ (List.mem_flatMap.mpr ⟨p, mem, by simp⟩)

theorem parts_congr {ps qs : List Piece}
    (same : ps.map (fun p => (p.tree, p.leading)) = qs.map fun q => (q.tree, q.leading)) : parts ps = parts qs := by
  have spread (ps : List Piece) : (ps.flatMap fun p => p.leading ++ [p.tree]) =
      (ps.map fun p => (p.tree, p.leading)).flatMap fun x => x.2 ++ [x.1] := by
    rw [List.flatMap_map]
  cases ps with
  | nil => rw [List.map_eq_nil_iff.mp same.symm]
  | cons p ps =>
    cases qs with
    | nil => cases same
    | cons q qs =>
      obtain ⟨first, rest⟩ := List.cons.inj same
      rw [parts, parts, spread, spread, rest, (Prod.mk.inj first).1]

/-- Pieces after others: what stands before the first of them comes between. -/
theorem exists_parts_append (ps : List Piece) {qs : List Piece} (holds : ∀ q ∈ qs, q.Holds Beside P) :
    ∃ before, (∀ t ∈ before, Beside t) ∧ (parts ps = [] → before = []) ∧ (parts qs = [] → before = []) ∧
      parts (ps ++ qs) = parts ps ++ before ++ parts qs := by
  cases ps with
  | nil => exact ⟨[], List.forall_mem_nil _, fun _ => rfl, fun _ => rfl, rfl⟩
  | cons p ps =>
    cases qs with
    | nil => exact ⟨[], List.forall_mem_nil _, fun _ => rfl, fun _ => rfl, by simp [parts]⟩
    | cons q qs =>
      refine ⟨q.leading, (holds q List.mem_cons_self).leading, fun none => ?_, fun none => ?_, by simp [parts]⟩
      · simp [parts] at none
      · simp [parts] at none

theorem holds_wrap {kind : NodeKind} (made : P (.ofChildren kind (parts ps.reverse)))
    (holds : ∀ p ∈ ps, p.Holds Beside P) (n : Nat) : (wrap kind ps n).Holds Beside P := by
  refine ⟨made, ?_⟩
  simp only [wrap]
  cases first : ps.reverse.head? with
  | none => simp
  | some p => exact (holds p (List.mem_reverse.mp (List.mem_of_mem_head? first))).leading

theorem holds_playing (played : ∀ t r, P t → P (t.playing r)) (holds : ∀ p ∈ ps, p.Holds Beside P) (r : Role) :
    ∀ p ∈ ps.map fun p => { p with tree := p.tree.playing r }, p.Holds Beside P :=
  List.forall_mem_map.mpr fun p mem => ⟨played _ _ (holds p mem).tree, (holds p mem).leading⟩

theorem holds_joinLatest (n : Nat) (holds : ∀ p ∈ ps, p.Holds Beside P) :
    ∀ p ∈ Reading.joinLatest n ps, p.Holds Beside P := by
  intro p mem
  have among : (p.tree, p.leading) ∈ ps.map fun q => (q.tree, q.leading) :=
    Reading.map_joinLatest n ps ▸ List.mem_map_of_mem mem
  obtain ⟨q, held, same⟩ := List.mem_map.mp among
  obtain ⟨tree, leading⟩ := Prod.mk.inj same
  exact ⟨tree ▸ (holds q held).tree, leading ▸ (holds q held).leading⟩

end Piece

/-! ## What every node keeps -/

namespace Tree

/-- What holds of single tokens and is kept when trees become parts of a node or play a part. -/
structure IsKept (P : Tree → Prop) : Prop where
  leaf : ∀ r k t, P (.leaf r k t)
  ofChildren : ∀ k cs, (∀ c ∈ cs, P c) → P (.ofChildren k cs)
  playing : ∀ t r, P t → P (t.playing r)

/-- The survey that tells nothing, of any grammar. -/
def blankSurvey : Grammar.Survey Rule Unit where
  nothing := ()
  anything := ()
  token _ := some ()
  node _ _ := some ()
  append _ _ := ()
  either _ _ := ()
  playing _ := ()
  rule _ := ()

theorem covers_blankSurvey : blankSurvey.Covers Rule.grammar := by
  intro r a
  cases a
  cases r <;> decide +kernel

variable {P : Tree → Prop}

theorem IsKept.faultTree (kept : IsKept P) (row : TokenRow) (first stop : Nat) : P (Repair.faultTree row first stop) :=
  kept.ofChildren _ _ (Repair.holds_children_faultTree (fun _ => kept.leaf _ _ _) (fun _ => kept.leaf _ _ _) first stop)

theorem IsKept.isSound (kept : IsKept P) : blankSurvey.IsSound P fun _ g => ∀ p ∈ g, p.Holds P P where
  comment _ := kept.leaf _ _ _
  fault := kept.faultTree
  nothing := nofun
  anything holds := holds
  token _ leading _ := by simpa using ⟨kept.leaf _ _ _, leading⟩
  node {kind _ _ g} _ holds n := by
    have parts := Piece.holds_parts (fun _ holds => holds) fun p mem => holds p (List.mem_reverse.mp mem)
    simpa using Piece.holds_wrap (kept.ofChildren kind _ parts) holds n
  append holds holds' := List.forall_mem_append.mpr ⟨holds', holds⟩
  either holds := holds.elim id id
  playing holds r := Piece.holds_playing kept.playing holds r
  joined holds n := Piece.holds_joinLatest n holds

/-- What holds of single tokens and is kept when trees are put together holds of the tree of every source. -/
theorem IsKept.holds_ofSource (kept : IsKept P) (cs : List Char) : P (ofSource cs) := by
  refine Tree.holds_ofSource (fun row r t reads => ?_) (fun row => ?_) cs
  · obtain ⟨g, after, holds, aside, rfl⟩ :=
      Repair.exists_pieces_of_read kept.isSound covers_blankSurvey (a := ()) nofun rfl reads
    refine kept.ofChildren _ _ (List.forall_mem_append.mpr ⟨Piece.holds_spread (fun _ holds => holds) ?_, aside⟩)
    exact fun p mem => holds p (List.mem_reverse.mp mem)
  · exact kept.ofChildren _ _ (Repair.holds_children_beyondRepair (fun _ => kept.leaf _ _ _) (kept.faultTree row))

end Tree

end EntityAtlas.Java
