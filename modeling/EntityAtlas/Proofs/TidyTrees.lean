import EntityAtlas.Java.Outline
import EntityAtlas.Proofs.Repairs

/-!
# Names in leniently read sources

The lenient reader repairs sources, and names may be lacking after a repair. The name of a declared type is never
lacking: the grammar takes it from a word of the source. That is a property of the grammar as data, so it is checked by
a walk over the rules, and reading by any grammar that passes the check keeps it, with repairs or without.
-/

namespace EntityAtlas.Java

/-! ## Trees -/

namespace Tree

/-- Whether nodes of the kind declare a type. -/
def declares (k : NodeKind) : Bool :=
  (declaredKind? k).isSome

/-- Whether a tree that plays the part of a name is a segment. -/
def NameSound (t : Tree) : Prop :=
  t.role = .name → Text.IsSegment t.text

/-- In a tidy tree all declarations, at any depth, are called by segments. -/
inductive Tidy : Tree → Prop where
  | leaf (r : Role) (k : NodeKind) (t : Token) : Tidy (.leaf r k t)
  | node {r : Role} {k : NodeKind} {f : Bool} {cs : List Tree} (inside : ∀ c ∈ cs, Tidy c)
    (names : declares k = true → ∀ c ∈ cs, c.NameSound) : Tidy (.node r k f cs)

theorem Tidy.playing {t : Tree} (tidy : t.Tidy) (r : Role) : (t.playing r).Tidy := by
  cases tidy with
  | leaf => exact .leaf ..
  | node inside names => exact .node inside names

theorem Tidy.inside {r : Role} {k : NodeKind} {f : Bool} {cs : List Tree} (tidy : Tidy (.node r k f cs)) :
    ∀ c ∈ cs, c.Tidy := by
  cases tidy with
  | node inside names => exact inside

theorem Tidy.children {t : Tree} (tidy : t.Tidy) : ∀ c ∈ t.children, c.Tidy := by
  cases tidy with
  | leaf => simp [Tree.children]
  | node inside names => exact inside

theorem role_playing (t : Tree) (r : Role) : (t.playing r).role = r := by
  cases t <;> rfl

end Tree

/-! ## Grammars -/

namespace Grammar

variable {σ : Type}

/-- Whether a grammar takes one word, which cannot be supplied. -/
def isWord : Grammar σ → Bool
  | .name _ _ canBeSupplied => !canBeSupplied
  | _ => false

mutual

/-- Walk over a grammar, given whether names of the innermost group may be lacking before it is read: whether they may
be after that, if no declaration is made while they are. -/
def laxAfter? : Grammar σ → (lax : Bool) → Option Bool
  | .seq parts, lax => laxAfterAll? parts lax
  | .alt choices, lax => laxAfterAny? choices lax
  | .many item, lax => (laxAfter? item lax).bind fun after => if after && !lax then none else some lax
  | .node kind inside, lax =>
    (laxAfter? inside false).bind fun after => if after && Tree.declares kind then none else some lax
  | .group inside, lax => (laxAfter? inside false).map (lax || ·)
  | .adopt kind inside, lax =>
    (laxAfter? inside lax).bind fun after => if after && Tree.declares kind then none else some false
  | .playing role inside, lax =>
    if inside.isWord then some lax else (laxAfter? inside false).map fun _ => lax || role == .name
  | _, lax => some lax

/-- The walk over grammars that are read one after another. -/
def laxAfterAll? : List (Grammar σ) → (lax : Bool) → Option Bool
  | [], lax => some lax
  | g :: gs, lax => (laxAfter? g lax).bind (laxAfterAll? gs)

/-- The walk over grammars of which one is read. -/
def laxAfterAny? : List (Grammar σ) → (lax : Bool) → Option Bool
  | [], _ => some false
  | g :: gs, lax => (laxAfter? g lax).bind fun after => (laxAfterAny? gs lax).map (after || ·)

end

end Grammar

/-- The rules of the language never lose the name of a declaration. -/
theorem Rule.keeps_names (r : Rule) (lax : Bool) :
    ((Rule.grammar r).laxAfter? lax).any (fun after => !after || lax) = true := by
  cases r <;> cases lax <;> decide +kernel

/-! ## Reading -/

/-- Trees that stand before a token: they play no part, and what they declare is called by segments. -/
def AreAside (ts : List Tree) : Prop :=
  ∀ t ∈ ts, t.Tidy ∧ t.role = .plain

/-- A piece is tidy, and if names may not be lacking it is no lacking name. -/
def Piece.Sound (lax : Bool) (p : Piece) : Prop :=
  p.tree.Tidy ∧ AreAside p.leading ∧ (lax = false → p.tree.NameSound)

theorem Piece.Sound.relax {p : Piece} {lax lax' : Bool} (sound : p.Sound lax) (more : lax = true → lax' = true) :
    p.Sound lax' := by
  refine ⟨sound.1, sound.2.1, fun strict => sound.2.2 ?_⟩
  cases lax with
  | false => rfl
  | true => simp [more rfl] at strict

/-- The trees that a node is made of are tidy, and names if the pieces are. -/
theorem Piece.tidy_parts {lax : Bool} {ps : List Piece} (sound : ∀ p ∈ ps, p.Sound lax) :
    ∀ t ∈ parts ps, t.Tidy ∧ (lax = false → t.NameSound) := by
  have aside {ts : List Tree} (aside : AreAside ts) : ∀ t ∈ ts, t.Tidy ∧ (lax = false → t.NameSound) := by
    intro t mem
    obtain ⟨tidy, plain⟩ := aside t mem
    exact ⟨tidy, fun _ isName => by rw [plain] at isName; cases isName⟩
  cases ps with
  | nil => simp [parts]
  | cons p ps =>
    intro t mem
    rcases List.mem_cons.mp mem with rfl | mem
    · exact ⟨(sound p List.mem_cons_self).1, (sound p List.mem_cons_self).2.2⟩
    obtain ⟨q, inside, mem⟩ := List.mem_flatMap.mp mem
    obtain ⟨tidy, before, name⟩ := sound q (List.mem_cons_of_mem _ inside)
    rcases List.mem_append.mp mem with mem | mem
    · exact aside before t mem
    · rw [List.mem_singleton.mp mem]
      exact ⟨tidy, name⟩

theorem Piece.sound_wrap {lax lax' : Bool} {kind : NodeKind} {ps : List Piece} (sound : ∀ p ∈ ps, p.Sound lax)
    (names : lax = true → Tree.declares kind = false) (number : Nat) : (wrap kind ps number).Sound lax' := by
  have parts : ∀ t ∈ parts ps.reverse, t.Tidy ∧ (lax = false → t.NameSound) :=
    tidy_parts fun p mem => sound p (List.mem_reverse.mp mem)
  refine ⟨.node (fun t mem => (parts t mem).1) fun declares t mem => (parts t mem).2 ?_, ?_, nofun⟩
  · cases lax with
    | false => rfl
    | true => simp [names rfl] at declares
  · cases first : ps.reverse with
    | nil => simp [wrap, first, AreAside]
    | cons p rest =>
      have mem : p ∈ ps := List.mem_reverse.mp (first ▸ List.mem_cons_self)
      simpa [wrap, first] using (sound p mem).2.1

namespace Reading

/-- Reading goes on in the innermost group, and leaves its pieces sound if it finds them so. -/
def Keeps (read : Reading → Reach → Outcome) (lax after : Bool) : Prop :=
  ∀ rest g gs r s r', (∀ x ∈ rest, AreAside x.leading) → (∀ p ∈ g, p.Sound lax) →
    read ⟨rest, g :: gs⟩ r = (some s, r') →
    ∃ rest' g', s = ⟨rest', g' :: gs⟩ ∧ (∀ x ∈ rest', AreAside x.leading) ∧ ∀ p ∈ g', p.Sound after

theorem Keeps.relax {read : Reading → Reach → Outcome} {lax after after' : Bool} (keeps : Keeps read lax after)
    (more : after = true → after' = true) : Keeps read lax after' := by
  intro rest g gs r s r' aside sound reads
  obtain ⟨rest', g', is, aside', sound'⟩ := keeps rest g gs r s r' aside sound reads
  exact ⟨rest', g', is, aside', fun p mem => (sound' p mem).relax more⟩

theorem keeps_take (kind : NodeKind) (lax : Bool) : Keeps (fun s r => s.take r kind) lax lax := by
  intro rest g gs r s r' aside sound reads
  cases rest with
  | nil => cases reads
  | cons x rest =>
    cases reads
    refine ⟨rest, _, rfl, fun y mem => aside y (List.mem_cons_of_mem _ mem), fun p mem => ?_⟩
    rcases List.mem_cons.mp mem with rfl | mem
    · exact ⟨.leaf .., aside x List.mem_cons_self, nofun⟩
    · exact sound p mem

/-- A token is taken if it is accepted, and otherwise reading fails. -/
theorem keeps_takeIf (accepts : Lexeme → Bool) (kind : NodeKind) (welcome : List String) (lax : Bool) :
    Keeps (fun s r => match s.rest with
      | x :: _ => if accepts x then s.take r kind else s.miss r welcome
      | [] => s.miss r []) lax lax := by
  intro rest g gs r s r' aside sound reads
  cases rest with
  | nil => cases reads
  | cons x rest =>
    dsimp only at reads
    split at reads
    · exact keeps_take kind lax (x :: rest) g gs r s r' aside sound reads
    · cases reads

theorem keeps_readText (text : String) (canBeSupplied lax : Bool) :
    Keeps (fun s r => s.readText r text canBeSupplied) lax lax :=
  keeps_takeIf _ _ _ lax

theorem keeps_readName (excluded : List String) (kind : NodeKind) (canBeSupplied lax : Bool) :
    Keeps (fun s r => s.readName r excluded kind canBeSupplied) lax lax :=
  keeps_takeIf _ _ _ lax

theorem keeps_readKind (kinds : List TokenKind) (kind : NodeKind) (lax : Bool) :
    Keeps (fun s r => s.readKind r kinds kind) lax lax :=
  keeps_takeIf _ _ _ lax

/-- A name that cannot be supplied is read from a word. -/
theorem word_of_readName {excluded : List String} {kind : NodeKind} {rest : List Lexeme} {g : List Piece}
    {gs : List (List Piece)} {r r' : Reach} {s : Reading}
    (reads : readName ⟨rest, g :: gs⟩ r excluded kind false = (some s, r')) :
    ∃ x rest', rest = x :: rest' ∧ x.token.kind = .word ∧
      s = ⟨rest', (⟨x.leading, .leaf .plain kind x.token, x.number, true⟩ :: g) :: gs⟩ := by
  cases rest with
  | nil => cases reads
  | cons x rest =>
    simp only [readName, Bool.false_and, Bool.false_eq_true, ↓reduceIte] at reads
    split at reads
    · rename_i isWord
      split at reads
      · cases reads
        exact ⟨x, rest, rfl, isWord, rfl⟩
      · cases reads
    all_goals simp [miss] at reads

/-- A name that is read from a word is a segment. -/
theorem keeps_playingWord (role : Role) (excluded : List String) (kind : NodeKind) (lax : Bool) :
    Keeps (fun s r => andThen (s.openGroup.readName r excluded kind false) (closeRole role)) lax lax := by
  intro rest g gs r s r' aside sound reads
  obtain ⟨s₁, reads₁, rfl⟩ := Option.map_eq_some_iff.mp (congrArg Prod.fst reads)
  obtain ⟨x, rest, rfl, isWord, rfl⟩ := word_of_readName (Prod.ext reads₁ rfl)
  refine ⟨rest, _, rfl, fun y mem => aside y (List.mem_cons_of_mem _ mem), fun p mem => ?_⟩
  rcases List.mem_cons.mp mem with rfl | mem
  · refine ⟨.leaf .., aside x List.mem_cons_self, fun _ _ => ?_⟩
    have text : (Tree.leaf role kind x.token).text = x.token.text := by
      simp [Tree.text, Tree.tokens, Tree.textOf]
    exact text ▸ x.token.word isWord
  · exact sound p mem

theorem keeps_touching (lax : Bool) : Keeps (fun s r => match s.rest with
    | x :: _ => if x.token.before == "" && x.leading.isEmpty then (some s, r) else (none, r)
    | [] => (none, r)) lax lax := by
  intro rest g gs r s r' aside sound reads
  dsimp only at reads
  split at reads
  · split at reads
    · cases reads
      exact ⟨_, _, rfl, aside, sound⟩
    · cases reads
  · cases reads

theorem joinLatest_sound {lax : Bool} (number : Nat) {g : List Piece} (sound : ∀ p ∈ g, p.Sound lax) :
    ∀ p ∈ joinLatest number g, p.Sound lax := by
  induction g with
  | nil => simp [joinLatest]
  | cons p g ih =>
    rw [joinLatest]
    split
    · intro q mem
      rcases List.mem_cons.mp mem with rfl | mem
      · exact sound p List.mem_cons_self
      · exact ih (fun q mem => sound q (List.mem_cons_of_mem _ mem)) q mem
    · exact sound

/-- Repeating what keeps pieces sound keeps them sound. -/
theorem keeps_iterate {step : Reading → Reach → Outcome} {lax : Bool} (keeps : Keeps step lax lax) (fuel : Nat)
    (isFirst : Bool) : Keeps (iterate step fuel isFirst) lax lax := by
  induction fuel generalizing isFirst with
  | zero =>
    intro rest g gs r s r' aside sound reads
    cases reads
    exact ⟨rest, g, rfl, aside, sound⟩
  | succ fuel ih =>
    intro rest g gs r s r' aside sound reads
    rw [iterate] at reads
    split at reads
    · rename_i s₁ r₁ reads₁
      obtain ⟨rest₁, g₁, rfl, aside₁, sound₁⟩ := keeps rest g gs r s₁ r₁ aside sound reads₁
      split at reads
      · cases isFirst with
        | true => exact ih false rest₁ g₁ gs r₁ s r' aside₁ sound₁ reads
        | false => exact ih false rest₁ _ gs r₁ s r' aside₁ (joinLatest_sound _ sound₁) reads
      · cases reads
        exact ⟨rest, g, rfl, aside, sound⟩
    · cases reads
      exact ⟨rest, g, rfl, aside, sound⟩

variable {σ : Type} {call : σ → Reading → Reach → Outcome}

/-- Reading inside a group of its own, which is closed in the end. -/
theorem keeps_andThen {read : Reading → Reach → Outcome} {close : Reading → Reading} {lax inner after : Bool}
    (keeps : Keeps read false inner)
    (closes : ∀ rest g h gs, (∀ p ∈ g, p.Sound inner) → (∀ p ∈ h, p.Sound lax) →
      ∃ g', close ⟨rest, g :: h :: gs⟩ = ⟨rest, g' :: gs⟩ ∧ ∀ p ∈ g', p.Sound after) :
    Keeps (fun s r => andThen (read s.openGroup r) close) lax after := by
  intro rest g gs r s r' aside sound reads
  obtain ⟨s₁, reads₁, rfl⟩ := Option.map_eq_some_iff.mp (congrArg Prod.fst reads)
  obtain ⟨rest₁, g₁, rfl, aside₁, sound₁⟩ :=
    keeps rest [] (g :: gs) r s₁ _ aside (by simp) (Prod.ext reads₁ rfl)
  obtain ⟨g', is, sound'⟩ := closes rest₁ g₁ g gs sound₁ sound
  exact ⟨rest₁, g', is, aside₁, sound'⟩

section Groups

variable {read : Reading → Reach → Outcome} {kind : NodeKind} {lax inner : Bool}

theorem keeps_node (keeps : Keeps read false inner) (names : inner = true → Tree.declares kind = false) :
    Keeps (fun s r => andThen (read s.openGroup r) (closeNode kind)) lax lax := by
  refine keeps_andThen keeps fun rest g h gs sound sound' => ⟨_, rfl, fun p mem => ?_⟩
  rcases List.mem_cons.mp mem with rfl | mem
  · exact Piece.sound_wrap sound names _
  · exact sound' p mem

theorem keeps_group (keeps : Keeps read false inner) :
    Keeps (fun s r => andThen (read s.openGroup r) closeGroup) lax (lax || inner) := by
  refine keeps_andThen keeps fun rest g h gs sound sound' => ⟨_, rfl, fun p mem => ?_⟩
  rcases List.mem_append.mp mem with mem | mem
  · exact (sound p mem).relax (by simp +contextual)
  · exact (sound' p mem).relax (by simp +contextual)

theorem keeps_adopt (keeps : Keeps read lax inner) (names : inner = true → Tree.declares kind = false) :
    Keeps (fun s r => andThen (read s r) (adoptGroup kind)) lax false := by
  intro rest g gs r s r' aside sound reads
  obtain ⟨s₁, reads₁, rfl⟩ := Option.map_eq_some_iff.mp (congrArg Prod.fst reads)
  obtain ⟨rest₁, g₁, rfl, aside₁, sound₁⟩ := keeps rest g gs r s₁ _ aside sound (Prod.ext reads₁ rfl)
  refine ⟨rest₁, _, rfl, aside₁, fun p mem => ?_⟩
  rw [List.mem_singleton.mp mem]
  exact Piece.sound_wrap sound₁ names _

/-- Only a part that is played as a name may lack it. -/
theorem keeps_playing (role : Role) (keeps : Keeps read false inner) :
    Keeps (fun s r => andThen (read s.openGroup r) (closeRole role)) lax (lax || role == .name) := by
  refine keeps_andThen keeps fun rest g h gs sound sound' => ⟨_, rfl, fun p mem => ?_⟩
  rcases List.mem_append.mp mem with mem | mem
  · obtain ⟨q, held, rfl⟩ := List.mem_map.mp mem
    refine ⟨(sound q held).1.playing role, (sound q held).2.1, fun strict isName => ?_⟩
    rw [Tree.role_playing] at isName
    simp [isName] at strict
  · exact (sound' p mem).relax (by simp +contextual)

end Groups

/-- A walk that goes on only if what it met fits went on, and where to. -/
theorem of_bind_ite {walk : Option Bool} {bad : Bool → Bool} {next after : Bool}
    (walks : (walk.bind fun met => if bad met then none else some next) = some after) :
    ∃ met, walk = some met ∧ bad met = false ∧ next = after := by
  obtain ⟨met, is, walks⟩ := Option.bind_eq_some_iff.mp walks
  cases fits : bad met with
  | true => simp [fits] at walks
  | false => exact ⟨met, is, fits, by simpa [fits] using walks⟩

mutual

/-- Reading by a grammar that passes the walk keeps names from being lost. -/
theorem keeps_run (rules : ∀ name lax, Keeps (call name) lax lax) :
    ∀ (g : Grammar σ) {lax after : Bool}, g.laxAfter? lax = some after → Keeps (run call g) lax after
  | .tok text, lax, after, walk => by
    cases walk
    exact keeps_readText text false lax
  | .close text, lax, after, walk => by
    cases walk
    exact keeps_readText text true lax
  | .ofKind kinds kind, lax, after, walk => by
    cases walk
    exact keeps_readKind kinds kind lax
  | .name excluded kind canBeSupplied, lax, after, walk => by
    cases walk
    exact keeps_readName excluded kind canBeSupplied lax
  | .touching, lax, after, walk => by
    cases walk
    exact keeps_touching lax
  | .seq parts, lax, after, walk => keeps_runAll rules parts walk
  | .alt choices, lax, after, walk => keeps_runFirst rules choices walk
  | .many item, lax, after, walk => by
    obtain ⟨inner, walk', fits, rfl⟩ := of_bind_ite walk
    have keeps : Keeps (run call item) lax lax := (keeps_run rules item walk').relax (by simpa using fits)
    exact fun rest => keeps_iterate keeps rest.length true rest
  | .rule name, lax, after, walk => by
    cases walk
    exact rules name lax
  | .node kind inside, lax, after, walk => by
    obtain ⟨inner, walk', fits, rfl⟩ := of_bind_ite walk
    exact keeps_node (keeps_run rules inside walk') (by simpa using fits)
  | .group inside, lax, after, walk => by
    obtain ⟨inner, walk', rfl⟩ := Option.map_eq_some_iff.mp walk
    exact keeps_group (keeps_run rules inside walk')
  | .adopt kind inside, lax, after, walk => by
    obtain ⟨inner, walk', fits, rfl⟩ := of_bind_ite walk
    exact keeps_adopt (keeps_run rules inside walk') (by simpa using fits)
  | .playing role inside, lax, after, walk => by
    rw [Grammar.laxAfter?] at walk
    split at walk
    · rename_i isWord
      cases walk
      cases inside with
      | name excluded kind canBeSupplied =>
        cases canBeSupplied with
        | false => exact keeps_playingWord role excluded kind lax
        | true => cases isWord
      | _ => cases isWord
    · obtain ⟨inner, walk', rfl⟩ := Option.map_eq_some_iff.mp walk
      exact keeps_playing role (keeps_run rules inside walk')

/-- Reading by grammars one after another keeps names from being lost. -/
theorem keeps_runAll (rules : ∀ name lax, Keeps (call name) lax lax) :
    ∀ (gs : List (Grammar σ)) {lax after : Bool}, Grammar.laxAfterAll? gs lax = some after →
      Keeps (runAll call gs) lax after
  | [], lax, after, walk => by
    cases walk
    intro rest g gs r s r' aside sound reads
    cases reads
    exact ⟨rest, g, rfl, aside, sound⟩
  | gr :: grs, lax, after, walk => by
    obtain ⟨between, walk', walks⟩ := Option.bind_eq_some_iff.mp walk
    intro rest g gs r s r' aside sound reads
    rw [runAll] at reads
    split at reads
    · rename_i s₁ r₁ reads₁
      obtain ⟨rest₁, g₁, rfl, aside₁, sound₁⟩ := keeps_run rules gr walk' rest g gs r s₁ r₁ aside sound reads₁
      exact keeps_runAll rules grs walks rest₁ g₁ gs r₁ s r' aside₁ sound₁ reads
    · cases reads

/-- Reading by the first of several grammars that succeeds keeps names from being lost. -/
theorem keeps_runFirst (rules : ∀ name lax, Keeps (call name) lax lax) :
    ∀ (gs : List (Grammar σ)) {lax after : Bool}, Grammar.laxAfterAny? gs lax = some after →
      Keeps (runFirst call gs) lax after
  | [], lax, after, walk => by
    intro rest g gs r s r' aside sound reads
    cases reads
  | gr :: grs, lax, after, walk => by
    obtain ⟨one, walk', walk⟩ := Option.bind_eq_some_iff.mp walk
    obtain ⟨others, walks, rfl⟩ := Option.map_eq_some_iff.mp walk
    intro rest g gs r s r' aside sound reads
    rw [runFirst] at reads
    split at reads
    · rename_i s₁ r₁ reads₁
      cases reads
      exact ((keeps_run rules gr walk').relax (by simp +contextual)) rest g gs r s r' aside sound reads₁
    · rename_i r₁ reads₁
      exact ((keeps_runFirst rules grs walks).relax (by simp +contextual)) rest g gs r₁ s r' aside sound reads

end

theorem keeps_runRule (fuel : Nat) (rule : Rule) (lax : Bool) : Keeps (runRule Rule.grammar fuel rule) lax lax := by
  induction fuel generalizing rule lax with
  | zero =>
    intro rest g gs r s r' aside sound reads
    cases reads
  | succ fuel ih =>
    have kept := rule.keeps_names lax
    cases walk : (Rule.grammar rule).laxAfter? lax with
    | none => simp [walk] at kept
    | some after =>
      simp only [walk, Option.any_some, Bool.or_eq_true, Bool.not_eq_true'] at kept
      refine (keeps_run ih (Rule.grammar rule) walk).relax fun isLax => ?_
      rcases kept with strict | lax
      · simp [isLax] at strict
      · exact lax

end Reading

/-! ## Sources -/

namespace Repair

/-- What stands before a token is tidy and plays no part. -/
theorem comment_aside (x : Token) : (TokenRow.commentTree x).Tidy ∧ (TokenRow.commentTree x).role = .plain :=
  ⟨.leaf .., rfl⟩

theorem faultTree_aside (row : TokenRow) (first stop : Nat) :
    (faultTree row first stop).Tidy ∧ (faultTree row first stop).role = .plain := by
  have inside : ∀ c ∈ (faultTree row first stop).children, c.Tidy :=
    holds_children_faultTree (fun _ => .leaf ..) (fun _ => .leaf ..) first stop
  exact ⟨.node inside nofun, rfl⟩

/-- Reading after a repair gives a tidy tree. -/
theorem tidy_of_read (row : TokenRow) (r : Repair) (t : Tree) (reads : r.read row = .ok t) : t.Tidy := by
  simp only [read] at reads
  split at reads
  · rename_i e groups outcome
    split at reads
    · cases reads
      obtain ⟨rest, g, is, aside, sound⟩ := Reading.keeps_iterate (Reading.keeps_runRule _ .topStatement false) _ true
        _ [] [] _ _ _ (holds_leading comment_aside (faultTree_aside row) r _ 0 false (by simp)) (by simp)
        (Prod.ext outcome rfl)
      cases is
      refine .node (fun c mem => ?_) nofun
      rcases List.mem_append.mp mem with mem | mem
      · obtain ⟨p, held, mem⟩ := List.mem_flatMap.mp mem
        obtain ⟨tidy, before, -⟩ := sound p (by simpa using held)
        rcases List.mem_append.mp mem with mem | mem
        · exact (before c mem).1
        · rw [List.mem_singleton.mp mem]
          exact tidy
      · exact (aside e List.mem_cons_self c mem).1
    · cases reads
  · cases reads

theorem tidy_beyondRepair (row : TokenRow) : (beyondRepair row).Tidy := by
  have inside : ∀ c ∈ (beyondRepair row).children, c.Tidy :=
    holds_children_beyondRepair (fun x => (comment_aside x).1) fun first stop => (faultTree_aside row first stop).1
  exact .node inside nofun

end Repair

/-- The tree of every source is tidy. -/
theorem Tree.tidy_ofSource (cs : List Char) : (Tree.ofSource cs).Tidy :=
  holds_ofSource Repair.tidy_of_read Repair.tidy_beyondRepair cs

end EntityAtlas.Java
