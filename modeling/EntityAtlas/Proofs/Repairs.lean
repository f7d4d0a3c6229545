import EntityAtlas.Java.Repair

/-!
# Trees of repaired sources

Repairs supply tokens and set stretches aside, so what stands before a token are comments and faults, whatever was
repaired. The search tries many repairs and takes a tree that one of them led to, or the source is one fault. So what is
to hold of the tree of every source has to be shown of the trees that reading gives, and of a source beyond repair.
-/

namespace EntityAtlas.Java

variable {P : Tree → Prop}

namespace Repair

variable {row : TokenRow}

theorem holds_comments (comment : ∀ x, P (TokenRow.commentTree x)) (n : Nat) : ∀ t ∈ row.comments n, P t :=
  List.forall_mem_map.mpr fun x _ => comment x

/-- A fault holds comments and tokens. -/
theorem holds_children_faultTree (comment : ∀ x, P (TokenRow.commentTree x)) (symbol : ∀ x, P (.leaf .plain .symbol x))
    (first stop : Nat) : ∀ t ∈ (faultTree row first stop).children, P t := by
  intro t mem
  obtain ⟨n, -, mem⟩ := List.mem_flatMap.mp mem
  rcases List.mem_append.mp mem with mem | mem
  · split at mem
    · cases mem
    · exact holds_comments comment n t mem
  · exact List.mem_singleton.mp mem ▸ symbol _

/-- Before a token stand comments and faults. -/
theorem holds_leading (comment : ∀ x, P (TokenRow.commentTree x)) (fault : ∀ first stop, P (faultTree row first stop))
    (r : Repair) (fuel n : Nat) {leading : List Tree} (isRigid : Bool) (before : ∀ t ∈ leading, P t) :
    ∀ x ∈ r.lexemesFrom row fuel n leading isRigid, ∀ t ∈ x.leading, P t := by
  induction fuel generalizing n leading isRigid with
  | zero => nofun
  | succ fuel ih =>
    have comments : ∀ t ∈ row.comments n, P t := holds_comments comment n
    rw [lexemesFrom]
    split
    · refine ih _ true ?_
      simp only [List.forall_mem_append]
      exact ⟨⟨before, comments⟩, by simpa using fault _ _⟩
    · refine List.forall_mem_append.mpr ⟨List.forall_mem_map.mpr fun _ _ => nofun, ?_⟩
      refine List.forall_mem_cons.mpr ⟨List.forall_mem_append.mpr ⟨before, comments⟩, ?_⟩
      split
      · nofun
      · exact ih (n + 1) false nofun

theorem holds_children_beyondRepair (comment : ∀ x, P (TokenRow.commentTree x))
    (fault : ∀ first stop, P (faultTree row first stop)) : ∀ t ∈ (beyondRepair row).children, P t := by
  refine List.forall_mem_append.mpr ⟨List.forall_mem_append.mpr ⟨holds_comments comment 0, ?_⟩, ?_⟩
  · split
    · nofun
    · simpa using fault 0 row.last
  · split
    · nofun
    · exact holds_comments comment _

namespace Search

variable {α β : Type} {Q : α → Prop} {Q' : β → Prop}

/-- Whatever a search comes to has a property. -/
def Gives (m : Search α) (Q : α → Prop) : Prop :=
  ∀ budget, Q (m budget).1

namespace Gives

theorem pure {a : α} (holds : Q a) : Gives (Pure.pure a) Q :=
  fun _ => holds

theorem bind {m : Search α} {f : α → Search β} (first : Gives m Q) (next : ∀ a, Q a → Gives (f a) Q') :
    Gives (m >>= f) Q' :=
  fun budget => next _ (first budget) _

theorem after {m : Search α} {f : α → Search β} (next : ∀ a, Gives (f a) Q') : Gives (m >>= f) Q' :=
  bind (Q := fun _ => True) (fun _ => trivial) fun a _ => next a

theorem ite {c : Prop} {_ : Decidable c} {m m' : Search α} (yes : Gives m Q) (no : Gives m' Q) :
    Gives (if c then m else m') Q := by
  split
  · exact yes
  · exact no

theorem foldlM {step : β → α → Search β} {as : List α} (each : ∀ b, Q' b → ∀ a ∈ as, Gives (step b a) Q') {b : β}
    (first : Q' b) : Gives (as.foldlM step b) Q' := by
  induction as generalizing b with
  | nil => exact pure first
  | cons a as ih =>
    rw [List.foldlM_cons]
    exact bind (each b first a List.mem_cons_self) fun b' holds =>
      ih (fun b holds a mem => each b holds a (List.mem_cons_of_mem _ mem)) holds

end Gives

end Search

/-- What holds of the tree that a trial reads, if it reads one. -/
def Trial.Holds (P : Tree → Prop) (t : Trial) : Prop :=
  ∀ tree, t.result = .ok tree → P tree

open Search (Gives)

theorem gives_tryOut (read : ∀ r t, Repair.read row r = .ok t → P t) (r : Repair) :
    Gives (tryOut row r) fun o => ∀ t ∈ o, t.Holds P := by
  refine .after fun budget => ?_
  cases budget with
  | zero => exact .pure nofun
  | succ n =>
    refine .after fun _ => .pure fun t mem tree reads => ?_
    cases mem
    exact read r tree reads

theorem gives_firstPassing (read : ∀ r t, Repair.read row r = .ok t → P t) {α : Type} (n : Nat) (make : α → Repair)
    (choices : List α) : Gives (firstPassing row n make choices) fun o => ∀ t ∈ o, t.Holds P := by
  induction choices with
  | nil => exact .pure nofun
  | cons a rest ih =>
    refine .bind (gives_tryOut read _) fun o holds => ?_
    cases o with
    | none => exact .pure nofun
    | some t => exact .ite (.pure holds) ih

theorem gives_gapTrials (read : ∀ r t, Repair.read row r = .ok t → P t) (r : Repair) (reach : Reach) (fuel stop : Nat)
    {found : List Trial} (holds : ∀ t ∈ found, t.Holds P) :
    Gives (gapTrials row r reach fuel stop found) fun ts => ∀ t ∈ ts, t.Holds P := by
  induction fuel generalizing stop found with
  | zero => exact .pure holds
  | succ fuel ih =>
    have goesOn {more : List Trial} (holds : ∀ t ∈ more, t.Holds P) (next : Nat) :
        Gives (do
          let found ← pure more
          if row.last ≤ stop then return found
          if found.any fun t => t.repair.cost < next && t.passes stop then return found
          gapTrials row r reach fuel (stop + 1) found) fun ts => ∀ t ∈ ts, t.Holds P :=
      .bind (.pure holds) fun ts holds => .ite (.pure holds) (.ite (.pure holds) (ih _ holds))
    rw [gapTrials]
    refine .ite (goesOn holds _) (.bind (gives_firstPassing read _ _ _) fun o passing => ?_)
    cases o with
    | none => exact goesOn holds _
    | some t => exact goesOn (List.forall_mem_append.mpr ⟨holds, by simpa using passing⟩) _

theorem gives_trials (read : ∀ r t, Repair.read row r = .ok t → P t) (r : Repair) (reach : Reach) :
    Gives (trials row r reach) fun ts => ∀ t ∈ ts, t.Holds P := by
  refine .bind (gives_firstPassing read _ _ _) fun o supplied => .bind (gives_gapTrials read _ _ _ _ nofun) ?_
  exact fun gaps holds => .pure (List.forall_mem_append.mpr ⟨by simpa using supplied, holds⟩)

theorem cheaper_eq (a b : Option Readable) : cheaper a b = a ∨ cheaper a b = b := by
  cases a with
  | none => exact .inr rfl
  | some x =>
    cases b with
    | none => exact .inl rfl
    | some y =>
      rw [cheaper]
      split
      · exact .inl rfl
      · exact .inr rfl

theorem gives_cheapest (read : ∀ r t, Repair.read row r = .ok t → P t) (more : Nat) {t : Trial} (holds : t.Holds P) :
    Gives (cheapest row more t) fun o => ∀ x ∈ o, P x.1 := by
  induction more generalizing t with
  | zero =>
    unfold cheapest
    split
    · rename_i tree reads
      exact .pure (by simpa using holds tree reads)
    · exact .pure nofun
  | succ more ih =>
    unfold cheapest
    split
    · rename_i tree reads
      exact .pure (by simpa using holds tree reads)
    · refine .bind (gives_trials read _ _) fun ts trials => .foldlM (fun best known t mem => ?_) nofun
      refine .ite (.pure known) (.bind (ih (trials t mem)) fun o found => .pure fun x chosen => ?_)
      rcases cheaper_eq best o with same | same
      · exact known x (same ▸ chosen)
      · exact found x (same ▸ chosen)

end Repair

/-- What holds of the trees that reading gives and of sources beyond repair holds of the tree of every source. -/
theorem Tree.holds_ofSource (read : ∀ row r t, Repair.read row r = .ok t → P t)
    (beyond : ∀ row, P (Repair.beyondRepair row)) (cs : List Char) : P (Tree.ofSource cs) := by
  unfold Tree.ofSource
  dsimp only
  split
  · rename_i tree reads
    exact read _ _ _ reads
  · rename_i reach failed
    have searched := Repair.gives_cheapest (read (TokenRow.ofSource cs)) Repair.maxRepairs
      (t := ⟨.empty, .error reach⟩) nofun (Repair.maxReadings (TokenRow.ofSource cs))
    split
    · rename_i tree cost found
      exact searched _ found
    · exact beyond _

end EntityAtlas.Java
