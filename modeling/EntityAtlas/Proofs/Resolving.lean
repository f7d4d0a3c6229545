import EntityAtlas.Store.Resolve

/-!
# Following paths

Where a path leads, as a relation: one way to go on for each kind of component and of what is there. It holds just where
following the path succeeds, so whatever is said of places is shown by induction on the way to them.
-/

namespace EntityAtlas.Store

/-- A component that names an entry and is not too long for one. -/
structure IsPlain (name : String) : Prop where
  up : name ≠ ".."
  stay : name ≠ "."
  short : name.utf8ByteSize ≤ maxName

/-- Components lead from the directory at `here` to a place, over fewer links than `links`. -/
inductive Leads (root : Entry) : (links : Nat) → (parts here : List String) → Place → Prop where
  | arrive {links : Nat} {here : List String} : Leads root (links + 1) [] here (.present here)
  | up {links : Nat} {rest here : List String} {place : Place}
    (onward : Leads root (links + 1) rest here.dropLast place) : Leads root (links + 1) (".." :: rest) here place
  | stay {links : Nat} {rest here : List String} {place : Place} (onward : Leads root (links + 1) rest here place) :
    Leads root (links + 1) ("." :: rest) here place
  | down {links : Nat} {name : String} {rest here : List String} {place : Place} {es : List (String × Entry)}
    (plain : IsPlain name) (there : root.at? (here ++ [name]) = some (.dir es))
    (onward : Leads root (links + 1) rest (here ++ [name]) place) : Leads root (links + 1) (name :: rest) here place
  | file {links : Nat} {name : String} {here : List String} {content : List UInt8} (plain : IsPlain name)
    (there : root.at? (here ++ [name]) = some (.file content)) :
    Leads root (links + 1) [name] here (.present (here ++ [name]))
  | free {links : Nat} {name : String} {here : List String} (plain : IsPlain name)
    (there : root.at? (here ++ [name]) = none) : Leads root (links + 1) [name] here (.absent here name)
  | link {links : Nat} {name target : String} {rest here : List String} {place : Place} (plain : IsPlain name)
    (there : root.at? (here ++ [name]) = some (.link target))
    (onward : Leads root links (targetParts target ++ rest) (if Text.startsWith target "/" then [] else here) place) :
    Leads root (links + 1) (name :: rest) here place

variable {root : Entry} {place : Place}

theorem leads_of_advance {links : Nat} {parts here : List String}
    (onward : ∀ parts here, locateFrom root links parts here = .ok place → Leads root links parts here place)
    (found : advance root (locateFrom root links) parts here = .ok place) :
    Leads root (links + 1) parts here place := by
  induction parts generalizing here with
  | nil =>
    obtain rfl := Except.ok.inj found
    exact .arrive
  | cons name rest ih =>
    by_cases up : name = ".."
    · subst up
      exact .up (ih found)
    by_cases stay : name = "."
    · subst stay
      exact .stay (ih found)
    rw [advance, if_neg (by simpa using up), if_neg (by simpa using stay)] at found
    split at found
    · cases found
    rename_i short
    have plain : IsPlain name := ⟨up, stay, Nat.not_lt.mp short⟩
    split at found
    · rename_i there
      cases rest with
      | nil =>
        obtain rfl := Except.ok.inj found
        exact .free plain there
      | cons next rest => cases found
    · rename_i there
      exact .down plain there (ih found)
    · rename_i there
      cases rest with
      | nil =>
        obtain rfl := Except.ok.inj found
        exact .file plain there
      | cons next rest => cases found
    · rename_i there
      exact .link plain there (onward _ _ found)

/-- Following a path succeeds just where the path leads. -/
theorem locateFrom_eq_ok_iff {links : Nat} {parts here : List String} :
    locateFrom root links parts here = .ok place ↔ Leads root links parts here place := by
  constructor
  · intro found
    induction links generalizing parts here with
    | zero => cases found
    | succ links ih => exact leads_of_advance (fun _ _ found => ih found) found
  · intro leads
    induction leads with
    | arrive => rfl
    | up _ ih => exact ih
    | stay _ ih => exact ih
    | down plain there _ ih =>
      rw [locateFrom] at ih ⊢
      simpa [advance, plain.up, plain.stay, Nat.not_lt.mpr plain.short, there] using ih
    | file plain there => simp [locateFrom, advance, plain.up, plain.stay, Nat.not_lt.mpr plain.short, there]
    | free plain there => simp [locateFrom, advance, plain.up, plain.stay, Nat.not_lt.mpr plain.short, there]
    | link plain there _ ih =>
      simpa [locateFrom, advance, plain.up, plain.stay, Nat.not_lt.mpr plain.short, there] using ih

end EntityAtlas.Store
