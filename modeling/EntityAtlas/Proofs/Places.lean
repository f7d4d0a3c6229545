import EntityAtlas.Decl.Walk
import Mathlib.Data.List.Nodup

/-!
# Places of declarations

A walk gives every declaration a place of its own: the trail of a declaration starts with that of the declaration around
it, and two declarations of one walk never have the same trail. What stands directly inside a find is found as well.
-/

namespace EntityAtlas

namespace Placed

/-- The finds start at the trail of the walk and go on with a number that the walk gives. -/
theorem trail_of_mem_ofItems {file : String} {trail : List Nat} {k : Nat} {items : List Item} {p : Placed}
    (mem : p ∈ ofItems file trail k items) : p.file = file ∧ ∃ i ≥ k, ∃ rest, p.trail = trail ++ i :: rest := by
  induction items using Item.list_induction generalizing trail k with
  | nil => simp at mem
  | field f rest ih => exact ih mem
  | type h is rest ihInside ihAfter =>
    rcases List.mem_cons.mp mem with rfl | mem
    · exact ⟨rfl, k, Nat.le_refl k, [], rfl⟩
    rcases List.mem_append.mp mem with inside | after
    · obtain ⟨isFile, i, -, more, isTrail⟩ := ihInside inside
      exact ⟨isFile, k, Nat.le_refl k, i :: more, by simp [isTrail]⟩
    · obtain ⟨isFile, i, later, more, isTrail⟩ := ihAfter after
      exact ⟨isFile, i, by omega, more, isTrail⟩

/-- The trails of one walk ascend: that of a declaration comes before those that go on from it, and of two declarations
beside each other the first comes before the second and all that is inside it. -/
theorem ascending_trails (file : String) (trail : List Nat) (k : Nat) (items : List Item) :
    ((ofItems file trail k items).map Placed.trail).Pairwise (· < ·) := by
  induction items using Item.list_induction generalizing trail k with
  | nil => simp
  | field f rest ih => exact ih trail k
  | type h is rest ihInside ihAfter =>
    have inside : ∀ t ∈ (ofItems file (trail ++ [k]) 0 is).map Placed.trail, ∃ i rest, t = trail ++ k :: i :: rest := by
      intro t mem
      obtain ⟨p, found, rfl⟩ := List.mem_map.mp mem
      obtain ⟨-, i, -, more, isTrail⟩ := trail_of_mem_ofItems found
      exact ⟨i, more, by simp [isTrail]⟩
    have after : ∀ t ∈ (ofItems file trail (k + 1) rest).map Placed.trail, ∃ i > k, ∃ more, t = trail ++ i :: more := by
      intro t mem
      obtain ⟨p, found, rfl⟩ := List.mem_map.mp mem
      obtain ⟨-, i, later, more, isTrail⟩ := trail_of_mem_ofItems found
      exact ⟨i, by omega, more, isTrail⟩
    have beside {i : Nat} (later : i > k) (more more' : List Nat) : trail ++ k :: more < trail ++ i :: more' :=
      List.append_left_lt (List.cons_lt_cons_iff.mpr (.inl later))
    rw [ofItems_type, List.map_cons, List.map_append, List.pairwise_cons, List.pairwise_append]
    refine ⟨fun t mem => ?_, ihInside _ _, ihAfter _ _, fun t mem t' mem' => ?_⟩
    · rcases List.mem_append.mp mem with mem | mem
      · obtain ⟨i, more, rfl⟩ := inside t mem
        exact List.append_left_lt (List.cons_lt_cons_iff.mpr (.inr ⟨rfl, List.nil_lt_cons i more⟩))
      · obtain ⟨i, later, more, rfl⟩ := after t mem
        exact beside later [] more
    · obtain ⟨i, more, rfl⟩ := inside t mem
      obtain ⟨i', later, more', rfl⟩ := after t' mem'
      exact beside later (i :: more) more'

/-- The trails of one walk are distinct. -/
theorem nodup_trails (file : String) (trail : List Nat) (k : Nat) (items : List Item) :
    ((ofItems file trail k items).map Placed.trail).Nodup := by
  refine (ascending_trails file trail k items).imp ?_
  rintro t t' before rfl
  exact List.lt_irrefl t before

/-- A declaration among members is found at its number. -/
theorem mem_ofItems_of_mem_zipIdx {file : String} {trail : List Nat} {head : Head} {items : List Item} {k : Nat}
    {d : Decl} {i : Nat} (mem : (d, i) ∈ (Decl.nestedTypes ⟨head, items⟩).zipIdx k) :
    (⟨file, trail ++ [i], d⟩ : Placed) ∈ ofItems file trail k items := by
  induction items generalizing k with
  | nil => simp [Decl.nestedTypes] at mem
  | cons item items ih =>
    cases item with
    | field f => exact ih mem
    | type h is =>
      simp only [Decl.nestedTypes, List.filterMap_cons, List.zipIdx_cons, List.mem_cons] at mem
      rcases mem with same | mem
      · obtain ⟨rfl, rfl⟩ := Prod.mk.inj same
        exact List.mem_cons_self
      · exact List.mem_cons_of_mem _ (List.mem_append_right _ (ih mem))

theorem children_subset_ofItems (p : Placed) : ∀ child ∈ p.children, child ∈ ofItems p.file p.trail 0 p.decl.items := by
  intro child mem
  obtain ⟨⟨d, i⟩, numbered, rfl⟩ := List.mem_map.mp mem
  exact mem_ofItems_of_mem_zipIdx numbered

/-- What stands directly inside a find is found by the same walk. -/
theorem mem_ofItems_of_mem_children {file : String} {trail : List Nat} {k : Nat} {items : List Item} {p child : Placed}
    (mem : p ∈ ofItems file trail k items) (inside : child ∈ p.children) : child ∈ ofItems file trail k items := by
  induction items using Item.list_induction generalizing trail k with
  | nil => simp at mem
  | field f rest ih => exact ih mem
  | type h is rest ihInside ihAfter =>
    apply List.mem_cons_of_mem
    rcases List.mem_cons.mp mem with rfl | mem
    · exact List.mem_append_left _ (children_subset_ofItems _ child inside)
    · rcases List.mem_append.mp mem with mem | mem
      · exact List.mem_append_left _ (ihInside mem)
      · exact List.mem_append_right _ (ihAfter mem)

/-- The place of a find tells the place of the find directly around it. -/
theorem place_of_mem_children {p child : Placed} (inside : child ∈ p.children) :
    child.file = p.file ∧ ∃ i, child.trail = p.trail ++ [i] := by
  obtain ⟨⟨d, i⟩, -, rfl⟩ := List.mem_map.mp inside
  exact ⟨rfl, i, rfl⟩

theorem nodup_children (p : Placed) : p.children.Nodup := by
  refine List.Nodup.map_on ?_ ?_
  · rintro ⟨d, i⟩ - ⟨d', i'⟩ - same
    simp only [Placed.mk.injEq, List.append_cancel_left_eq, List.cons.injEq, and_true] at same
    simp [same]
  · exact List.Nodup.of_map Prod.snd (by simpa using List.nodup_range')

end Placed

/-- Every declaration among members, at any depth, is called by a segment of a dotted name. -/
inductive Item.Named : List Item → Prop where
  | nil : Named []
  | field {rest} (f : Field) (others : Named rest) : Named (.field f :: rest)
  | type {h is rest} (segment : Text.IsSegment h.name) (inside : Named is) (others : Named rest) :
    Named (.type h is :: rest)

namespace Item.Named

theorem append {items items' : List Item} (named : Named items) (named' : Named items') : Named (items ++ items') := by
  induction named with
  | nil => exact named'
  | field f others ih => exact .field f ih
  | type segment inside others _ ih => exact .type segment inside ih

theorem fields (fs : List Field) : Named (fs.map .field) := by
  induction fs with
  | nil => exact .nil
  | cons f fs ih => exact .field f ih

theorem single_iff {h : Head} {is : List Item} : Named [.type h is] ↔ Text.IsSegment h.name ∧ Named is := by
  constructor
  · rintro (_ | _ | ⟨segment, inside, _⟩)
    exact ⟨segment, inside⟩
  · rintro ⟨segment, inside⟩
    exact .type segment inside .nil

/-- Without its fields a list of members declares what it declared before. -/
theorem declarations {items : List Item} (named : Named items) (toDecl? : Item → Option Decl)
    (isField : ∀ f, toDecl? (.field f) = none) (isType : ∀ h is, toDecl? (.type h is) = some ⟨h, is⟩) :
    Named ((items.filterMap toDecl?).map Decl.toItem) := by
  induction named with
  | nil => exact .nil
  | field f others ih => simpa [isField] using ih
  | type segment inside others _ ih => simpa [isType, Decl.toItem] using .type segment inside ih

theorem isSegment_of_mem_ofItems {items : List Item} (named : Named items) {file : String} {trail : List Nat} {k : Nat}
    {p : Placed} (mem : p ∈ Placed.ofItems file trail k items) : Text.IsSegment p.decl.name := by
  induction named generalizing trail k with
  | nil => simp at mem
  | field f others ih => exact ih mem
  | type segment inside others ihInside ihOthers =>
    rcases List.mem_cons.mp mem with rfl | mem
    · exact segment
    · rcases List.mem_append.mp mem with mem | mem
      · exact ihInside mem
      · exact ihOthers mem

end Item.Named

end EntityAtlas
