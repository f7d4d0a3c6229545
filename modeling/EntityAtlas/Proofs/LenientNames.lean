import EntityAtlas.Java.Source
import EntityAtlas.Proofs.Places

/-!
# Names of leniently read declarations

A tidy tree stands for declarations that are called by segments, at any depth. All trees of a lenient parser are tidy.
-/

namespace EntityAtlas.Java

namespace Tree

mutual

/-- A tidy tree has members that are called by segments. -/
theorem named_members (setting : Setting) (enclosing : List String) :
    ∀ t : Tree, t.Tidy → Item.Named (members setting enclosing t).1
  | .leaf .., _ => .nil
  | .node r k f cs, tidy => by
    simp only [members]
    split
    · exact .fields _
    split
    · rename_i kind n declared found
      split
      · exact .nil
      cases tidy with
      | node inside names =>
        have mem := List.mem_of_find?_eq_some found
        have role : n.role = .name := by simpa using List.find?_some found
        exact .type (names (by simp [declares, declared]) n mem role)
          (named_bodyMembers setting _ cs inside) .nil
    · exact .nil

theorem named_bodyMembers (setting : Setting) (enclosing : List String) :
    ∀ ts : List Tree, (∀ t ∈ ts, t.Tidy) → Item.Named (bodyMembers setting enclosing ts).1
  | [], _ => .nil
  | t :: ts, tidy => by
    unfold bodyMembers
    split
    · exact .nil
    · rename_i same
      cases same
      exact named_partMembers setting enclosing _ (tidy _ List.mem_cons_self).inside
    · rename_i same
      cases same
      exact named_bodyMembers setting enclosing ts fun u mem => tidy u (List.mem_cons_of_mem _ mem)

theorem named_partMembers (setting : Setting) (enclosing : List String) :
    ∀ ts : List Tree, (∀ t ∈ ts, t.Tidy) → Item.Named (partMembers setting enclosing ts).1
  | [], _ => .nil
  | t :: ts, tidy => by
    have rest := named_partMembers setting enclosing ts fun u mem => tidy u (List.mem_cons_of_mem _ mem)
    unfold partMembers
    split
    · exact .nil
    · rename_i same
      cases same
      exact (named_allMembers setting enclosing _ (tidy _ List.mem_cons_self).inside).append rest
    · rename_i same
      cases same
      exact (named_members setting enclosing t (tidy t List.mem_cons_self)).append rest

theorem named_allMembers (setting : Setting) (enclosing : List String) :
    ∀ ts : List Tree, (∀ t ∈ ts, t.Tidy) → Item.Named (allMembers setting enclosing ts).1
  | [], _ => .nil
  | t :: ts, tidy =>
    (named_members setting enclosing t (tidy t List.mem_cons_self)).append
      (named_allMembers setting enclosing ts fun u mem => tidy u (List.mem_cons_of_mem _ mem))

end

end Tree

/-- Every declaration that a tidy tree stands for is called by a segment. -/
theorem Outline.isSegment_of_mem_walk {records : Bool} {sourceFile : Option String} {root : Tree} (tidy : root.Tidy)
    {file : String} {p : Placed} (mem : p ∈ (ofTree records sourceFile root).unit.walk file) :
    Text.IsSegment p.decl.name :=
  Item.Named.isSegment_of_mem_ofItems
    ((Tree.named_allMembers _ _ _ fun t mem => tidy.children t (List.mem_filter.mp mem).1).declarations _
      (fun _ => rfl) (fun _ _ => rfl)) mem

end EntityAtlas.Java
