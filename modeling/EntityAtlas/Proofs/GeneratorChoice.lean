import EntityAtlas.Generate.Registry
import Mathlib.Data.List.Nodup
import Mathlib.Data.String.Basic

/-!
# The choice of a generator

Generators are registered one by one, and a name that is there already is refused. So a list of generators is accepted
just where no two have the same name, and the generator of a name is then told by the name alone. Messages list the
names in their order, so that no answer depends on the order in which generators were registered.
-/

namespace EntityAtlas.Generate.Registry

theorem value_register_cons (registered : List Maker) (m : Maker) (ms : List Maker) :
    (register registered (m :: ms)).value = if m.name ∈ registered.map (·.name) then .error (.duplicate m.name)
      else (register (registered ++ [m]) ms).value := by
  rw [register, Logged.value_bind]
  by_cases there : m.name ∈ registered.map (·.name)
  · have found : registered.any (·.name == m.name) = true := by simpa using there
    rw [if_pos there, if_pos found, Logged.value_pure]
  · have lacking : ¬ registered.any (·.name == m.name) = true := by simpa using there
    rw [if_neg there, if_neg lacking]

/-- Generators are accepted, all and in their order, if no name is given twice. -/
theorem value_register_of_nodup (registered ms : List Maker) (distinct : ((registered ++ ms).map (·.name)).Nodup) :
    (register registered ms).value = .ok (registered ++ ms) := by
  induction ms generalizing registered with
  | nil => simp [register]
  | cons m ms ih =>
    have new : m.name ∉ registered.map (·.name) := by
      rw [List.map_append, List.nodup_append] at distinct
      exact fun there => distinct.2.2 _ there _ (by simp) rfl
    have next := ih (registered ++ [m]) (by simpa using distinct)
    rw [value_register_cons, if_neg new, next]
    simp

/-- Generators are refused if a name is given twice; the failure tells such a name. -/
theorem value_register_of_not_nodup (registered ms : List Maker) (distinct : (registered.map (·.name)).Nodup)
    (twice : ¬ ((registered ++ ms).map (·.name)).Nodup) :
    ∃ name, (register registered ms).value = .error (.duplicate name) ∧
      2 ≤ ((registered ++ ms).map (·.name)).count name := by
  induction ms generalizing registered with
  | nil => exact absurd (by simpa using distinct) twice
  | cons m ms ih =>
    rw [value_register_cons]
    by_cases there : m.name ∈ registered.map (·.name)
    · refine ⟨m.name, if_pos there, ?_⟩
      have first : 1 ≤ (registered.map (·.name)).count m.name := List.one_le_count_iff.mpr there
      simp only [List.map_append, List.map_cons, List.count_append, List.count_cons_self]
      omega
    · rw [if_neg there]
      have longer : ((registered ++ [m]).map (·.name)).Nodup := by
        simpa [List.nodup_append, distinct] using there
      simpa using ih _ longer (by simpa using twice)

/-- The names of generators are listed alike in whatever order the generators come. -/
theorem names_perm {makers makers' : List Maker} (perm : makers'.Perm makers) : names makers' = names makers := by
  have sorted (ms : List Maker) : (names ms).Pairwise (· ≤ ·) := by
    simpa [names] using @List.pairwise_mergeSort String (fun a b => decide (a ≤ b))
      (fun a b c => by simpa using le_trans) (fun a b => by simpa using le_total a b) (ms.map (·.name))
  have listed (ms : List Maker) : (names ms).Perm (ms.map (·.name)) := List.mergeSort_perm _ _
  have same : (names makers').Perm (names makers) :=
    ((listed makers').trans (perm.map (·.name))).trans (listed makers).symm
  exact same.eq_of_pairwise (fun _ _ _ _ => le_antisymm) (sorted makers') (sorted makers)

/-- Among generators of distinct names the first one with a name is the only one. -/
theorem find?_eq_some_iff {makers : List Maker} (distinct : (makers.map (·.name)).Nodup) (name : String) (m : Maker) :
    makers.find? (·.name == name) = some m ↔ m ∈ makers ∧ m.name = name := by
  constructor
  · intro found
    exact ⟨List.mem_of_find?_eq_some found, by simpa using List.find?_some found⟩
  · rintro ⟨mem, rfl⟩
    obtain ⟨first, found⟩ : ∃ first, makers.find? (·.name == m.name) = some first :=
      Option.isSome_iff_exists.mp (List.find?_isSome.mpr ⟨m, mem, beq_self_eq_true _⟩)
    have named : first.name = m.name := by simpa using List.find?_some found
    rw [found, List.inj_on_of_nodup_map distinct (List.mem_of_find?_eq_some found) mem named]

theorem find?_perm {makers makers' : List Maker} (distinct : (makers.map (·.name)).Nodup) (perm : makers'.Perm makers)
    (name : String) : makers'.find? (·.name == name) = makers.find? (·.name == name) := by
  have distinct' : (makers'.map (·.name)).Nodup := (perm.map (·.name)).nodup_iff.mpr distinct
  refine Option.ext fun m => ?_
  rw [find?_eq_some_iff distinct', find?_eq_some_iff distinct, perm.mem_iff]

theorem isBlank_iff (selected : Option String) : isBlank selected = true ↔ ∀ s ∈ selected, Text.strip s = "" := by
  cases selected <;> simp [isBlank]

/-- Without a name the only generator is chosen. -/
theorem choose_of_blank {selected : Option String} (blank : isBlank selected = true) (makers : List Maker) :
    choose makers selected = match makers with
      | [] => .error .noneRegistered
      | [m] => .ok m
      | _ :: _ :: _ => .error (.ambiguous (names makers)) := by
  match makers with
  | [] => rfl
  | [m] => simp [choose, blank]
  | m :: m' :: ms => simp [choose, blank]

/-- With a name the generator of that name is chosen. -/
theorem choose_of_named {s : String} (named : Text.strip s ≠ "") {makers : List Maker} (nonempty : makers ≠ []) :
    choose makers (some s) = match makers.find? (·.name == Text.strip s) with
      | some m => .ok m
      | none => .error (.unknown s (names makers)) := by
  have given : isBlank (some s) = false := by simpa [isBlank] using named
  cases makers with
  | nil => exact absurd rfl nonempty
  | cons m ms =>
    cases found : (m :: ms).find? (·.name == Text.strip s) with
    | none => simp [choose, given, found]
    | some chosen => simp [choose, given, found]

/-- A selection either gives a name or none. -/
theorem isBlank_or_named (selected : Option String) :
    isBlank selected = true ∨ ∃ s, selected = some s ∧ Text.strip s ≠ "" := by
  cases selected with
  | none => exact .inl rfl
  | some s =>
    by_cases blank : Text.strip s = ""
    · exact .inl (by simp [isBlank, blank])
    · exact .inr ⟨s, rfl, blank⟩

/-- What is chosen, or why nothing is, does not depend on the order of the generators. -/
theorem choose_perm {makers makers' : List Maker} (distinct : (makers.map (·.name)).Nodup)
    (perm : makers'.Perm makers) (selected : Option String) : choose makers' selected = choose makers selected := by
  match makers, makers', perm with
  | [], _, perm => rw [perm.eq_nil]
  | [m], _, perm => rw [List.perm_singleton.mp perm]
  | _ :: _ :: _, [], perm => simp at perm
  | _ :: _ :: _, [_], perm => simp at perm
  | a :: b :: ms, a' :: b' :: ms', perm =>
    rcases isBlank_or_named selected with blank | ⟨s, rfl, named⟩
    · rw [choose_of_blank blank, choose_of_blank blank, names_perm perm]
    · rw [choose_of_named named (by simp), choose_of_named named (by simp), find?_perm distinct perm,
        names_perm perm]

/-- A generator is chosen because it has the name that is given, or because it is the only one and no name is given. -/
theorem choose_eq_ok_iff {makers : List Maker} (distinct : (makers.map (·.name)).Nodup) (selected : Option String)
    (m : Maker) :
    choose makers selected = .ok m ↔
      (∃ s ∈ selected, Text.strip s ≠ "" ∧ m.name = Text.strip s) ∧ m ∈ makers ∨
        (∀ s ∈ selected, Text.strip s = "") ∧ makers = [m] := by
  rcases isBlank_or_named selected with blank | ⟨s, rfl, named⟩
  · have empty := (isBlank_iff selected).mp blank
    have unnamed : ¬ ∃ s ∈ selected, Text.strip s ≠ "" ∧ m.name = Text.strip s :=
      fun ⟨s, given, named, _⟩ => named (empty s given)
    rw [choose_of_blank blank, and_iff_right empty, or_iff_right fun given => unnamed given.1]
    match makers with
    | [] => simp
    | [m'] => simp
    | _ :: _ :: _ => simp
  · have given : (∃ s' ∈ some s, Text.strip s' ≠ "" ∧ m.name = Text.strip s') ↔ m.name = Text.strip s := by
      simp [named]
    have notBlank : ¬ ∀ s' ∈ some s, Text.strip s' = "" := by simpa using named
    rw [given, or_iff_left fun blank => notBlank blank.1]
    by_cases empty : makers = []
    · simp [empty, choose]
    rw [choose_of_named named empty, and_comm, ← find?_eq_some_iff distinct]
    cases makers.find? (·.name == Text.strip s) <;> simp

/-- Nothing is chosen if no generator has the name that is given, or if no name is given and there is not just one. -/
theorem exists_choose_eq_error_iff (makers : List Maker) (selected : Option String) :
    (∃ e, choose makers selected = .error e) ↔
      (∃ s ∈ selected, Text.strip s ≠ "" ∧ Text.strip s ∉ makers.map (·.name)) ∨
        (∀ s ∈ selected, Text.strip s = "") ∧ makers.length ≠ 1 := by
  rcases isBlank_or_named selected with blank | ⟨s, rfl, named⟩
  · have empty := (isBlank_iff selected).mp blank
    have unnamed : ¬ ∃ s ∈ selected, Text.strip s ≠ "" ∧ Text.strip s ∉ makers.map (·.name) :=
      fun ⟨s, given, named, _⟩ => named (empty s given)
    rw [choose_of_blank blank, and_iff_right empty, or_iff_right unnamed]
    match makers with
    | [] => simp
    | [m] => simp
    | _ :: _ :: _ => simp
  · have lacking : makers.find? (·.name == Text.strip s) = none ↔ Text.strip s ∉ makers.map (·.name) := by
      simp [List.find?_eq_none]
    have given : ((∃ s' ∈ some s, Text.strip s' ≠ "" ∧ Text.strip s' ∉ makers.map (·.name)) ∨
        (∀ s' ∈ some s, Text.strip s' = "") ∧ makers.length ≠ 1) ↔ Text.strip s ∉ makers.map (·.name) := by
      simp [named]
    rw [given]
    by_cases empty : makers = []
    · simp [empty, choose]
    rw [choose_of_named named empty, ← lacking]
    cases makers.find? (·.name == Text.strip s) <;> simp

/-- A list of generators is refused just where two of them have one name, and such a name is told. If none have, what is
chosen, or why nothing is, does not depend on their order: the generator of the name that is given, without blanks at
its ends, or the only one if no name is given. In all other cases nothing is chosen. -/
theorem choice_of_perm (makers : List Maker) (selected : Option String) :
    ((∃ e, (register [] makers).value = .error e) ↔ ¬ (makers.map (·.name)).Nodup) ∧
      (∀ e, (register [] makers).value = .error e →
        ∃ name, e = .duplicate name ∧ 2 ≤ (makers.map (·.name)).count name) ∧
      ((makers.map (·.name)).Nodup →
        (∀ makers', makers'.Perm makers →
          (register [] makers').value = .ok makers' ∧ choose makers' selected = choose makers selected) ∧
        (∀ m, choose makers selected = .ok m ↔
          (∃ s ∈ selected, Text.strip s ≠ "" ∧ m.name = Text.strip s) ∧ m ∈ makers ∨
            (∀ s ∈ selected, Text.strip s = "") ∧ makers = [m]) ∧
        ((∃ e, choose makers selected = .error e) ↔
          (∃ s ∈ selected, Text.strip s ≠ "" ∧ Text.strip s ∉ makers.map (·.name)) ∨
            (∀ s ∈ selected, Text.strip s = "") ∧ makers.length ≠ 1)) := by
  have accepted (distinct : (makers.map (·.name)).Nodup) : (register [] makers).value = .ok makers :=
    value_register_of_nodup [] makers distinct
  have refused (twice : ¬ (makers.map (·.name)).Nodup) :=
    value_register_of_not_nodup [] makers List.nodup_nil twice
  refine ⟨⟨?_, fun twice => ?_⟩, fun e failed => ?_, fun distinct => ⟨fun makers' perm => ?_, ?_, ?_⟩⟩
  · rintro ⟨e, failed⟩ distinct
    cases (accepted distinct).symm.trans failed
  · obtain ⟨name, failed, -⟩ := refused twice
    exact ⟨_, failed⟩
  · by_cases distinct : (makers.map (·.name)).Nodup
    · cases (accepted distinct).symm.trans failed
    · obtain ⟨name, failed', twice⟩ := refused distinct
      exact ⟨name, Except.error.inj (failed.symm.trans failed'), twice⟩
  · have distinct' : (makers'.map (·.name)).Nodup := (perm.map (·.name)).nodup_iff.mpr distinct
    exact ⟨value_register_of_nodup [] makers' distinct', choose_perm distinct perm selected⟩
  · exact choose_eq_ok_iff distinct selected
  · exact exists_choose_eq_error_iff makers selected

theorem choice_of_perm_swapped :
    let makers : List Maker := [⟨"r2dbc", "First"⟩, ⟨"jpa", "Second"⟩]
    (makers.map (·.name)).Nodup ∧ makers.reverse.Perm makers ∧
      choose makers.reverse (some " jpa\t") = .ok ⟨"jpa", "Second"⟩ ∧
      choose makers.reverse (some " ") = .error (.ambiguous ["jpa", "r2dbc"]) ∧
      ∃ name, (register [] (makers ++ makers)).value = .error (.duplicate name) := by
  intro makers
  have distinct : (makers.map (·.name)).Nodup := by decide
  have perm : makers.reverse.Perm makers := makers.reverse_perm
  obtain ⟨-, -, settled⟩ := choice_of_perm makers (some " jpa\t")
  obtain ⟨alike, chosen, -⟩ := settled distinct
  obtain ⟨-, -, settled'⟩ := choice_of_perm makers (some " ")
  obtain ⟨alike', -⟩ := settled' distinct
  obtain ⟨refused, told, -⟩ := choice_of_perm (makers ++ makers) none
  refine ⟨distinct, perm, ?_, ?_, ?_⟩
  · rw [(alike _ perm).2, chosen]
    exact .inl ⟨⟨_, rfl, by decide +kernel⟩, by decide⟩
  · have listed : names makers.reverse = ["jpa", "r2dbc"] := List.mergeSort_of_pairwise (by decide +kernel)
    rw [(alike' _ perm).2, choose_of_blank (by decide +kernel), ← names_perm perm, listed]
  · obtain ⟨e, failed⟩ := refused.mpr (by decide)
    obtain ⟨name, rfl, -⟩ := told e failed
    exact ⟨name, failed⟩

end EntityAtlas.Generate.Registry
