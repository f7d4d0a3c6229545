import EntityAtlas.Path
import EntityAtlas.Proofs.DottedNames

/-!
# Texts of paths

A path that has components can be told from its text. Putting a slash and a name after the text of any path
adds the name to the components of the path that the text denotes.
-/

namespace EntityAtlas.Path

theorem toList_slash : "/".toList = ['/'] := rfl

/-- The leading slashes of a written path tell its anchor. -/
theorem anchorOf_eq (cs : List Char) :
    anchorOf cs = match (cs.takeWhile (· == '/')).length with
      | 0 => .here
      | 1 => .root
      | 2 => .doubleRoot
      | _ => .root := by
  match cs with
  | [] => rfl
  | a :: cs =>
    by_cases isA : a = '/'
    · subst isA
      match cs with
      | [] => rfl
      | b :: cs =>
        by_cases isB : b = '/'
        · subst isB
          match cs with
          | [] => rfl
          | c :: cs =>
            by_cases isC : c = '/'
            · subst isC
              simp [anchorOf]
            · simp [anchorOf, isC]
        · simp [anchorOf, isB]
    · simp [anchorOf, isA]

/-- What follows a character that is no slash does not bear on the anchor. -/
theorem anchorOf_append (cs : List Char) {c : Char} (other : c ≠ '/') (rest : List Char) :
    anchorOf (cs ++ c :: rest) = anchorOf cs := by
  have same : (cs ++ c :: rest).takeWhile (· == '/') = cs.takeWhile (· == '/') := by
    induction cs with
    | nil => simp [other]
    | cons d cs ih =>
      by_cases slash : d = '/'
      · simp [slash, ih]
      · simp [slash]
  rw [anchorOf_eq, anchorOf_eq, same]

theorem IsPart.exists_cons {part : String} (is : IsPart part) : ∃ c cs, part.toList = c :: cs ∧ c ≠ '/' := by
  cases chars : part.toList with
  | nil =>
    have empty : part = "" := String.toList_injective (by simpa using chars)
    simp [IsPart, isProper, empty] at is
  | cons c cs =>
    refine ⟨c, cs, rfl, ?_⟩
    rintro rfl
    exact is.2 (by simp [chars])

theorem parts_ofParts (anchor : Anchor) {parts : List String} (areParts : ∀ part ∈ parts, IsPart part) :
    (ofParts anchor parts).parts = parts :=
  List.filter_eq_self.mpr fun part mem => decide_eq_true (areParts part mem)

@[simp] theorem ofParts_parts (p : Path) : ofParts p.anchor p.parts = p :=
  Path.ext rfl (parts_ofParts p.anchor p.clean)

theorem dot_not_mem_parts (p : Path) : "." ∉ p.parts :=
  fun mem => absurd (p.clean _ mem).1 (by decide)

theorem parts_ofString (s : String) : (ofString s).parts = (Text.pieces '/' s).filter isProper :=
  List.filter_congr fun part mem => by simp [IsPart, Text.not_mem_of_mem_pieces mem]

/-- The slashes that an anchor is written with. -/
def slashes : Anchor → String
  | .here => ""
  | .root => "/"
  | .doubleRoot => "//"

theorem anchorOf_slashes (a : Anchor) {c : Char} (other : c ≠ '/') (cs : List Char) :
    anchorOf ((slashes a).toList ++ c :: cs) = a := by
  rw [anchorOf_append _ other]
  cases a <;> rfl

theorem pieces_slashes (a : Anchor) (s : String) :
    Text.pieces '/' (slashes a ++ s) = List.replicate (slashes a).length "" ++ Text.pieces '/' s := by
  have slash (s : String) : Text.pieces '/' ("/" ++ s) = "" :: Text.pieces '/' s := by
    rw [show "/" ++ s = "" ++ "/" ++ s by simp, Text.pieces_append toList_slash]
    rfl
  cases a with
  | here => simp [slashes]
  | root => exact slash s
  | doubleRoot =>
    rw [slashes, show "//" ++ s = "/" ++ ("/" ++ s) by rw [← String.append_assoc]; rfl, slash, slash]
    rfl

theorem text_eq {p : Path} (nonempty : p.parts ≠ []) : p.text = slashes p.anchor ++ "/".intercalate p.parts := by
  obtain ⟨anchor, parts⟩ := p
  cases parts with
  | nil => exact absurd rfl nonempty
  | cons part parts => cases anchor <;> simp [text, slashes]

theorem slashless_parts (p : Path) : ∀ part ∈ p.parts, '/' ∉ part.toList :=
  fun part mem => (p.clean part mem).2

theorem pieces_text {p : Path} (nonempty : p.parts ≠ []) :
    (Text.pieces '/' p.text).filter isProper = p.parts := by
  have empty : (List.replicate (slashes p.anchor).length "").filter isProper = [] :=
    List.filter_eq_nil_iff.mpr fun part mem => by simp [(List.mem_replicate.mp mem).2, isProper]
  rw [text_eq nonempty, pieces_slashes, Text.pieces_intercalate toList_slash nonempty p.slashless_parts,
    List.filter_append, empty, List.nil_append, List.filter_eq_self.mpr fun part mem => (p.clean part mem).1]

theorem exists_text {p : Path} (nonempty : p.parts ≠ []) :
    ∃ c cs, c ≠ '/' ∧ p.text.toList = (slashes p.anchor).toList ++ c :: cs := by
  cases parts : p.parts with
  | nil => exact absurd parts nonempty
  | cons part more =>
    obtain ⟨c, cs, chars, other⟩ := (p.clean part (by simp [parts])).exists_cons
    rw [text_eq nonempty, parts]
    cases more with
    | nil => exact ⟨c, cs, other, by simp [chars]⟩
    | cons next more => exact ⟨c, _, other, by simp [String.intercalate_cons_cons, chars]; rfl⟩

/-- The text of a path that has components denotes the path. -/
theorem ofString_text {p : Path} (nonempty : p.parts ≠ []) : ofString p.text = p := by
  obtain ⟨c, cs, other, chars⟩ := exists_text nonempty
  refine Path.ext ?_ ((parts_ofString p.text).trans (pieces_text nonempty))
  change anchorOf p.text.toList = p.anchor
  rw [chars, anchorOf_slashes _ other]

theorem not_endsWith_slash {p : Path} (nonempty : p.parts ≠ []) :
    Text.endsWith p.text "/" = false := by
  cases ends : Text.endsWith p.text "/" with
  | false => rfl
  | true =>
    obtain ⟨head, is⟩ := Text.eq_append_of_endsWith ends
    have last : Text.lastPiece '/' p.text = "" := by
      rw [is, show head ++ "/" = head ++ "/" ++ "" by simp, Text.lastPiece_append toList_slash]
      rfl
    have part : Text.lastPiece '/' p.text = p.parts.getLast nonempty := by
      rw [Text.lastPiece, text_eq nonempty, pieces_slashes,
        Text.pieces_intercalate toList_slash nonempty p.slashless_parts, List.getLast?_append,
        List.getLast?_eq_some_getLast nonempty]
      rfl
    have proper := (p.clean _ (List.getLast_mem nonempty)).1
    simp [← part, last, isProper] at proper

/-- A path further down, by the names on the way; what names nothing is dropped. -/
def below (p : Path) (names : List String) : Path :=
  .ofParts p.anchor (p.parts ++ names)

@[simp] theorem anchor_below (p : Path) (names : List String) : (p.below names).anchor = p.anchor := rfl

theorem parts_below (p : Path) (names : List String) : (p.below names).parts = p.parts ++ names.filter IsPart := by
  have kept : p.parts.filter IsPart = p.parts := parts_ofParts p.anchor p.clean
  change (p.parts ++ names).filter IsPart = _
  rw [List.filter_append, kept]

theorem parts_below_of_areParts (p : Path) {names : List String} (areParts : ∀ name ∈ names, IsPart name) :
    (p.below names).parts = p.parts ++ names :=
  parts_ofParts p.anchor (List.forall_mem_append.mpr ⟨p.clean, areParts⟩)

@[simp] theorem below_nil (p : Path) : p.below [] = p :=
  Path.ext rfl (by simp [parts_below])

theorem below_append (p : Path) (names more : List String) : p.below (names ++ more) = (p.below names).below more :=
  Path.ext rfl (by simp [parts_below])

theorem below_inj {p : Path} {names names' : List String} (areParts : ∀ name ∈ names, IsPart name)
    (areParts' : ∀ name ∈ names', IsPart name) (same : p.below names = p.below names') : names = names' := by
  have parts := congrArg Path.parts same
  rw [parts_below_of_areParts p areParts, parts_below_of_areParts p areParts'] at parts
  exact List.append_cancel_left parts

/-- A path lies within another one when it is the other one or stands below it. -/
theorem isWithin_iff {base p : Path} : base.isWithin p = true ↔ ∃ names, p = base.below names := by
  simp only [isWithin, Bool.and_eq_true, beq_iff_eq, List.isPrefixOf_iff_prefix]
  constructor
  · rintro ⟨anchor, names, parts⟩
    refine ⟨names, Path.ext anchor ?_⟩
    rw [below, anchor.symm, parts, ofParts_parts]
  · rintro ⟨names, rfl⟩
    exact ⟨rfl, parts_below base names ▸ List.prefix_append _ _⟩

theorem isWithin_refl (p : Path) : p.isWithin p = true :=
  isWithin_iff.mpr ⟨[], (below_nil p).symm⟩

theorem isWithin_trans {p q r : Path} (first : p.isWithin q = true) (second : q.isWithin r = true) :
    p.isWithin r = true := by
  obtain ⟨names, rfl⟩ := isWithin_iff.mp first
  obtain ⟨more, rfl⟩ := isWithin_iff.mp second
  exact isWithin_iff.mpr ⟨names ++ more, (below_append p names more).symm⟩

theorem isWithin_parent (p : Path) : p.parent.isWithin p = true := by
  simp [isWithin, parent, List.isPrefixOf_iff_prefix, List.dropLast_prefix]

end EntityAtlas.Path
