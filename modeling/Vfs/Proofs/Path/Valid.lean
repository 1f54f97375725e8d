import Mathlib.Logic.Function.Iterate
import Vfs.Proofs.Path.Clean

/-!
# Names are normal paths

A name is checked element by element, and cleaned by a stack of elements; `isValid_iff_clean` says that both mean the
same paths. What is left on the stack climbs at its front if it climbs at all (`Reduced.names_or_climbs`), so a clean
path that neither starts at the root nor climbs is a row of names. Going up from a name takes its elements away one by
one (`iterate_parent`).
-/

namespace Vfs.Path
set_option autoImplicit false

variable {r : Bool} {es : List Text} {name p : Text}

theorem Names.not_mem_above (names : Names es) : above ∉ es :=
  fun member => (isChildName_iff.1 (names above member).1).2.2 rfl

/-- Reduced elements climb with the first of them, or not at all. -/
theorem Reduced.names_or_climbs (reduced : Reduced r es) : Names es ∨ r = false ∧ ∃ rest, es = above :: rest := by
  obtain ⟨ups, down, rfl, climbing, going, rooted⟩ := reduced.climbs
  cases ups with
  | nil =>
    left
    intro e member
    obtain ⟨hne, proper, plain⟩ := reduced.ordinary e member
    exact ⟨isChildName_iff.2 ⟨hne, proper, going e member⟩, plain⟩
  | cons e ups =>
    have relative : r ≠ true := fun top => List.cons_ne_nil e ups (rooted top)
    rw [climbing e (List.mem_cons_self ..)]
    exact .inr ⟨Bool.eq_false_iff.2 relative, ups ++ down, rfl⟩

/-- From the root only names are reduced. -/
theorem Reduced.names (reduced : Reduced true es) : Names es :=
  reduced.names_or_climbs.resolve_right fun climbs => Bool.noConfusion climbs.1

/-- A path whose first element climbs. -/
def Climbs (p : Text) : Prop := p = above ∨ attach above [] <+: p

theorem elements_of_climbs (climbs : Climbs p) : above ∈ elements p := by
  have alone : elements above = [above] := elements_of_no_slash (by decide)
  rcases climbs with rfl | ⟨rest, rfl⟩
  · rw [alone]
    exact List.mem_singleton_self above
  · have slash : attach above [] ++ rest = above ++ .char '/' :: rest := rfl
    rw [slash, elements_append, alone]
    exact List.mem_cons_self ..

theorem climbs_joined (rest : List Text) : Climbs (joined (above :: rest)) := by
  by_cases last : rest = []
  · left
    rw [last, joined_singleton]
  · right
    rw [joined_cons_of_ne_nil above last]
    exact ⟨joined rest, rfl⟩

/-- The names a filesystem accepts are the clean paths that do not start at the root and do not climb. -/
theorem isValid_iff_clean : isValid name = true ↔ clean name = name ∧ isRooted name = false ∧ ¬Climbs name := by
  constructor
  · intro valid
    obtain ⟨es, names, rfl⟩ := isValid_iff_names.1 valid
    refine ⟨clean_ofReduced names, isRooted_ofReduced names.pieces, fun climbs => ?_⟩
    have member := elements_of_climbs climbs
    by_cases own : es = []
    · rw [own] at member
      exact absurd member (by decide)
    · rw [ofReduced_relative own, names.elements_joined own] at member
      exact names.not_mem_above member
  · rintro ⟨same, relative, level⟩
    obtain ⟨es, reduced, written, -⟩ := exists_clean name
    rw [relative] at reduced written
    rw [same] at written
    subst written
    rcases reduced.names_or_climbs with names | ⟨-, rest, rfl⟩
    · exact isValid_iff_names.2 ⟨es, names, rfl⟩
    · exact absurd (climbs_joined rest) level

/-- Going up takes the last elements away. -/
theorem iterate_parent (names : Names es) (k : Nat) :
    parent^[k] (ofReduced r es) = ofReduced r (es.take (es.length - k)) := by
  induction k with
  | zero => rw [Function.iterate_zero, id, Nat.sub_zero, List.take_length]
  | succ k ih =>
    have front : Names (es.take (es.length - k)) := names.ahead (List.take_prefix ..)
    rw [Function.iterate_succ_apply', ih, parent_ofReduced front, List.dropLast_eq_take, List.take_take,
      List.length_take]
    congr 2
    omega

/-- The root is as many steps up as there are elements. -/
theorem iterate_parent_eq_here_iff (names : Names es) (k : Nat) :
    parent^[k] (ofReduced false es) = here ↔ es.length ≤ k := by
  have front : Names (es.take (es.length - k)) := names.ahead (List.take_prefix ..)
  rw [iterate_parent names]
  constructor
  · intro same
    rcases List.take_eq_nil_iff.1 (ofReduced_inj front names_nil same) with spent | spent
    · exact Nat.le_of_sub_eq_zero spent
    · rw [spent]
      exact Nat.zero_le k
  · intro enough
    rw [Nat.sub_eq_zero_of_le enough, List.take_zero]
    rfl

/-- A name is its last element, behind its parent if that is not the root. -/
theorem ofReduced_eq_parent (names : Names es) (hne : es ≠ []) :
    ofReduced false es =
      if parent (ofReduced false es) = here then lastElement (ofReduced false es)
      else parent (ofReduced false es) ++ .char '/' :: lastElement (ofReduced false es) := by
  obtain ⟨front, e, rfl⟩ := (List.eq_nil_or_concat' es).resolve_left hne
  obtain ⟨before, last⟩ := names_append.1 names
  have top : ofReduced false front = here ↔ front = [] :=
    ⟨fun same => ofReduced_inj before names_nil same, fun empty => empty ▸ rfl⟩
  rw [parent_ofReduced names, List.dropLast_concat,
    lastElement_ofReduced (last.no_slash e (List.mem_singleton_self e)), ofReduced_snoc]
  simp only [top]
  rfl

/-- **The names a filesystem accepts are the normal paths that stay below the root.** Each is its parent with one
element behind it, and from a name the parents lead to the root in as many steps as it has elements. -/
theorem isValid_normal :
    (∀ name, isValid name = true ↔
        clean name = name ∧ ¬[.char '/'] <+: name ∧ name ≠ "..".text ∧ ¬"../".text <+: name) ∧
      ∀ name, isValid name = true → name ≠ here →
        isValid (parent name) = true ∧
          name = (if parent name = here then lastElement name else parent name ++ .char '/' :: lastElement name) ∧
          ∀ k, parent^[k] name = here ↔ (elements name).length ≤ k := by
  refine ⟨fun name => ?_, fun name valid proper => ?_⟩
  · have start : isRooted name = false ↔ ¬[.char '/'] <+: name := by
      rw [← Bool.not_eq_true, isRooted_iff]
      cases name with
      | nil => simp
      | cons c rest => simp [eq_comm]
    rw [isValid_iff_clean, start, Climbs, not_or]
    rfl
  · obtain ⟨es, names, rfl⟩ := isValid_iff_names.1 valid
    have hne : es ≠ [] := by
      rintro rfl
      exact proper rfl
    refine ⟨?_, ofReduced_eq_parent names hne, fun k => ?_⟩
    · rw [parent_ofReduced names]
      exact isValid_iff_names.2 ⟨_, names.dropLast, rfl⟩
    · rw [iterate_parent_eq_here_iff names, ofReduced_relative hne, names.elements_joined hne]

/-- From `a/b` the root is two steps up. -/
theorem isValid_normal_nested :
    isValid "a/b".text = true ∧ "a/b".text ≠ here ∧
      isValid (parent "a/b".text) = true ∧
      "a/b".text = (if parent "a/b".text = here then lastElement "a/b".text
        else parent "a/b".text ++ .char '/' :: lastElement "a/b".text) ∧
      ∀ k, parent^[k] "a/b".text = here ↔ 2 ≤ k :=
  ⟨by decide, by decide, isValid_normal.2 "a/b".text (by decide) (by decide)⟩

end Vfs.Path
