import Mathlib.Data.List.Induction
import Vfs.Proofs.Path.Names

/-!
# The steps of a path

However a path is written, what leads along it are its elements that are not empty. Names are attached to a
path as further steps (`steps_attach`), and its directory has all but the last (`steps_directory_attach`). On a
path from the root the names that are attached are what cleaning leaves behind the rest (`clean_steps_append`).
-/

namespace Vfs.Path
set_option autoImplicit false

variable {r : Bool} {es : List Text} {base e p q : Text}

/-- The elements of a path that are not empty. -/
def steps (p : Text) : List Text := (elements p).filter (· ≠ [])

theorem steps_append_slash (p q : Text) : steps (p ++ .char '/' :: q) = steps p ++ steps q := by
  rw [steps, elements_append, List.filter_append]
  rfl

theorem steps_slash (p : Text) : steps (p ++ [.char '/']) = steps p := by
  rw [steps_append_slash]
  exact List.append_nil _

theorem steps_of_no_slash (hne : e ≠ []) (plain : .char '/' ∉ e) : steps e = [e] := by
  rw [steps, elements_of_no_slash plain]
  simp [hne]

theorem no_slash_of_mem_steps (member : e ∈ steps p) : .char '/' ∉ e :=
  no_slash_of_mem_elements (List.mem_filter.1 member).1

/-- What a path is written with, besides slashes, stands in its steps. -/
theorem mem_steps_iff {c : CodePoint} (other : c ≠ .char '/') : (∃ e ∈ steps p, c ∈ e) ↔ c ∈ p := by
  constructor
  · rintro ⟨e, member, inside⟩
    rw [← joined_elements p]
    exact mem_joined (List.mem_filter.1 member).1 inside
  · intro inside
    rw [← joined_elements p] at inside
    obtain ⟨e, member, own⟩ := exists_of_mem_joined inside other
    refine ⟨e, List.mem_filter.2 ⟨member, ?_⟩, own⟩
    simpa using List.ne_nil_of_mem own

theorem steps_dropTrailing (p : Text) : steps (Text.dropTrailing (.char '/') p) = steps p := by
  induction p using List.reverseRecOn with
  | nil => rfl
  | append_singleton p c ih =>
    by_cases slash : c = .char '/'
    · have shorter : Text.dropTrailing (.char '/') (p ++ [c]) = Text.dropTrailing (.char '/') p := by
        simp [Text.dropTrailing, slash]
      rw [shorter, ih, slash, steps_slash]
    · have kept : Text.dropTrailing (.char '/') (p ++ [c]) = p ++ [c] := by
        simp [Text.dropTrailing, slash]
      rw [kept]

/-- The directory of a path has the steps of what stands before the last slash. -/
theorem steps_directory (p : Text) : steps (directory p) = steps (cut p).1 := by
  rw [directory]
  split
  · rfl
  · exact steps_dropTrailing _

/-- A path is one element, or is cut at its last slash. -/
theorem cut_cases (p : Text) :
    .char '/' ∉ p ∧ cut p = ([], p) ∨
      ∃ q e, .char '/' ∉ e ∧ p = q ++ .char '/' :: e ∧ cut p = (q ++ [.char '/'], e) := by
  have whole := joined_elements p
  rcases List.eq_nil_or_concat (elements p) with empty | ⟨front, e, row⟩
  · exact absurd empty (elements_ne_nil p)
  · rw [List.concat_eq_append] at row
    have plain : .char '/' ∉ e := no_slash_of_mem_elements (p := p) (by simp [row])
    rw [row] at whole
    by_cases first : front = []
    · rw [first, List.nil_append, joined] at whole
      subst whole
      exact .inl ⟨plain, cut_of_no_slash plain⟩
    · rw [joined_append (List.cons_ne_nil e []) first, joined] at whole
      exact .inr ⟨_, e, plain, whole.symm, by rw [← whole, cut_append_slash plain]⟩

/-- The steps of a path are those of its directory and its last element. -/
theorem steps_cut (p : Text) : steps p = steps (directory p) ++ steps (lastElement p) := by
  rw [steps_directory, lastElement]
  rcases cut_cases p with ⟨-, split⟩ | ⟨q, e, -, whole, split⟩
  · rw [split]
    rfl
  · rw [split, steps_slash, whole, steps_append_slash]

/-! ## Paths from the root -/

theorem isRooted_iff : isRooted p = true ↔ p.head? = some (.char '/') := decide_eq_true_iff

theorem isRooted_of_isPrefix (rooted : isRooted p = true) (behind : p <+: q) : isRooted q = true := by
  obtain ⟨rest, rfl⟩ := behind
  obtain ⟨p, rfl⟩ := List.head?_eq_some_iff.1 (isRooted_iff.1 rooted)
  exact isRooted_iff.2 rfl

theorem isRooted_dropTrailing (rooted : isRooted p = true) (mixed : ¬p.all (· = .char '/') = true) :
    isRooted (Text.dropTrailing (.char '/') p) = true := by
  induction p using List.reverseRecOn with
  | nil => exact absurd rfl mixed
  | append_singleton p c ih =>
    by_cases slash : c = .char '/'
    · have shorter : Text.dropTrailing (.char '/') (p ++ [c]) = Text.dropTrailing (.char '/') p := by
        simp [Text.dropTrailing, slash]
      rw [shorter]
      have front : ¬p.all (· = .char '/') = true := by simpa [slash] using mixed
      apply ih _ front
      cases p with
      | nil => exact absurd rfl front
      | cons d p => exact rooted
    · have kept : Text.dropTrailing (.char '/') (p ++ [c]) = p ++ [c] := by
        simp [Text.dropTrailing, slash]
      rwa [kept]

/-- The directory of a path with a slash behind its first character starts at the root with it. -/
theorem isRooted_directory (rooted : isRooted (cut p).1 = true) : isRooted (directory p) = true := by
  rw [directory]
  split
  · exact rooted
  · next mixed => exact isRooted_dropTrailing rooted mixed

/-! ## Paths with names attached -/

section
variable (relative : e.head? ≠ some (.char '/'))
include relative

/-- What does not start at the root is attached behind a slash, which the path may have already. -/
theorem attach_relative (base : Text) :
    base = [] ∧ attach base e = e ∨
      ∃ front, attach base e = front ++ .char '/' :: e ∧ steps front = steps base ∧ base <+: front ++ [.char '/'] := by
  rw [attach, if_neg relative]
  split
  · next ends =>
    rcases ends with rfl | ends
    · exact .inl ⟨rfl, rfl⟩
    · obtain ⟨front, rfl⟩ := List.getLast?_eq_some_iff.1 ends
      exact .inr ⟨front, List.append_assoc .., (steps_slash front).symm, List.prefix_refl _⟩
  · exact .inr ⟨base, rfl, rfl, List.prefix_append ..⟩

theorem steps_attach_relative (base : Text) : steps (attach base e) = steps base ++ steps e := by
  rcases attach_relative relative base with ⟨rfl, attached⟩ | ⟨front, attached, same, -⟩
  · rw [attached]
    rfl
  · rw [attached, steps_append_slash, same]

/-- What is attached to a path starts where the path starts. -/
theorem isRooted_attach_iff : isRooted (attach base e) = true ↔ isRooted base = true := by
  cases base with
  | nil =>
    have attached : attach [] e = e := by rw [attach, if_neg relative, if_pos (.inl rfl), List.nil_append]
    rw [attached, isRooted_iff, isRooted_iff]
    exact iff_of_false relative fun rooted => by cases rooted
  | cons c base =>
    have first : (attach (c :: base) e).head? = some c := by
      rw [attach, if_neg relative]
      split
      · rfl
      · rfl
    rw [isRooted_iff, isRooted_iff, first]
    rfl

end

section
variable (hne : e ≠ []) (plain : .char '/' ∉ e)
include plain

theorem head?_of_no_slash : e.head? ≠ some (.char '/') := by
  intro slash
  obtain ⟨rest, rfl⟩ := List.head?_eq_some_iff.1 slash
  exact plain (List.mem_cons_self ..)

/-- A name is attached behind a slash, which the path may have already. -/
theorem attach_cases (base : Text) :
    base = [] ∧ attach base e = e ∨
      ∃ front, attach base e = front ++ .char '/' :: e ∧ steps front = steps base ∧ base <+: front ++ [.char '/'] :=
  attach_relative (head?_of_no_slash plain) base

theorem isRooted_attach (rooted : isRooted base = true) : isRooted (attach base e) = true :=
  (isRooted_attach_iff (head?_of_no_slash plain)).2 rooted

theorem isRooted_directory_attach (rooted : isRooted base = true) : isRooted (directory (attach base e)) = true := by
  rcases attach_cases plain base with ⟨rfl, -⟩ | ⟨front, attached, -, behind⟩
  · cases rooted
  · apply isRooted_directory
    rw [attached, cut_append_slash plain]
    exact isRooted_of_isPrefix rooted behind

theorem steps_directory_attach (base : Text) : steps (directory (attach base e)) = steps base := by
  rw [steps_directory]
  rcases attach_cases plain base with ⟨rfl, attached⟩ | ⟨front, attached, same, -⟩
  · rw [attached, cut_of_no_slash plain]
  · rw [attached, cut_append_slash plain, steps_slash, same]

include hne

theorem steps_attach (base : Text) : steps (attach base e) = steps base ++ [e] := by
  rw [steps_attach_relative (head?_of_no_slash plain), steps_of_no_slash hne plain]

end

theorem steps_foldl_attach (pieces : Pieces es) (base : Text) : steps (es.foldl attach base) = steps base ++ es := by
  induction es generalizing base with
  | nil => exact (List.append_nil _).symm
  | cons e es ih =>
    obtain ⟨⟨hne, plain⟩, later⟩ := List.forall_mem_cons.1 pieces
    rw [List.foldl_cons, ih later, steps_attach hne plain, List.append_assoc]
    rfl

theorem isRooted_foldl_attach (pieces : Pieces es) (rooted : isRooted base = true) :
    isRooted (es.foldl attach base) = true := by
  induction es generalizing base with
  | nil => exact rooted
  | cons e es ih =>
    obtain ⟨⟨-, plain⟩, later⟩ := List.forall_mem_cons.1 pieces
    exact ih later (isRooted_attach plain rooted)

/-! ## Cleaning -/

theorem foldl_push_filter (es stack : List Text) :
    (es.filter (· ≠ [])).foldl (push r) stack = es.foldl (push r) stack := by
  induction es generalizing stack with
  | nil => rfl
  | cons e es ih =>
    by_cases empty : e = []
    · rw [empty, List.foldl_cons, push_nil, List.filter_cons_of_neg (by simp), ih]
    · rw [List.filter_cons_of_pos (by simpa using empty), List.foldl_cons, List.foldl_cons, ih]

/-- Empty elements do not matter to a clean path. -/
theorem clean_rooted (rooted : isRooted p = true) : clean p = ofReduced true (reduce true (steps p)) := by
  rw [clean, rooted, reduce, reduce, steps, foldl_push_filter]

theorem names_push (plain : .char '/' ∉ e) (names : Names es) : Names (push true es e) := by
  unfold push
  split
  · exact names
  · next ordinary =>
    rw [not_or] at ordinary
    split
    · next proper =>
      exact List.forall_mem_cons.2 ⟨⟨isChildName_iff.2 ⟨ordinary.1, ordinary.2, proper⟩, plain⟩, names⟩
    · cases es with
      | nil => exact names_nil
      | cons top rest =>
        obtain ⟨first, later⟩ := List.forall_mem_cons.1 names
        have proper : top ≠ above := (isChildName_iff.1 first.1).2.2
        simp only [if_neg proper]
        exact later

theorem pieces_push (plain : .char '/' ∉ e) (pieces : Pieces es) : Pieces (push r es e) := by
  unfold push
  split
  · exact pieces
  · next ordinary =>
    rw [not_or] at ordinary
    have up : above ≠ [] ∧ .char '/' ∉ above := by decide
    split
    · exact List.forall_mem_cons.2 ⟨⟨ordinary.1, plain⟩, pieces⟩
    · cases es with
      | nil =>
        dsimp only
        split
        · exact pieces
        · exact List.forall_mem_cons.2 ⟨up, pieces⟩
      | cons top rest =>
        dsimp only
        split
        · exact List.forall_mem_cons.2 ⟨up, pieces⟩
        · exact (List.forall_mem_cons.1 pieces).2

/-- Nothing empty is left, and no slash. -/
theorem pieces_reduce (plain : ∀ e ∈ es, .char '/' ∉ e) : Pieces (reduce r es) := by
  have stacked (stack : List Text) (pieces : Pieces stack) : Pieces (es.foldl (push r) stack) := by
    induction es generalizing stack with
    | nil => exact pieces
    | cons e es ih =>
      obtain ⟨first, later⟩ := List.forall_mem_cons.1 plain
      exact ih later _ (pieces_push first pieces)
  intro e member
  exact stacked [] (fun _ never => absurd never List.not_mem_nil) e (List.mem_reverse.1 member)

/-- From the root only names are left. -/
theorem names_reduce (plain : ∀ e ∈ es, .char '/' ∉ e) : Names (reduce true es) := by
  have stacked (stack : List Text) (names : Names stack) : Names (es.foldl (push true) stack) := by
    induction es generalizing stack with
    | nil => exact names
    | cons e es ih =>
      obtain ⟨first, later⟩ := List.forall_mem_cons.1 plain
      exact ih later _ (names_push first names)
  intro e member
  exact stacked [] names_nil e (List.mem_reverse.1 member)

/-- Names behind other elements are left as they are. -/
theorem reduce_append_names (names : Names es) (front : List Text) :
    reduce true (front ++ es) = reduce true front ++ es := by
  rw [reduce, List.foldl_append, foldl_push_names names, List.reverse_append, List.reverse_reverse, reduce]

/-- A path that goes on from another by names. -/
theorem clean_steps_append (rooted : isRooted p = true) (names : Names es) (row : steps p = steps base ++ es) :
    clean p = ofReduced true (reduce true (steps base) ++ es) := by
  rw [clean_rooted rooted, row, reduce_append_names names]

/-- A name seen from a path that starts at the root. -/
theorem clean_attach_name (rooted : isRooted base = true) (names : Names es) :
    clean (attach base (ofReduced false es)) = ofReduced true (reduce true (steps base) ++ es) := by
  have relative := head?_ofReduced names.pieces
  have start := (isRooted_attach_iff relative).2 rooted
  have row := steps_attach_relative relative base
  by_cases hne : es = []
  · -- The directory itself is a step more, that cleaning takes away.
    have own : steps (ofReduced false es) = [here] := by rw [hne, ofReduced_nil, steps_of_no_slash] <;> decide
    rw [clean_rooted start, row, own, reduce, List.foldl_append, List.foldl_cons, List.foldl_nil, push_here, hne,
      List.append_nil, reduce]
  · have own : steps (ofReduced false es) = es := by
      rw [steps, ofReduced_relative hne, names.elements_joined hne, List.filter_eq_self]
      intro e member
      simpa using names.ne_nil member
    rw [own] at row
    exact clean_steps_append start names row

/-- Only a path that starts at the root is cleaned to one. -/
theorem isRooted_of_clean (rooted : isRooted (clean p) = true) : isRooted p = true := by
  by_contra relative
  rw [clean, Bool.eq_false_iff.2 relative, isRooted_iff] at rooted
  exact head?_ofReduced (pieces_reduce fun e member => no_slash_of_mem_elements member) rooted

end Vfs.Path
