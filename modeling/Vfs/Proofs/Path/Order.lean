import Mathlib.Data.List.Pairwise
import Vfs.Proofs.Path.Names
import Vfs.Proofs.Text.Order

/-!
# Paths in the order of their elements

The order of texts takes a slash for a character among others, and so some paths whose elements stand in order do
not stand in order themselves: `a` comes before `a-1`, but `a-1/x` before `a/x`, since `-` comes before the slash.
Two paths cross where an element of one goes on from that of the other with a character before the slash, and the
other path goes on below. On all others the two orders agree (`lt_iff_not_crosses`), so a row in the order of its
elements is sorted if none of its paths cross (`InOrder.sorted_iff`).
-/

namespace Vfs.Path
set_option autoImplicit false

variable {x y : Text} {front back back' : List Text} {d : Text}

/-- A row of paths is in the order of their elements, each one before the next. -/
def InOrder (paths : List Text) : Prop := paths.Pairwise fun x y => elements x < elements y

theorem InOrder.nodup {paths : List Text} (ordered : InOrder paths) : paths.Nodup := by
  refine ordered.imp fun {a b} before same => ?_
  rw [same] at before
  exact List.lt_irrefl _ before

/-- Two paths come in the order of their elements, but not by code point: after some common elements the element of
the second is that of the first and goes on with a character before the slash, and the first has elements below. -/
def Crosses (x y : Text) : Prop :=
  ∃ front d c t back back', elements x = front ++ d :: back ∧ back ≠ [] ∧
    elements y = front ++ (d ++ c :: t) :: back' ∧ c < .char '/'

/-- What a path begins with before the element that comes behind some others. -/
def lead (front : List Text) : Text := front.flatMap (· ++ [.char '/'])

theorem joined_append_cons (front : List Text) (d : Text) (back : List Text) :
    joined (front ++ d :: back) = lead front ++ joined (d :: back) := by
  induction front with
  | nil => rfl
  | cons e front ih =>
    rw [List.cons_append, joined_cons_of_ne_nil e (by simp), ih, lead, lead, List.flatMap_cons]
    simp

/-- A path is its first element, and what stands below it behind a slash. -/
theorem exists_joined_cons (d : Text) (back : List Text) :
    ∃ tail, joined (d :: back) = d ++ tail ∧
      (back = [] ∧ tail = [] ∨ back ≠ [] ∧ ∃ rest, tail = .char '/' :: rest) := by
  by_cases last : back = []
  · exact ⟨[], by rw [last, joined_singleton, List.append_nil], .inl ⟨last, rfl⟩⟩
  · exact ⟨_, joined_cons_of_ne_nil d last, .inr ⟨last, _, rfl⟩⟩

theorem elements_lt_of_crosses (crosses : Crosses x y) : elements x < elements y := by
  obtain ⟨front, d, c, t, back, back', row, -, row', -⟩ := crosses
  have longer : d ++ [] < d ++ c :: t := List.append_left_lt (List.nil_lt_cons c t)
  rw [List.append_nil] at longer
  rw [row, row']
  exact List.append_left_lt (.rel longer)

theorem lt_of_crosses (crosses : Crosses x y) : y < x := by
  obtain ⟨front, d, c, t, back, back', row, below, row', before⟩ := crosses
  obtain ⟨tail, own, last⟩ := exists_joined_cons d back
  obtain ⟨tail', own', -⟩ := exists_joined_cons (d ++ c :: t) back'
  obtain ⟨rest, rfl⟩ := (last.resolve_left fun alone => below alone.1).2
  rw [← joined_elements x, ← joined_elements y, row, row', joined_append_cons, joined_append_cons, own, own',
    List.append_assoc]
  exact List.append_left_lt (List.append_left_lt (.rel before))

theorem not_crosses_self (x : Text) : ¬Crosses x x := fun crosses => List.lt_irrefl x (lt_of_crosses crosses)

/-- **Paths whose elements stand in order stand in order themselves, unless they cross.** -/
theorem lt_iff_not_crosses (before : elements x < elements y) : x < y ↔ ¬Crosses x y := by
  refine ⟨fun less crosses => List.lt_asymm less (lt_of_crosses crosses), fun straight => ?_⟩
  rw [← joined_elements x, ← joined_elements y]
  rcases Text.lt_cases before with ⟨b, back, row⟩ | ⟨front, d, d', back, back', row, row', first⟩
  · have longer : joined (elements x) ++ [] < joined (elements x) ++ .char '/' :: joined (b :: back) :=
      List.append_left_lt (List.nil_lt_cons (CodePoint.char '/') _)
    rwa [List.append_nil, ← joined_append (List.cons_ne_nil b back) (elements_ne_nil x), ← row] at longer
  · obtain ⟨tail, own, last⟩ := exists_joined_cons d back
    obtain ⟨tail', own', -⟩ := exists_joined_cons d' back'
    rw [row, row', joined_append_cons, joined_append_cons, own, own']
    refine List.append_left_lt ?_
    rcases Text.lt_cases first with ⟨c, t, rfl⟩ | ⟨f, a, b, r, r', rfl, rfl, differ⟩
    · -- One element goes on from the other: its next character stands against a slash, if anything.
      rw [List.append_assoc]
      refine List.append_left_lt ?_
      rcases last with ⟨-, rfl⟩ | ⟨below, rest, rfl⟩
      · exact List.nil_lt_cons c (t ++ tail')
      · have plain : .char '/' ∉ d ++ c :: t := no_slash_of_mem_elements (p := y) (by simp [row'])
        have other : c ≠ .char '/' := by
          rintro rfl
          exact plain (by simp)
        have notBefore : ¬c < .char '/' := fun less => straight ⟨front, d, c, t, back, back', row, below, row', less⟩
        refine .rel (Decidable.byContradiction fun notAfter => ?_)
        exact other (Std.Trichotomous.trichotomous c (.char '/') notBefore notAfter)
    · rw [List.append_assoc, List.append_assoc]
      exact List.append_left_lt (.rel differ)

/-- A row in the order of its elements is sorted, unless two of its paths cross. -/
theorem InOrder.sorted_iff {paths : List Text} (ordered : InOrder paths) :
    paths.Pairwise (· < ·) ↔ ∀ x ∈ paths, ∀ y ∈ paths, ¬Crosses x y := by
  constructor
  · intro sorted
    have ahead : paths.Pairwise fun x y => ¬Crosses x y :=
      List.Pairwise.imp₂ (fun x y before => (lt_iff_not_crosses before).1) ordered sorted
    -- What crosses stands in order, so no path crosses one before it.
    have behind : paths.Pairwise (flip fun x y => ¬Crosses x y) :=
      ordered.imp fun {x y} before crosses => List.lt_asymm before (elements_lt_of_crosses crosses)
    intro x member y member'
    exact ahead.forall_of_forall_of_flip (fun z _ => not_crosses_self z) behind member member'
  · intro straight
    refine List.Pairwise.imp_of_mem (fun {x y} member member' before => ?_) ordered
    exact (lt_iff_not_crosses before).2 (straight x member y member')

end Vfs.Path
