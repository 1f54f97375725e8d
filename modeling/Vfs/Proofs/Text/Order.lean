import Vfs.Text

/-!
# Texts in order

The texts that begin with `p` stand next to each other in the order of texts: none of them is below
`p` (`not_lt_of_isPrefix`), and a text that is neither below `p` nor begins with `p` is above all of
them (`lt_of_isPrefix`). The same is true of rows of texts.
-/

namespace Vfs.Text
set_option autoImplicit false

section
variable {α : Type} [LT α] {p j k : List α}

theorem not_lt_of_isPrefix [Std.Irrefl fun a b : α => a < b] (h : p <+: k) : ¬k < p := by
  obtain ⟨rest, rfl⟩ := h
  induction p with
  | nil => exact List.not_lt_nil _
  | cons c p ih =>
    rw [List.cons_append, List.cons_lt_cons_iff, not_or]
    exact ⟨Std.Irrefl.irrefl c, fun h => ih h.2⟩

theorem lt_of_isPrefix [Std.Trichotomous fun a b : α => a < b] (below : ¬k < p) (apart : ¬p <+: k) (h : p <+: j) :
    j < k := by
  induction p generalizing j k with
  | nil => exact absurd List.nil_prefix apart
  | cons c p ih =>
    obtain ⟨j, rfl⟩ : ∃ j', j = c :: j' := by
      obtain ⟨rest, rfl⟩ := h
      exact ⟨p ++ rest, rfl⟩
    cases k with
    | nil => exact absurd (List.nil_lt_cons c p) below
    | cons d k =>
      rw [List.cons_lt_cons_iff, not_or] at below
      rw [List.cons_lt_cons_iff]
      by_cases before : c < d
      · exact .inl before
      · obtain rfl : c = d := Std.Trichotomous.trichotomous c d before below.1
        refine Or.inr ⟨rfl, ih (fun h => below.2 ⟨rfl, h⟩) ?_ ((List.prefix_cons_inj c).1 h)⟩
        intro h
        exact apart ((List.prefix_cons_inj c).2 h)

/-- In a sorted row, what begins with one of its members follows that one in a block. -/
theorem exists_block [Std.Asymm fun a b : α => a < b] [Std.Trichotomous fun a b : α => a < b] {β : Type}
    {key : β → List α} {x : β} {front back : List β}
    (sorted : (front ++ x :: back).Pairwise fun y z => key y < key z) :
    ∃ inside after, back = inside ++ after ∧ (∀ y ∈ inside, key x <+: key y) ∧
      ∀ y ∈ front ++ after, ¬key x <+: key y := by
  classical
  obtain ⟨-, later, before⟩ := List.pairwise_append.1 sorted
  obtain ⟨behind, sorted⟩ := List.pairwise_cons.1 later
  refine ⟨back.takeWhile fun y => key x <+: key y, back.dropWhile fun y => key x <+: key y,
    List.takeWhile_append_dropWhile.symm,
    fun y member => of_decide_eq_true (List.all_eq_true.1 List.all_takeWhile y member), ?_⟩
  intro y member inside
  rcases List.mem_append.1 member with first | last
  · exact not_lt_of_isPrefix inside (before y first x (List.mem_cons_self ..))
  · cases left : back.dropWhile fun y => key x <+: key y with
    | nil => rw [left] at last; exact absurd last List.not_mem_nil
    | cons z rest =>
      have apart : ¬key x <+: key z := by
        have stops := List.head?_dropWhile_not (fun y => decide (key x <+: key y)) back
        simpa [left] using stops
      have suffix : z :: rest <:+ back := left ▸ List.dropWhile_suffix _
      have under : ¬key z < key x := List.lt_asymm (behind z (suffix.subset (List.mem_cons_self ..)))
      rw [left] at last
      rcases List.mem_cons.1 last with rfl | later
      · exact apart inside
      · have ordered := (List.pairwise_cons.1 (sorted.sublist suffix.sublist)).1 y later
        exact List.lt_asymm ordered (lt_of_isPrefix under apart inside)

end

section
variable {α : Type} [LT α] {as bs cs ds : List α}

/-- One row comes before another as a proper beginning of it, or by the first element in which they differ. -/
theorem lt_cases (before : as < bs) :
    (∃ b back, bs = as ++ b :: back) ∨
      ∃ front a b back back', as = front ++ a :: back ∧ bs = front ++ b :: back' ∧ a < b := by
  induction as generalizing bs with
  | nil =>
    cases bs with
    | nil => exact absurd before (List.not_lt_nil [])
    | cons b bs => exact .inl ⟨b, bs, rfl⟩
  | cons a as ih =>
    cases bs with
    | nil => exact absurd before (List.not_lt_nil (a :: as))
    | cons b bs =>
      rcases List.cons_lt_cons_iff.1 before with first | ⟨rfl, later⟩
      · exact .inr ⟨[], a, b, as, bs, rfl, rfl, first⟩
      · rcases ih later with ⟨b, back, rfl⟩ | ⟨front, a', b, back, back', rfl, rfl, first⟩
        · exact .inl ⟨b, back, rfl⟩
        · exact .inr ⟨a :: front, a', b, back, back', rfl, rfl, first⟩

/-- Rows of one length stay in order whatever comes behind them. -/
theorem append_lt_append_of_length_eq (before : as < bs) (same : as.length = bs.length) : as ++ cs < bs ++ ds := by
  rcases lt_cases before with ⟨b, back, rfl⟩ | ⟨front, a, b, back, back', rfl, rfl, first⟩
  · rw [List.length_append, List.length_cons] at same
    omega
  · rw [List.append_assoc, List.append_assoc]
    exact List.append_left_lt (.rel first)

end

theorem eq_of_not_lt {a b : Text} (h : ¬a < b) (h' : ¬b < a) : a = b :=
  List.le_antisymm (List.not_lt.1 h') (List.not_lt.1 h)

/-- What two texts begin with alike does not order them. -/
theorem append_lt_append_iff {p a b : Text} : p ++ a < p ++ b ↔ a < b := by
  refine ⟨fun before => ?_, List.append_left_lt⟩
  refine Decidable.byContradiction fun notBelow => ?_
  by_cases above : b < a
  · exact List.lt_asymm before (List.append_left_lt above)
  · rw [eq_of_not_lt notBelow above] at before
    exact List.lt_irrefl _ before

/-- A row in order has no text twice. -/
theorem nodup_of_sorted {texts : List Text} (sorted : texts.Pairwise (· < ·)) : texts.Nodup :=
  sorted.imp fun {a b} before (same : a = b) => List.lt_irrefl b (same ▸ before)

end Vfs.Text
