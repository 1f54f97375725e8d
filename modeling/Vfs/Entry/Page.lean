import Vfs.Failure.Basic

/-!
# Listing page by page

A directory is listed in pages. The cursor counts the entries delivered so far. A page of a positive
size past the end is an error; a page of any other size is all that is left. `nextPageFrom` takes any
integer for a cursor, and `nextPageFrom_natCast` says that on a count it is `nextPage`.
-/

namespace Vfs

/-- The page of at most `n` entries at `cursor`, all entries left if `n` is not positive, and the
cursor behind the page. -/
def nextPage {α : Type} (entries : List α) (cursor : Nat) (n : Int) : Except Fault (List α × Nat) :=
  let left := entries.length - cursor
  if left = 0 then
    if n ≤ 0 then .ok ([], cursor) else .error Fault.endOfDirectory
  else
    let count := if n ≤ 0 ∨ n > left then left else n.toNat
    .ok ((entries.drop cursor).take count, cursor + count)

/-- The position in a row of `size` entries that an integer names; below zero it counts from the
end, and stops at the front. -/
def position (size : Nat) (i : Int) : Nat := if i < 0 then (size + i).toNat else i.toNat

/-- The page at any cursor. In front of the row more is left than the row holds, and the page lies
between the positions that the cursor and the cursor behind the page name. -/
def nextPageFrom {α : Type} (entries : List α) (cursor n : Int) : Except Fault (List α × Int) :=
  let left := entries.length - cursor
  if left ≤ 0 then
    if n ≤ 0 then .ok ([], cursor) else .error Fault.endOfDirectory
  else
    let next := cursor + if n ≤ 0 ∨ n > left then left else n
    let last := position entries.length next
    .ok ((entries.take last).drop (position entries.length cursor), next)

theorem nextPageFrom_natCast {α : Type} (entries : List α) (cursor : Nat) (n : Int) :
    nextPageFrom entries cursor n =
      (nextPage entries cursor n).map fun (page, next) => (page, (next : Int)) := by
  unfold nextPageFrom nextPage
  by_cases hleft : entries.length ≤ cursor
  · have h₁ : (entries.length : Int) - cursor ≤ 0 := by omega
    have h₂ : entries.length - cursor = 0 := by omega
    simp only [h₁, h₂, if_true]
    split <;> rfl
  · have h₁ : ¬(entries.length : Int) - cursor ≤ 0 := by omega
    have h₂ : entries.length - cursor ≠ 0 := by omega
    have hcast : ((entries.length - cursor : Nat) : Int) = (entries.length : Int) - cursor := by omega
    simp only [h₁, h₂, if_false, hcast, Except.map]
    have hnext : (cursor : Int) + (if n ≤ 0 ∨ n > (entries.length : Int) - cursor then
        (entries.length : Int) - cursor else n) =
        ((cursor + if n ≤ 0 ∨ n > (entries.length : Int) - cursor then entries.length - cursor
          else n.toNat : Nat) : Int) := by
      split <;> omega
    have hpos (i : Nat) : position entries.length (i : Int) = i := by
      unfold position
      rw [if_neg (by omega), Int.toNat_natCast]
    rw [hnext, hpos, hpos, List.drop_take, Nat.add_sub_cancel_left]

end Vfs
