import Vfs.Text

/-!
# Binary search in a sorted row of keys

`lowerBound` is the first position of an increasing row whose key is not below the one looked for,
found by halving the stretch where it can be. `lowerBound_le` says that it is a position of the row or
the one behind it.
-/

namespace Vfs.Store
set_option autoImplicit false

/-- The keys stand in increasing order, each one once. -/
def Increasing (keys : Array Text) : Prop :=
  ∀ i j (hj : j < keys.size) (hij : i < j), keys[i] < keys[j]

/-- Halves the stretch from `lo` to `hi` until it is empty. -/
def search (keys : Array Text) (key : Text) (lo hi : Nat) : Nat :=
  if lo < hi then
    let mid := lo + (hi - lo) / 2
    if keys.getD mid [] < key then search keys key (mid + 1) hi else search keys key lo mid
  else lo
termination_by hi - lo

/-- The first position whose key is not below `key`, the size of the row if there is none. -/
def lowerBound (keys : Array Text) (key : Text) : Nat := search keys key 0 keys.size

theorem search_bounds (keys : Array Text) (key : Text) (lo hi : Nat) (h : lo ≤ hi) :
    lo ≤ search keys key lo hi ∧ search keys key lo hi ≤ hi := by
  fun_induction search keys key lo hi with
  | case1 lo hi hlt mid hbelow ih => have := ih (by omega); omega
  | case2 lo hi hlt mid hbelow ih => have := ih (by omega); omega
  | case3 lo hi hlt => omega

theorem lowerBound_le (keys : Array Text) (key : Text) : lowerBound keys key ≤ keys.size :=
  (search_bounds keys key 0 keys.size (Nat.zero_le _)).2

end Vfs.Store
