/-!
# Finite maps

A finite map is a list of pairs in which each key stands once. The lemmas say what each operation
does to looking a key up. Long lists make poor keys, since two of them can differ at the far end only;
`stamped` puts the length in front, so that lists of different lengths are told apart at once, and
`stamped_inj` says that nothing else changes.
-/

namespace Vfs

/-- A list behind its length. -/
def stamped {β : Type} (l : List β) : Nat × List β := (l.length, l)

theorem stamped_inj {β : Type} {l m : List β} : stamped l = stamped m ↔ l = m :=
  ⟨fun h => (Prod.mk.inj h).2, fun h => h ▸ rfl⟩

/-- A finite map. -/
structure Assoc (κ α : Type) where
  pairs : List (κ × α) := []
  deriving Repr

namespace Assoc

variable {κ α : Type} [BEq κ]

/-- The value under a key in a list of pairs. -/
def lookup (k : κ) : List (κ × α) → Option α
  | [] => none
  | (j, a) :: rest => if j == k then some a else lookup k rest

/-- The value under a key. -/
def get? (m : Assoc κ α) (k : κ) : Option α := lookup k m.pairs

/-- There is a value under the key. -/
def contains (m : Assoc κ α) (k : κ) : Bool := (m.get? k).isSome

/-- The map without a key. -/
def erase (m : Assoc κ α) (k : κ) : Assoc κ α := ⟨m.pairs.filter (·.1 != k)⟩

/-- The map with `a` under `k`. -/
def insert (m : Assoc κ α) (k : κ) (a : α) : Assoc κ α := ⟨(k, a) :: (m.erase k).pairs⟩

/-- The number of keys. -/
def size (m : Assoc κ α) : Nat := m.pairs.length

theorem lookup_filter_bne [LawfulBEq κ] (k : κ) (ps : List (κ × α)) (j : κ) :
    lookup j (ps.filter (·.1 != k)) = if j == k then none else lookup j ps := by
  induction ps with
  | nil => simp [lookup]
  | cons p rest ih =>
    obtain ⟨i, a⟩ := p
    by_cases hi : i = k
    · subst hi
      rw [List.filter_cons_of_neg (by simp), ih]
      by_cases hj : j = i
      · simp [hj]
      · simp [hj, lookup, Ne.symm hj]
    · rw [List.filter_cons_of_pos (by simpa using hi), lookup, ih, lookup]
      by_cases hj : i = j
      · subst hj; simp [hi]
      · simp [hj]

theorem get?_erase [LawfulBEq κ] (m : Assoc κ α) (k j : κ) :
    (m.erase k).get? j = if j == k then none else m.get? j :=
  lookup_filter_bne k m.pairs j

theorem get?_insert [LawfulBEq κ] (m : Assoc κ α) (k : κ) (a : α) (j : κ) :
    (m.insert k a).get? j = if k == j then some a else m.get? j := by
  show lookup j ((k, a) :: (m.erase k).pairs) = _
  simp only [lookup]
  split
  · rfl
  · next h =>
    have hjk : ¬ (j == k) = true := fun hjk => h (by simpa using (eq_of_beq hjk).symm)
    exact (get?_erase m k j).trans (if_neg hjk)

end Assoc

end Vfs
