import Vfs.Store.Basic
import Vfs.Proofs.Text.Order

/-!
# The row of keys

What binary search finds in a row of increasing keys. `lowerBound_splits` cuts the row into the keys
below the one looked for and the others, and `below_splits` cuts it in three around the stretch of a
subtree: the stretch holds just the keys that are `Under` the key asked for.
-/

namespace Vfs.Store
set_option autoImplicit false

/-- `k` is below `above` in the tree that slashes make of the keys. -/
def Under (above k : Text) : Prop := k ≠ above ∧ branch above <+: k

instance (above k : Text) : Decidable (Under above k) := by unfold Under; infer_instance

theorem increasing_iff {keys : Array Text} :
    Increasing keys ↔ keys.toList.Pairwise (· < ·) := by
  rw [List.pairwise_iff_getElem]
  constructor
  · intro h i j _ hj hij
    exact h i j (by simpa using hj) hij
  · intro h i j hj hij
    exact h i j (by simpa using Nat.lt_trans hij hj) (by simpa using hj) hij

/-- The search keeps what is known of the keys in front of its stretch and behind it. -/
theorem search_splits {keys : Array Text} (increasing : Increasing keys) {key : Text} {lo hi : Nat}
    (ordered : lo ≤ hi) (inside : hi ≤ keys.size)
    (front : ∀ i (h : i < keys.size), i < lo → keys[i] < key)
    (back : ∀ i (h : i < keys.size), hi ≤ i → ¬keys[i] < key) :
    (∀ i (h : i < keys.size), i < search keys key lo hi → keys[i] < key) ∧
      ∀ i (h : i < keys.size), search keys key lo hi ≤ i → ¬keys[i] < key := by
  fun_induction search keys key lo hi with
  | case1 lo hi hlt mid below ih =>
    have hmid : mid < keys.size := by omega
    have key_mid : keys[mid] < key := by simpa [hmid] using below
    refine ih (by omega) inside ?_ back
    intro i h hi
    by_cases same : i = mid
    · subst same; exact key_mid
    · exact List.lt_trans (increasing i mid hmid (by omega)) key_mid
  | case2 lo hi hlt mid notBelow ih =>
    have hmid : mid < keys.size := by omega
    have key_mid : ¬keys[mid] < key := by simpa [hmid] using notBelow
    refine ih (by omega) (by omega) front ?_
    intro i h hi below
    by_cases same : i = mid
    · subst same; exact key_mid below
    · exact key_mid (List.lt_trans (increasing mid i h (by omega)) below)
  | case3 lo hi hlt =>
    exact ⟨front, fun i h hi => back i h (by omega)⟩

/-- The keys in front of the position found are below the key, the others are not. -/
theorem lowerBound_splits {keys : Array Text} (increasing : Increasing keys) (key : Text) :
    (∀ k ∈ keys.toList.take (lowerBound keys key), k < key) ∧
      ∀ k ∈ keys.toList.drop (lowerBound keys key), ¬k < key := by
  have splits : (∀ i (h : i < keys.size), i < lowerBound keys key → keys[i] < key) ∧
      ∀ i (h : i < keys.size), lowerBound keys key ≤ i → ¬keys[i] < key :=
    search_splits increasing (Nat.zero_le keys.size) (Nat.le_refl _)
      (fun _ _ h => absurd h (Nat.not_lt_zero _)) fun _ h h' => absurd h (by omega)
  constructor
  · intro k hk
    obtain ⟨i, hi, rfl⟩ := List.mem_take_iff_getElem.1 hk
    exact splits.1 i (by simp at hi; omega) (by omega)
  · intro k hk
    obtain ⟨i, hi, rfl⟩ := List.mem_drop_iff_getElem.1 hk
    exact splits.2 _ (by simpa [Nat.add_comm] using hi) (Nat.le_add_right _ _)

/-- A key of the row stands at the position that the search finds. -/
theorem drop_lowerBound {keys : Array Text} (increasing : Increasing keys) {key : Text}
    (member : key ∈ keys.toList) :
    keys.toList.drop (lowerBound keys key) = key :: keys.toList.drop (lowerBound keys key + 1) := by
  obtain ⟨front, back⟩ := lowerBound_splits increasing key
  have sorted := increasing_iff.1 increasing
  rw [← List.take_append_drop (lowerBound keys key) keys.toList] at sorted member
  have behind : key ∈ keys.toList.drop (lowerBound keys key) := by
    rcases List.mem_append.1 member with h | h
    · exact absurd (front key h) (List.lt_irrefl key)
    · exact h
  obtain ⟨first, rest, split⟩ := List.exists_cons_of_ne_nil (List.ne_nil_of_mem behind)
  have same : key = first := by
    rw [split] at behind back
    rcases List.mem_cons.1 behind with h | h
    · exact h
    · rw [split] at sorted
      have before := (List.pairwise_cons.1 (List.pairwise_append.1 sorted).2.1).1 key h
      exact absurd before (back first (List.mem_cons_self ..))
  have tail : keys.toList.drop (lowerBound keys key + 1) = rest := by
    rw [← List.drop_drop, split]; rfl
  rw [tail, split, same]

theorem getElem?_lowerBound_iff {keys : Array Text} (increasing : Increasing keys) {key : Text} :
    keys[lowerBound keys key]? = some key ↔ key ∈ keys.toList := by
  rw [← Array.getElem?_toList]
  constructor
  · exact List.mem_of_getElem?
  · intro member
    have split := drop_lowerBound increasing member
    rw [← List.head?_drop, split, List.head?_cons]

theorem index?_eq_none_iff {keys : Array Text} (increasing : Increasing keys) {key : Text} :
    index? keys key = none ↔ key ∉ keys.toList := by
  rw [← getElem?_lowerBound_iff increasing]
  simp [index?]

theorem index?_eq_some_iff {keys : Array Text} (increasing : Increasing keys) {key : Text} {i : Nat} :
    index? keys key = some i ↔ key ∈ keys.toList ∧ i = lowerBound keys key := by
  rw [← getElem?_lowerBound_iff increasing]
  simp only [index?, beq_iff_eq]
  split
  · next found => simp [found, eq_comm]
  · next missing => simp [missing]

theorem insertIdx_eq_take_drop {α : Type} {l : List α} {i : Nat} (bound : i ≤ l.length) (a : α) :
    l.insertIdx i a = l.take i ++ a :: l.drop i := by
  induction i generalizing l with
  | zero => simp
  | succ i ih =>
    cases l with
    | nil => exact absurd bound (Nat.not_succ_le_zero i)
    | cons b l => simp [ih (Nat.le_of_succ_le_succ bound)]

/-- The row with a new key at the position that the search finds. -/
theorem insertIdx_lowerBound {keys : Array Text} (key : Text) :
    (keys.insertIdxIfInBounds (lowerBound keys key) key).toList =
      keys.toList.take (lowerBound keys key) ++ key :: keys.toList.drop (lowerBound keys key) := by
  have bound := lowerBound_le keys key
  rw [Array.insertIdxIfInBounds, dif_pos bound, Array.toList_insertIdx,
    insertIdx_eq_take_drop (by simpa using bound)]

theorem increasing_insertIdx {keys : Array Text} (increasing : Increasing keys) {key : Text}
    (fresh : key ∉ keys.toList) :
    Increasing (keys.insertIdxIfInBounds (lowerBound keys key) key) := by
  have sorted := increasing_iff.1 increasing
  obtain ⟨front, back⟩ := lowerBound_splits increasing key
  rw [← List.take_append_drop (lowerBound keys key) keys.toList, List.pairwise_append] at sorted
  rw [increasing_iff, insertIdx_lowerBound, List.pairwise_append, List.pairwise_cons]
  refine ⟨sorted.1, ⟨fun k hk => ?_, sorted.2.1⟩, fun j hj k hk => ?_⟩
  · refine Decidable.byContradiction fun h => fresh ?_
    rw [Text.eq_of_not_lt h (back k hk)]
    exact List.mem_of_mem_drop hk
  · rcases List.mem_cons.1 hk with rfl | hk
    · exact front j hj
    · exact sorted.2.2 j hj k hk

theorem eraseIdx_lowerBound {keys : Array Text} (increasing : Increasing keys) {key : Text}
    (member : key ∈ keys.toList) :
    (keys.eraseIdxIfInBounds (lowerBound keys key)).toList = keys.toList.filter fun k => k ≠ key := by
  have split := drop_lowerBound increasing member
  have sorted := increasing_iff.1 increasing
  have row := (List.take_append_drop (lowerBound keys key) keys.toList).symm
  rw [split] at row
  rw [row, List.pairwise_append, List.pairwise_cons] at sorted
  have front : (keys.toList.take (lowerBound keys key)).filter (fun k => k ≠ key) =
      keys.toList.take (lowerBound keys key) := by
    refine List.filter_eq_self.2 fun k hk => ?_
    have before := sorted.2.2 k hk key (List.mem_cons_self ..)
    exact decide_eq_true fun same => List.lt_irrefl key (same ▸ before)
  have back : (keys.toList.drop (lowerBound keys key + 1)).filter (fun k => k ≠ key) =
      keys.toList.drop (lowerBound keys key + 1) := by
    refine List.filter_eq_self.2 fun k hk => ?_
    have before := sorted.2.1.1 k hk
    exact decide_eq_true fun same => List.lt_irrefl key (same ▸ before)
  conv => rhs; rw [row]
  rw [Array.toList_eraseIdxIfInBounds, List.eraseIdx_eq_take_drop_succ, List.filter_append,
    List.filter_cons_of_neg (by simp), front, back]

theorem isPrefix_branch (above : Text) : above <+: branch above := by
  unfold branch
  split
  · exact List.prefix_rfl
  · exact List.prefix_append ..

/-- Where the stretch of `below` starts: no key in front of it is under `above`, and no key from there on
is below the branch or `above` itself. -/
theorem below_start {keys : Array Text} (increasing : Increasing keys) (above : Text) :
    (below keys above).1 ≤ keys.size ∧
      (∀ k ∈ keys.toList.take (below keys above).1, ¬Under above k) ∧
      ∀ k ∈ keys.toList.drop (below keys above).1, ¬k < branch above ∧ k ≠ above := by
  obtain ⟨low, high⟩ := lowerBound_splits increasing (branch above)
  have bound := lowerBound_le keys (branch above)
  have outside : ∀ k ∈ keys.toList.take (lowerBound keys (branch above)), ¬Under above k :=
    fun k hk under => Text.not_lt_of_isPrefix under.2 (low k hk)
  simp only [below, beq_iff_eq]
  split
  · next found =>
    -- The key asked for is its own branch, and is skipped.
    have inside : lowerBound keys (branch above) < keys.size := (Array.getElem?_eq_some_iff.1 found).1
    have member : above ∈ keys.toList := by
      rw [← Array.getElem?_toList] at found
      exact List.mem_of_getElem? found
    have cut := (increasing_iff.1 increasing).sublist
      (List.drop_sublist (lowerBound keys (branch above)) _)
    have step : keys.toList.drop (lowerBound keys (branch above)) =
        above :: keys.toList.drop (lowerBound keys (branch above) + 1) := by
      rw [← Array.getElem?_toList] at found
      obtain ⟨h, same⟩ := List.getElem?_eq_some_iff.1 found
      rw [List.drop_eq_getElem_cons h, same]
    refine ⟨inside, ?_, ?_⟩
    · intro k hk
      rw [List.take_add_one, Array.getElem?_toList, found] at hk
      rcases List.mem_append.1 hk with hk | hk
      · exact outside k hk
      · exact fun under => under.1 (by simpa using hk)
    · intro k hk
      refine ⟨high k (by rw [step]; exact List.mem_cons_of_mem _ hk), ?_⟩
      rintro rfl
      rw [step] at cut
      exact List.lt_irrefl k ((List.pairwise_cons.1 cut).1 k hk)
  · next missing =>
    refine ⟨bound, outside, fun k hk => ⟨high k hk, ?_⟩⟩
    -- Not below its branch, it would be its own branch and stand at the bound.
    rintro rfl
    have own : branch k = k :=
      Text.eq_of_not_lt (Text.not_lt_of_isPrefix (isPrefix_branch k)) (high k hk)
    rw [own] at missing
    exact missing ((getElem?_lowerBound_iff increasing).2 (List.mem_of_mem_drop hk))

/-- In a row of increasing keys, none of them below `stem`, those that begin with it come first. -/
theorem takeWhile_isPrefixOf {row : List Text} (sorted : row.Pairwise (· < ·)) {stem : Text}
    (later : ∀ k ∈ row, ¬k < stem) :
    (∀ k ∈ row.takeWhile stem.isPrefixOf, stem <+: k) ∧
      ∀ k ∈ row.dropWhile stem.isPrefixOf, ¬stem <+: k := by
  induction row with
  | nil => simp
  | cons c row ih =>
    obtain ⟨first, rest⟩ := List.pairwise_cons.1 sorted
    by_cases inside : stem <+: c
    · obtain ⟨front, back⟩ := ih rest fun k hk => later k (List.mem_cons_of_mem _ hk)
      have test := List.isPrefixOf_iff_prefix.2 inside
      rw [List.takeWhile_cons_of_pos test, List.dropWhile_cons_of_pos test]
      refine ⟨fun k hk => ?_, back⟩
      rcases List.mem_cons.1 hk with rfl | hk
      · exact inside
      · exact front k hk
    · have test : ¬stem.isPrefixOf c = true := fun h => inside (List.isPrefixOf_iff_prefix.1 h)
      rw [List.takeWhile_cons_of_neg test, List.dropWhile_cons_of_neg test]
      refine ⟨fun k hk => absurd hk List.not_mem_nil, fun k hk under => ?_⟩
      have before := Text.lt_of_isPrefix (later c (List.mem_cons_self ..)) inside under
      rcases List.mem_cons.1 hk with rfl | hk
      · exact inside under
      · exact List.lt_irrefl k (List.lt_trans before (first k hk))

/-- The stretch that `below` finds holds the keys of a subtree, and no other key does. -/
theorem below_splits {keys : Array Text} (increasing : Increasing keys) (above : Text) :
    ∃ front inner back, keys.toList = front ++ inner ++ back ∧
      below keys above = (front.length, front.length + inner.length) ∧
      (∀ k ∈ inner, Under above k) ∧ ∀ k ∈ front ++ back, ¬Under above k := by
  obtain ⟨bound, earlier, later⟩ := below_start increasing above
  have sorted := (increasing_iff.1 increasing).sublist (List.drop_sublist (below keys above).1 _)
  obtain ⟨inside, outside⟩ := takeWhile_isPrefixOf sorted fun k hk => (later k hk).1
  have length : (keys.toList.take (below keys above).1).length = (below keys above).1 := by
    rw [List.length_take, Array.length_toList, Nat.min_eq_left bound]
  refine ⟨keys.toList.take (below keys above).1,
    (keys.toList.drop (below keys above).1).takeWhile (branch above).isPrefixOf,
    (keys.toList.drop (below keys above).1).dropWhile (branch above).isPrefixOf,
    ?_, ?_, fun k hk => ⟨?_, inside k hk⟩, ?_⟩
  · rw [List.append_assoc, List.takeWhile_append_dropWhile, List.take_append_drop]
  · rw [length]; rfl
  · exact (later k ((List.takeWhile_sublist _).mem hk)).2
  · intro k hk
    rcases List.mem_append.1 hk with hk | hk
    · exact earlier k hk
    · exact fun under => outside k hk under.2

theorem keysBelow_eq_filter {keys : Array Text} (increasing : Increasing keys) (above : Text) :
    keysBelow keys above = keys.toList.filter fun k => Under above k := by
  obtain ⟨front, inner, back, row, bounds, under, outside⟩ := below_splits increasing above
  have front_empty : front.filter (fun k => Under above k) = [] :=
    List.filter_eq_nil_iff.2 fun k hk => by simpa using outside k (List.mem_append_left _ hk)
  have back_empty : back.filter (fun k => Under above k) = [] :=
    List.filter_eq_nil_iff.2 fun k hk => by simpa using outside k (List.mem_append_right _ hk)
  have inner_full : inner.filter (fun k => Under above k) = inner :=
    List.filter_eq_self.2 fun k hk => by simpa using under k hk
  have stretch : keysBelow keys above = inner := by
    simp [keysBelow, bounds, row, List.extract_eq_take_drop]
  rw [stretch, row, List.filter_append, List.filter_append, front_empty, back_empty, inner_full]
  simp

/-- What is left of the row when the stretch of a subtree is cut out. -/
theorem cut_eq_filter {keys : Array Text} (increasing : Increasing keys) (above : Text) :
    (keys.extract 0 (below keys above).1 ++ keys.extract (below keys above).2 keys.size).toList =
      keys.toList.filter fun k => ¬Under above k := by
  obtain ⟨front, inner, back, row, bounds, under, outside⟩ := below_splits increasing above
  have front_full : front.filter (fun k => ¬Under above k) = front :=
    List.filter_eq_self.2 fun k hk => by simpa using outside k (List.mem_append_left _ hk)
  have back_full : back.filter (fun k => ¬Under above k) = back :=
    List.filter_eq_self.2 fun k hk => by simpa using outside k (List.mem_append_right _ hk)
  have inner_empty : inner.filter (fun k => ¬Under above k) = [] :=
    List.filter_eq_nil_iff.2 fun k hk => by simpa using under k hk
  have size : keys.size = front.length + inner.length + back.length := by
    rw [← Array.length_toList, row, List.length_append, List.length_append]
  have left : (keys.extract 0 (below keys above).1 ++ keys.extract (below keys above).2 keys.size).toList =
      front ++ back := by
    simp [bounds, row, size, List.extract_eq_take_drop]
  rw [left, row, List.filter_append, List.filter_append, front_full, back_full, inner_empty]
  simp

/-- **The stretch of a subtree is exact**: it lies inside the row, and a position belongs to it if and only if the key
there begins with the branch and is not the key asked for. -/
theorem below_exact {keys : Array Text} (increasing : Increasing keys) (above : Text) :
    (below keys above).1 ≤ (below keys above).2 ∧ (below keys above).2 ≤ keys.size ∧
      ∀ i (h : i < keys.size),
        (below keys above).1 ≤ i ∧ i < (below keys above).2 ↔ branch above <+: keys[i] ∧ keys[i] ≠ above := by
  obtain ⟨front, inner, back, row, bounds, under, outside⟩ := below_splits increasing above
  have size : keys.size = front.length + inner.length + back.length := by
    rw [← Array.length_toList, row, List.length_append, List.length_append]
  rw [bounds]
  refine ⟨Nat.le_add_right .., by omega, fun i h => ?_⟩
  have found : (front ++ inner ++ back)[i]? = some keys[i] := by
    rw [← row, Array.getElem?_toList, Array.getElem?_eq_getElem h]
  have left (member : keys[i] ∈ front ++ back) : ¬(branch above <+: keys[i] ∧ keys[i] ≠ above) :=
    fun inside => outside _ member ⟨inside.2, inside.1⟩
  by_cases early : i < front.length
  · rw [List.append_assoc, List.getElem?_append_left early] at found
    have member := List.mem_append_left back (List.mem_of_getElem? found)
    exact iff_of_false (fun inside => absurd inside.1 (Nat.not_le.2 early)) (left member)
  · by_cases late : front.length + inner.length ≤ i
    · rw [List.getElem?_append_right (by rwa [List.length_append])] at found
      have member := List.mem_append_right front (List.mem_of_getElem? found)
      exact iff_of_false (fun inside => absurd inside.2 (Nat.not_lt.2 late)) (left member)
    · rw [List.append_assoc, List.getElem?_append_right (Nat.not_lt.1 early),
        List.getElem?_append_left (by omega)] at found
      obtain ⟨other, begins⟩ := under _ (List.mem_of_getElem? found)
      exact iff_of_true ⟨Nat.not_lt.1 early, Nat.not_le.1 late⟩ ⟨begins, other⟩

/-- The root is its own branch, and `/a-b` stands between `/a` and what is below it. -/
theorem below_exact_root :
    Increasing #[[.char '/'], "/a".text, "/a-b".text, "/a/x".text] ∧
      below #[[.char '/'], "/a".text, "/a-b".text, "/a/x".text] [.char '/'] = (1, 4) ∧
      below #[[.char '/'], "/a".text, "/a-b".text, "/a/x".text] "/a".text = (3, 4) ∧
      (3 ≤ 2 ∧ 2 < 4 ↔ branch "/a".text <+: "/a-b".text ∧ "/a-b".text ≠ "/a".text) := by
  have increasing : Increasing #[[.char '/'], "/a".text, "/a-b".text, "/a/x".text] :=
    increasing_iff.2 (by decide)
  have inner : below #[[.char '/'], "/a".text, "/a-b".text, "/a/x".text] "/a".text = (3, 4) := by decide +kernel
  have exact := (below_exact increasing "/a".text).2.2 2 (by decide)
  rw [inner] at exact
  exact ⟨increasing, by decide +kernel, inner, exact⟩

end Vfs.Store
