import Vfs.Proofs.Memory.Tree

/-!
# What a directory lists

The store finds the children of a key by what stands behind it. Where the keys are those of a tree, these are
the rows with one name more (`mem_children`), and a directory lists the entries stored under them, each told
with that name (`listing_children`).
-/

namespace Vfs.Memory
set_option autoImplicit false
open Vfs.Path

variable {s : Store Entry} {k : Text} {e : Entry} {as bs cs : List Text}

/-- The keys below one are those of a tree and name their entries. -/
structure LabelledUnder (s : Store Entry) (above : Text) : Prop where
  keys : ∀ k e, s.get? k = some e → Store.Under above k → IsKey k
  named : ∀ k e, s.get? k = some e → Store.Under above k → e.name = rootName k

theorem Labelled.under (labelled : Labelled s) (above : Text) : LabelledUnder s above :=
  ⟨fun k e stored _ => labelled.keys k e stored, fun k e stored _ => labelled.named k e stored⟩

/-- What is below a directory is below the directories above it. -/
theorem under_of_under_append (names : Names (as ++ bs)) (below : Store.Under (ofReduced true (as ++ bs)) k) :
    Store.Under (ofReduced true as) k := by
  by_cases direct : bs = []
  · rwa [direct, List.append_nil] at below
  · obtain ⟨-, rest, rfl⟩ := below
    have lower := branch_append (names_append.1 names).1 direct
    have upper : Store.branch (ofReduced true as) <+: Store.branch (ofReduced true (as ++ bs)) := by
      rw [branch_ofReduced names (by simp [direct]), lower, List.append_assoc]
      exact List.prefix_append ..
    refine ⟨fun same => ?_, upper.trans (List.prefix_append ..)⟩
    have long := congrArg List.length same
    have first := (Store.isPrefix_branch (ofReduced true as)).length_le
    rw [branch_ofReduced names (by simp [direct]), lower] at long
    simp only [List.length_append, List.length_singleton] at long
    omega

theorem LabelledUnder.down (labelled : LabelledUnder s (ofReduced true as)) (names : Names (as ++ bs)) :
    LabelledUnder s (ofReduced true (as ++ bs)) :=
  ⟨fun k e stored below => labelled.keys k e stored (under_of_under_append names below),
    fun k e stored below => labelled.named k e stored (under_of_under_append names below)⟩

theorem LabelledUnder.behind (labelled : LabelledUnder s (ofReduced true (as ++ bs))) (names : Names (as ++ cs))
    (behind : bs <+: cs) : LabelledUnder s (ofReduced true (as ++ cs)) := by
  obtain ⟨more, rfl⟩ := behind
  rw [← List.append_assoc] at names ⊢
  exact labelled.down names

/-- Names joined without a slash are one name. -/
theorem singleton_of_no_slash (names : Names cs) (hne : cs ≠ []) (plain : .char '/' ∉ joined cs) : ∃ c, cs = [c] :=
  ⟨joined cs, by rw [← elements_of_no_slash plain, names.elements_joined hne]⟩

theorem mem_children (sound : s.Sound) (labelled : LabelledUnder s (ofReduced true as)) (ha : Names as) :
    k ∈ s.children (ofReduced true as) ↔
      (s.get? (ofReduced true as)).isSome ∧ (s.get? k).isSome ∧
        ∃ c, Names (as ++ [c]) ∧ k = ofReduced true (as ++ [c]) := by
  rw [Store.children, (Store.select_spec sound _ _).2]
  have behind {cs : List Text} (hne : cs ≠ []) :
      (ofReduced true (as ++ cs)).drop (Store.branch (ofReduced true as)).length = joined cs := by
    rw [branch_append ha hne, List.drop_left]
  constructor
  · rintro ⟨above, stored, under, plain⟩
    obtain ⟨e, there⟩ := Option.isSome_iff_exists.1 stored
    obtain ⟨ks, hk, rfl⟩ := isKey_iff.1 (labelled.keys k e there under)
    obtain ⟨cs, hne, rfl⟩ := (under_iff ha hk).1 under
    have slashless : .char '/' ∉ joined cs := by simpa [behind hne] using plain
    obtain ⟨c, rfl⟩ := singleton_of_no_slash (names_append.1 hk).2 hne slashless
    exact ⟨above, stored, c, hk, rfl⟩
  · rintro ⟨above, stored, c, names, rfl⟩
    have slashless : .char '/' ∉ c := (names_append.1 names).2.no_slash c (List.mem_singleton_self c)
    refine ⟨above, stored, (under_iff ha names).2 ⟨[c], by simp, rfl⟩, ?_⟩
    rw [behind (by simp), joined_singleton]
    simpa using slashless

/-- A stored directory lists the entries stored under one name more, by increasing key. -/
theorem lists (sound : s.Sound) (labelled : LabelledUnder s (ofReduced true (as ++ bs))) (names : Names (as ++ bs))
    (there : IsDirectory s (ofReduced true (as ++ bs))) :
    ∃ rows, list (ofReduced true as) s (ofReduced false bs) = .ok rows ∧
      rows.Pairwise (fun l l' => l.1 < l'.1) ∧ ∀ k e, (k, e) ∈ rows ↔
        ∃ c, Names (as ++ bs ++ [c]) ∧ k = ofReduced true (as ++ bs ++ [c]) ∧ s.get? k = some e := by
  obtain ⟨d, stored, kind⟩ := there
  obtain ⟨ha, hb⟩ := names_append.1 names
  have found : locate (ofReduced true as) s (ofReduced false bs) = .ok (ofReduced true (as ++ bs), d) := by
    have key := key_ofReduced ha hb
    exact locate_eq_ok.2 ⟨isValid_iff_names.2 ⟨bs, hb, rfl⟩, key, by rw [key, stored]⟩
  refine ⟨(s.children (ofReduced true (as ++ bs))).filterMap fun c => (s.get? c).map (c, ·), ?_, ?_, fun k e => ?_⟩
  · simp only [list, found, kind, if_true]
  · have sorted : (s.children (ofReduced true (as ++ bs))).Pairwise (· < ·) := (Store.select_spec sound _ _).1
    refine sorted.filterMap _ fun k k' before l told l' told' => ?_
    obtain ⟨-, -, rfl⟩ := Option.map_eq_some_iff.1 told
    obtain ⟨-, -, rfl⟩ := Option.map_eq_some_iff.1 told'
    exact before
  simp only [List.mem_filterMap, mem_children sound labelled names, Option.map_eq_some_iff, Prod.mk.injEq]
  constructor
  · rintro ⟨k, ⟨-, -, c, row, rfl⟩, e, there, rfl, rfl⟩
    exact ⟨c, row, rfl, there⟩
  · rintro ⟨c, row, rfl, there⟩
    exact ⟨_, ⟨by rw [stored]; rfl, by rw [there]; rfl, c, row, rfl⟩, e, there, rfl, rfl⟩

/-- What is said of an entry that stands under its name in the directory of a row. -/
structure IsChild (s : Store Entry) (row : List Text) (child : Info) : Prop where
  names : Names (row ++ [child.name])
  stored : ∃ e, s.get? (ofReduced true (row ++ [child.name])) = some e ∧ child.directory = e.directory

/-- The listing of a directory tells just the entries in it, by increasing name. -/
theorem listing_spec {w : World} {n : Nat} (sound : (w.volume n).store.Sound)
    (labelled : LabelledUnder (w.volume n).store (ofReduced true (as ++ bs))) (names : Names (as ++ bs))
    (there : IsDirectory (w.volume n).store (ofReduced true (as ++ bs))) :
    ∃ children, listing ⟨n, ofReduced true as⟩ (ofReduced false bs) w = .ok children ∧
      children.Pairwise (fun child child' => child.name < child'.name) ∧
      ∀ c child, (child ∈ children ∧ child.name = c) ↔ Names (as ++ bs ++ [c]) ∧
        ∃ e, (w.volume n).store.get? (ofReduced true (as ++ bs ++ [c])) = some e ∧
          describe ⟨n, ofReduced true as⟩ (ofReduced true (as ++ bs ++ [c]), e) w = child := by
  obtain ⟨rows, listed, sorted, mem_rows⟩ := lists sound labelled names there
  have named {k c e} (longer : Names (as ++ bs ++ [c])) (stored : (w.volume n).store.get? k = some e)
      (key : k = ofReduced true (as ++ bs ++ [c])) : (describe ⟨n, ofReduced true as⟩ (k, e) w).name = c := by
    have below := (under_iff names longer).2 ⟨[c], List.cons_ne_nil c [], rfl⟩
    have told := labelled.named k e stored (key ▸ below)
    rwa [key, rootName_ofReduced (names_append.1 longer).2] at told
  refine ⟨rows.map fun l => describe ⟨n, ofReduced true as⟩ l w, by rw [listing, listed]; rfl, ?_, ?_⟩
  · rw [List.pairwise_map]
    refine sorted.imp_of_mem ?_
    rintro ⟨k, e⟩ ⟨k', e'⟩ member member' before
    obtain ⟨c, longer, key, stored⟩ := (mem_rows k e).1 member
    obtain ⟨c', longer', key', stored'⟩ := (mem_rows k' e').1 member'
    rw [named longer stored key, named longer' stored' key']
    dsimp only at before
    rw [key, key', branch_append names (List.cons_ne_nil c []), branch_append names (List.cons_ne_nil c' []),
      Text.append_lt_append_iff, joined_singleton, joined_singleton] at before
    exact before
  · intro c child
    constructor
    · rintro ⟨member, rfl⟩
      obtain ⟨⟨k, e⟩, row, rfl⟩ := List.mem_map.1 member
      obtain ⟨c, longer, rfl, stored⟩ := (mem_rows k e).1 row
      rw [named longer stored rfl]
      exact ⟨longer, e, stored, rfl⟩
    · rintro ⟨longer, e, stored, rfl⟩
      exact ⟨List.mem_map_of_mem ((mem_rows _ e).2 ⟨c, longer, rfl, stored⟩), named longer stored rfl⟩

/-- What a walk sees of a listing: the entries of the directory and no others, each with its kind. -/
theorem listing_children {w : World} {n : Nat} (sound : (w.volume n).store.Sound)
    (labelled : Labelled (w.volume n).store) (names : Names (as ++ bs))
    (there : IsDirectory (w.volume n).store (ofReduced true (as ++ bs))) :
    ∃ children, listing ⟨n, ofReduced true as⟩ (ofReduced false bs) w = .ok children ∧
      (∀ child ∈ children, IsChild (w.volume n).store (as ++ bs) child) ∧
      ∀ c, Names (as ++ bs ++ [c]) → ((w.volume n).store.get? (ofReduced true (as ++ bs ++ [c]))).isSome = true →
        ∃ child ∈ children, child.name = c := by
  obtain ⟨children, listed, -, mem_children⟩ := listing_spec sound (labelled.under _) names there
  refine ⟨children, listed, fun child member => ?_, fun c longer present => ?_⟩
  · obtain ⟨longer, e, stored, told⟩ := (mem_children child.name child).1 ⟨member, rfl⟩
    exact ⟨longer, e, stored, by rw [← told]; rfl⟩
  · obtain ⟨e, stored⟩ := Option.isSome_iff_exists.1 present
    exact ⟨_, (mem_children c _).2 ⟨longer, e, stored, rfl⟩⟩

end Vfs.Memory
