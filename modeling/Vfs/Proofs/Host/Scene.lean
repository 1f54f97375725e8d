import Vfs.Proofs.Host.Route
import Vfs.Proofs.Scene
import Vfs.Proofs.Store.Contents

/-!
# What is seen of a directory of a host

What stands at and below a directory of a host shows a scene (`Depicts`), as long as all directories there are
free and the files apart. A tree that differs in one row, or lacks a row and all below it, shows the scene with
that put (`put_of`) or cut (`cut_of`), if it touches nothing else.
-/

namespace Vfs

/-- Pairs kept by their keys are found as before. -/
theorem Assoc.get?_filter {κ α : Type} [BEq κ] [LawfulBEq κ] (m : Assoc κ α) (keep : κ → Bool) (k : κ) :
    (Assoc.mk (m.pairs.filter fun p => keep p.1)).get? k = if keep k then m.get? k else none := by
  unfold Assoc.get?
  induction m.pairs with
  | nil => simp [Assoc.lookup]
  | cons p rest ih =>
    obtain ⟨j, a⟩ := p
    dsimp only at ih ⊢
    by_cases kept : keep j = true
    · have first : ((j, a) :: rest).filter (fun p => keep p.1) = (j, a) :: rest.filter fun p => keep p.1 :=
        List.filter_cons_of_pos kept
      rw [first, Assoc.lookup, Assoc.lookup, ih]
      by_cases same : j = k
      · subst same
        simp [kept]
      · simp [same]
    · have first : ((j, a) :: rest).filter (fun p => keep p.1) = rest.filter fun p => keep p.1 :=
        List.filter_cons_of_neg kept
      rw [first, ih, Assoc.lookup]
      by_cases same : j = k
      · subst same
        simp [kept]
      · simp [same]

end Vfs

namespace Vfs.Host
set_option autoImplicit false
open Vfs.Path

variable {t t' : Tree} {S : Scene} {dir : Text} {row row' es es' : List Text} {e : Text} {node : Node} {item : Item}
  {data : Bytes}

namespace Tree

/-! ## Rows of a tree -/

/-- Each row stands once, and under its stamp. -/
structure Tidy (t : Tree) : Prop where
  stamps : ∀ n ∈ t.nodes.pairs, n.1 = stamped n.1.2
  distinct : (t.nodes.pairs.map (·.1)).Nodup

theorem node?_put (hne : row ≠ []) (node : Node) (row' : List Text) :
    (t.put row node).node? row' = if row' = row then some node else t.node? row' := by
  rw [node?, node?, put, Assoc.get?_insert]
  by_cases top : row' = []
  · rw [if_pos top, if_pos top, if_neg (top ▸ Ne.symm hne)]
  · rw [if_neg top, if_neg top]
    by_cases same : row' = row
    · simp [same]
    · have apart : stamped row ≠ stamped row' := fun h => same (stamped_inj.1 h).symm
      simp [same, apart]

theorem node?_erase (hne : row ≠ []) (row' : List Text) :
    (t.erase row).node? row' = if row' = row then none else t.node? row' := by
  rw [node?, node?, erase, Assoc.get?_erase]
  by_cases top : row' = []
  · rw [if_pos top, if_pos top, if_neg (top ▸ Ne.symm hne)]
  · rw [if_neg top, if_neg top]
    by_cases same : row' = row
    · simp [same]
    · have apart : stamped row' ≠ stamped row := fun h => same (stamped_inj.1 h)
      simp [same, apart]

theorem node?_emptied (row row' : List Text) :
    (t.emptied row).node? row' = if row <+: row' ∧ row' ≠ row then none else t.node? row' := by
  have kept := Assoc.get?_filter t.nodes (fun k => k.2 = row || !row.isPrefixOf k.2) (stamped row')
  rw [node?, node?]
  by_cases top : row' = []
  · subst top
    rw [if_pos rfl, if_pos rfl, if_neg]
    rintro ⟨below, other⟩
    exact other (List.prefix_nil.1 below).symm
  · rw [if_neg top, if_neg top, emptied]
    refine kept.trans ?_
    have own : (stamped row').2 = row' := rfl
    simp only [own]
    by_cases below : row <+: row' ∧ row' ≠ row
    · rw [if_pos below, if_neg]
      simp [below.2, below.1]
    · rw [if_neg below, if_pos]
      rw [not_and_not_right] at below
      by_cases behind : row <+: row'
      · simp [below behind]
      · have beside : row.isPrefixOf row' = false :=
          Bool.eq_false_iff.2 fun found => behind (List.isPrefixOf_iff_prefix.1 found)
        simp [beside]

theorem Tidy.put (tidy : t.Tidy) (row : List Text) (node : Node) : (t.put row node).Tidy where
  stamps := by
    intro n member
    rcases List.mem_cons.1 member with rfl | kept
    · rfl
    · exact tidy.stamps n (List.mem_filter.1 kept).1
  distinct := Assoc.nodup_insert tidy.distinct _ _

theorem Tidy.part (tidy : t.Tidy) (part : t'.nodes.pairs.Sublist t.nodes.pairs) : t'.Tidy where
  stamps := fun n member => tidy.stamps n (part.subset member)
  distinct := tidy.distinct.sublist (part.map _)

theorem node?_of_ne_nil (hne : row ≠ []) : t.node? row = t.nodes.get? (stamped row) := if_neg hne

/-- A row is told by its last name where it is one name longer. -/
theorem told_iff {k : Nat × List Text} (stamp : k = stamped k.2) :
    (if k.1 = row.length + 1 && row.isPrefixOf k.2 then k.2.getLast? else none) = some e ↔
      k = stamped (row ++ [e]) := by
  constructor
  · intro told
    split at told
    · next place =>
      obtain ⟨length, behind⟩ := Bool.and_eq_true_iff.1 place
      obtain ⟨back, whole⟩ := List.isPrefixOf_iff_prefix.1 behind
      have count := of_decide_eq_true length
      rw [stamp, stamped] at count
      dsimp only at count
      rw [← whole, List.length_append] at count
      have single : back.length = 1 := by omega
      obtain ⟨x, rfl⟩ := List.length_eq_one_iff.1 single
      rw [← whole, List.getLast?_concat] at told
      rw [stamp, ← whole, Option.some.inj told]
    · cases told
  · rintro rfl
    simp [stamped]

theorem mem_names (tidy : t.Tidy) : e ∈ t.names row ↔ t.node? (row ++ [e]) ≠ none := by
  have longer : row ++ [e] ≠ [] := by simp
  rw [node?_of_ne_nil longer, ← Option.isSome_iff_ne_none, Assoc.isSome_get?_iff, names, List.mem_filterMap,
    List.mem_map]
  exact exists_congr fun n => and_congr_right fun member => told_iff (tidy.stamps n member)

theorem nodup_names (tidy : t.Tidy) (row : List Text) : (t.names row).Nodup := by
  have distinct : t.nodes.pairs.Pairwise fun n n' => n.1 ≠ n'.1 := List.pairwise_map.1 tidy.distinct
  rw [List.Nodup, names, List.pairwise_filterMap]
  apply distinct.imp_of_mem
  intro n n' member member' apart e told e' told' same
  subst same
  exact apart (((told_iff (tidy.stamps n member)).1 told).trans ((told_iff (tidy.stamps n' member')).1 told').symm)

/-! ## Scenes of a tree -/

/-- A node is what the scene has: a free directory, or a file with the content. -/
def Shown (t : Tree) : Option Node → Option Item → Prop
  | none, none => True
  | some (.directory word), some .directory => t.Free word
  | some (.file number), some (.file data) => number < t.contents.size ∧ t.content number = data
  | _, _ => False

theorem Free.of_privileged {word : Nat} (free : t.Free word) (same : t'.privileged = t.privileged) : t'.Free word where
  allows := by
    intro access
    have allowed := free.allows access
    rw [Tree.allows] at allowed ⊢
    rwa [same]
  kind := free.kind
  small := free.small

theorem Shown.isDirectory (shown : t.Shown (some node) (some .directory)) :
    ∃ word, node = .directory word ∧ t.Free word := by
  cases node with
  | directory word => exact ⟨word, rfl, shown⟩
  | file number => exact shown.elim

theorem Shown.isFile (shown : t.Shown (some node) (some (.file data))) :
    ∃ number, node = .file number ∧ number < t.contents.size ∧ t.content number = data := by
  cases node with
  | directory word => exact shown.elim
  | file number => exact ⟨number, rfl, shown⟩

/-- What a node is shown as depends on the tree in the content of its file only. -/
theorem Shown.of_same {found : Option Node} {there : Option Item} (shown : t.Shown found there)
    (same : t'.privileged = t.privileged)
    (kept : ∀ number, found = some (.file number) →
      number < t'.contents.size ∧ t'.content number = t.content number) : t'.Shown found there := by
  unfold Shown at shown ⊢
  split at shown
  · trivial
  · exact Free.of_privileged shown same
  · next number data =>
    obtain ⟨there, content⟩ := kept number rfl
    exact ⟨there, content.trans shown.2⟩
  · exact shown.elim

end Tree

/-- A tree shows a scene at and below a directory. -/
structure Depicts (dir : Text) (t : Tree) (S : Scene) : Prop where
  proper : rowOf dir ≠ []
  tidy : t.Tidy
  ground : t.OpenAbove (rowOf dir)
  shows : ∀ es, t.Shown (t.node? (rowOf dir ++ es)) (S es)
  apart : ∀ es es' number, t.node? (rowOf dir ++ es) = some (.file number) →
    t.node? (rowOf dir ++ es') = some (.file number) → es = es'
  fits : ∀ es, S es ≠ none → Fits dir es

namespace Depicts

variable (depicts : Depicts dir t S)
include depicts

theorem missing : t.node? (rowOf dir ++ es) = none ↔ S es = none := by
  have shown := depicts.shows es
  unfold Tree.Shown at shown
  split at shown
  · next h h' => exact iff_of_true h h'
  · next h h' => rw [h, h']; exact iff_of_false (Option.some_ne_none _) (Option.some_ne_none _)
  · next h h' => rw [h, h']; exact iff_of_false (Option.some_ne_none _) (Option.some_ne_none _)
  · exact shown.elim

/-- What the scene has is in the tree. -/
theorem found (there : S es = some item) :
    ∃ node, t.node? (rowOf dir ++ es) = some node ∧ t.Shown (some node) (some item) := by
  have shown := depicts.shows es
  rw [there] at shown
  cases found : t.node? (rowOf dir ++ es) with
  | none =>
    rw [found] at shown
    exact shown.elim
  | some node =>
    rw [found] at shown
    exact ⟨node, rfl, shown⟩

/-- What is in the tree the scene has. -/
theorem there (found : t.node? (rowOf dir ++ es) = some node) :
    ∃ item, S es = some item ∧ t.Shown (some node) (some item) := by
  have shown := depicts.shows es
  rw [found] at shown
  cases there : S es with
  | none =>
    rw [there] at shown
    cases node with
    | _ => exact shown.elim
  | some item =>
    rw [there] at shown
    exact ⟨item, rfl, shown⟩

theorem isOpen (there : S es = some .directory) : t.Open (rowOf dir ++ es) := by
  obtain ⟨node, found, shown⟩ := depicts.found there
  obtain ⟨word, rfl, free⟩ := shown.isDirectory
  exact ⟨word, found, free⟩

theorem file (there : S es = some (.file data)) : ∃ number, t.node? (rowOf dir ++ es) = some (.file number) ∧
    number < t.contents.size ∧ t.content number = data := by
  obtain ⟨node, found, shown⟩ := depicts.found there
  obtain ⟨number, rfl, inside⟩ := shown.isFile
  exact ⟨number, found, inside⟩

theorem lt_size {number : Nat} (found : t.node? (rowOf dir ++ es) = some (.file number)) :
    number < t.contents.size := by
  obtain ⟨item, -, shown⟩ := depicts.there found
  cases item with
  | directory => exact shown.elim
  | file data => exact shown.1

/-- What the scene has no directory for is none. -/
theorem closed (bare : S es ≠ some .directory) (word : Nat) : t.node? (rowOf dir ++ es) ≠ some (.directory word) := by
  intro found
  obtain ⟨item, there, shown⟩ := depicts.there found
  cases item with
  | directory => exact bare there
  | file data => exact shown.elim

/-- Above what is there every directory is open. -/
theorem openAbove (linked : S.Linked) (there : S es = some item) : t.OpenAbove (rowOf dir ++ es) := by
  have inner {front back : List Text} (split : es = front ++ back) (hne : back ≠ []) :
      t.Open (rowOf dir ++ front) := by
    rw [split] at there
    exact depicts.isOpen (linked.onWay hne (by simp [there]))
  intro front behind other
  obtain ⟨rest, split⟩ := behind
  rcases List.append_eq_append_iff.1 split with ⟨back, whole, rest⟩ | ⟨front', rfl, whole⟩
  · by_cases same : back = []
    · -- The directory itself, above an entry of it.
      rw [same, List.append_nil] at whole
      rw [← whole] at other ⊢
      have top : t.Open (rowOf dir ++ []) := by
        apply inner (List.nil_append es).symm
        rintro rfl
        exact other (List.append_nil _).symm
      rwa [List.append_nil] at top
    · apply depicts.ground front ⟨back, whole.symm⟩
      rintro rfl
      exact same (List.append_right_eq_self.1 whole.symm)
  · apply inner whole
    rintro rfl
    rw [List.append_nil] at whole
    exact other (by rw [whole])

theorem openAbove_snoc (linked : S.Linked) (above : S es = some .directory) (e : Text) :
    t.OpenAbove (rowOf dir ++ (es ++ [e])) := by
  have up := depicts.openAbove linked above
  rw [← List.append_assoc]
  exact Tree.openAbove_snoc up (depicts.isOpen above) e

/-! ## Changes -/

/-- A tree that has another item at one row, and is else as it was, shows the scene with the item put. -/
theorem put_of (fits : Fits dir es) (tidy : t'.Tidy) (node : Node) (same : t'.privileged = t.privileged)
    (nodes : ∀ row, t'.node? row = if row = rowOf dir ++ es then some node else t.node? row)
    (shown : t'.Shown (some node) (some item))
    (contents : ∀ number, number < t.contents.size → node ≠ .file number →
      number < t'.contents.size ∧ t'.content number = t.content number)
    (fresh : ∀ es' number, node = .file number → t.node? (rowOf dir ++ es') = some (.file number) → es' = es) :
    Depicts dir t' (S.put es item) where
  proper := depicts.proper
  tidy := tidy
  ground := by
    intro front behind other
    have apart : front ≠ rowOf dir ++ es := by
      rintro rfl
      have long := behind.length_le
      rw [List.length_append] at long
      exact other (by rw [List.eq_nil_of_length_eq_zero (l := es) (by omega), List.append_nil])
    obtain ⟨word, there, free⟩ := depicts.ground front behind other
    exact ⟨word, by rw [nodes, if_neg apart, there], free.of_privileged same⟩
  shows := by
    intro es'
    rw [nodes, Scene.put]
    by_cases own : es' = es
    · rw [if_pos own, if_pos (by rw [own])]
      exact shown
    · rw [if_neg own, if_neg fun row => own (List.append_cancel_left row)]
      apply (depicts.shows es').of_same same
      intro number found
      exact contents number (depicts.lt_size found) fun same => own (fresh es' number same found)
  apart := by
    intro es₁ es₂ number first second
    rw [nodes] at first second
    by_cases own₁ : es₁ = es
    · by_cases own₂ : es₂ = es
      · rw [own₁, own₂]
      · rw [if_pos (by rw [own₁])] at first
        rw [if_neg fun row => own₂ (List.append_cancel_left row)] at second
        exact absurd (fresh es₂ number (Option.some.inj first) second) own₂
    · rw [if_neg fun row => own₁ (List.append_cancel_left row)] at first
      by_cases own₂ : es₂ = es
      · rw [if_pos (by rw [own₂])] at second
        exact absurd (fresh es₁ number (Option.some.inj second) first) own₁
      · rw [if_neg fun row => own₂ (List.append_cancel_left row)] at second
        exact depicts.apart es₁ es₂ number first second
  fits := by
    intro es' there
    rw [Scene.put] at there
    split at there
    · next own => exact own ▸ fits
    · exact depicts.fits es' there

theorem mkdir (fits : Fits dir es) {word : Nat} (free : t.Free word) :
    Depicts dir (t.put (rowOf dir ++ es) (.directory word)) (S.put es .directory) := by
  have hne : rowOf dir ++ es ≠ [] := by simp [depicts.proper]
  apply depicts.put_of fits (depicts.tidy.put _ _) (.directory word) rfl
  · exact Tree.node?_put hne _
  · exact free.of_privileged rfl
  · exact fun number there _ => ⟨there, rfl⟩
  · intro es' number same
    cases same

/-- A tree without what stands at a row and below shows the scene with that cut. -/
theorem cut_of (tidy : t'.Tidy) (same : t'.privileged = t.privileged) (contents : t'.contents = t.contents)
    (nodes : ∀ row, t'.node? row = if rowOf dir ++ es <+: row then none else t.node? row) :
    Depicts dir t' (S.cut es) where
  proper := depicts.proper
  tidy := tidy
  ground := by
    intro front behind other
    have apart : ¬rowOf dir ++ es <+: front := by
      intro below
      have long := below.length_le
      rw [List.length_append] at long
      apply other
      exact behind.eq_of_length_le (by omega)
    obtain ⟨word, there, free⟩ := depicts.ground front behind other
    exact ⟨word, by rw [nodes, if_neg apart, there], free.of_privileged same⟩
  shows := by
    intro es'
    have inside : rowOf dir ++ es <+: rowOf dir ++ es' ↔ es <+: es' := List.prefix_append_right_inj _
    rw [nodes, Scene.cut]
    by_cases below : es <+: es'
    · rw [if_pos below, if_pos (inside.2 below)]
      trivial
    · rw [if_neg below, if_neg fun found => below (inside.1 found)]
      apply (depicts.shows es').of_same same
      intro number found
      rw [Tree.content, contents]
      exact ⟨depicts.lt_size found, rfl⟩
  apart := by
    have kept {row : List Text} {number : Nat} (found : t'.node? row = some (.file number)) :
        t.node? row = some (.file number) := by
      rw [nodes] at found
      split at found
      · cases found
      · exact found
    exact fun es₁ es₂ number first second => depicts.apart es₁ es₂ number (kept first) (kept second)
  fits := by
    intro es' there
    rw [Scene.cut] at there
    split at there
    · exact absurd rfl there
    · exact depicts.fits es' there

end Depicts

end Vfs.Host
