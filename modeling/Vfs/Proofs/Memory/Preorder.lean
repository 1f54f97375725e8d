import Vfs.Proofs.Memory.Atomic
import Vfs.Proofs.Memory.Walk

/-!
# The order of a walk

A walk tells a directory before what is in it, and one entry with all that is below it before the next. `preorder`
lists the rows of a store in that order, down to some level. It is the order of the rows by their elements
(`sorted_preorder`), so that every row stands once, each one behind the row of its directory (`preorder_split`),
and with levels to spare no row that is stored below the first is left out (`mem_preorder_iff`).
-/

namespace Vfs.Memory
set_option autoImplicit false
open Vfs.Path

variable {s : Store Entry} {as bs cs : List Text} {c : Text} {e : Entry} {depth : Nat}

/-- The names of what is stored directly below a key, in the order it is listed. -/
def childNames (s : Store Entry) (k : Text) : List Text :=
  (s.children k).filterMap fun c => (s.get? c).map (·.name)

/-- The rows from one down to some level, in the order of a walk. -/
def preorder (s : Store Entry) (as : List Text) : Nat → List Text → List (List Text)
  | 0, _ => []
  | depth + 1, bs =>
    bs :: if IsDirectory s (ofReduced true (as ++ bs)) then
      (childNames s (ofReduced true (as ++ bs))).flatMap fun c => preorder s as depth (bs ++ [c])
    else []

/-- Every row has the row it extends by a name among some rows or in front of it. -/
def ParentsFirst (seen : List (List Text)) : List (List Text) → Prop
  | [] => True
  | row :: rest => (∃ p c, row = p ++ [c] ∧ p ∈ seen) ∧ ParentsFirst (seen ++ [row]) rest

namespace ParentsFirst

variable {seen seen' rows rows' : List (List Text)}

theorem mono (first : ParentsFirst seen rows) (more : seen ⊆ seen') : ParentsFirst seen' rows := by
  induction rows generalizing seen seen' with
  | nil => trivial
  | cons row rest ih =>
    obtain ⟨⟨p, c, split, member⟩, behind⟩ := first
    refine ⟨⟨p, c, split, more member⟩, ih behind fun x inside => ?_⟩
    rcases List.mem_append.1 inside with before | last
    · exact List.mem_append_left _ (more before)
    · exact List.mem_append_right _ last

theorem append (first : ParentsFirst seen rows) (second : ParentsFirst seen rows') :
    ParentsFirst seen (rows ++ rows') := by
  induction rows generalizing seen with
  | nil => exact second
  | cons row rest ih =>
    obtain ⟨parent, behind⟩ := first
    exact ⟨parent, ih behind (second.mono (List.subset_append_left ..))⟩

theorem flatMap {α : Type} {l : List α} {f : α → List (List Text)} (each : ∀ a ∈ l, ParentsFirst seen (f a)) :
    ParentsFirst seen (l.flatMap f) := by
  induction l with
  | nil => trivial
  | cons a l ih =>
    rw [List.flatMap_cons]
    exact (each a (List.mem_cons_self ..)).append (ih fun b member => each b (List.mem_cons_of_mem a member))

theorem split {front back : List (List Text)} {row : List Text} (first : ParentsFirst seen (front ++ row :: back)) :
    ∃ p c, row = p ++ [c] ∧ p ∈ seen ++ front := by
  induction front generalizing seen with
  | nil =>
    obtain ⟨⟨p, c, split, member⟩, -⟩ := first
    exact ⟨p, c, split, List.mem_append_left _ member⟩
  | cons x front ih =>
    obtain ⟨-, behind⟩ := first
    obtain ⟨p, c, split, member⟩ := ih behind
    rw [List.append_assoc] at member
    exact ⟨p, c, split, member⟩

end ParentsFirst

/-! ## Rows of any store -/

theorem isPrefix_of_mem_preorder (member : cs ∈ preorder s as depth bs) : bs <+: cs := by
  induction depth generalizing bs with
  | zero => exact absurd member List.not_mem_nil
  | succ depth ih =>
    rw [preorder] at member
    rcases List.mem_cons.1 member with rfl | later
    · exact List.prefix_refl _
    · split at later
      · obtain ⟨c, -, inside⟩ := List.mem_flatMap.1 later
        exact (List.prefix_append bs [c]).trans (ih inside)
      · exact absurd later List.not_mem_nil

theorem parentsFirst_preorder {seen : List (List Text)} (member : bs ∈ seen) (c : Text) :
    ParentsFirst seen (preorder s as depth (bs ++ [c])) := by
  induction depth generalizing seen bs c with
  | zero => trivial
  | succ depth ih =>
    rw [preorder]
    refine ⟨⟨bs, c, rfl, member⟩, ?_⟩
    split
    · exact .flatMap fun c' _ => ih (List.mem_append_right _ (List.mem_singleton_self _)) c'
    · trivial

/-! ## Rows of a labelled store -/

section
variable (sound : s.Sound) (labelled : LabelledUnder s (ofReduced true as))
include sound labelled

theorem childName_iff (ha : Names as) {k : Text} (member : k ∈ s.children (ofReduced true as)) :
    (s.get? k).map (·.name) = some c ↔ Names (as ++ [c]) ∧ k = ofReduced true (as ++ [c]) := by
  obtain ⟨-, stored, c', names, rfl⟩ := (mem_children sound labelled ha).1 member
  obtain ⟨e, there⟩ := Option.isSome_iff_exists.1 stored
  have named := labelled.named _ e there ((under_iff ha names).2 ⟨[c'], List.cons_ne_nil c' [], rfl⟩)
  rw [rootName_ofReduced (names_append.1 names).2] at named
  rw [there, Option.map_some, Option.some.injEq, named]
  constructor
  · rintro rfl
    exact ⟨names, rfl⟩
  · rintro ⟨names', same⟩
    exact List.singleton_inj.1 (List.append_cancel_left (ofReduced_inj names names' same))

theorem mem_childNames (ha : Names as) :
    c ∈ childNames s (ofReduced true as) ↔ (s.get? (ofReduced true as)).isSome = true ∧
      Names (as ++ [c]) ∧ (s.get? (ofReduced true (as ++ [c]))).isSome = true := by
  rw [childNames, List.mem_filterMap]
  constructor
  · rintro ⟨k, member, called⟩
    obtain ⟨names, rfl⟩ := (childName_iff sound labelled ha member).1 called
    obtain ⟨above, stored, -⟩ := (mem_children sound labelled ha).1 member
    exact ⟨above, names, stored⟩
  · rintro ⟨above, names, stored⟩
    have member := (mem_children sound labelled ha).2 ⟨above, stored, c, names, rfl⟩
    exact ⟨_, member, (childName_iff sound labelled ha member).2 ⟨names, rfl⟩⟩

/-- The names of what is below a key increase. -/
theorem sorted_childNames (ha : Names as) : (childNames s (ofReduced true as)).Pairwise (· < ·) := by
  have sorted : (s.children (ofReduced true as)).Pairwise (· < ·) := (Store.select_spec sound _ _).1
  rw [childNames, List.pairwise_filterMap]
  refine sorted.imp_of_mem fun {k k'} member member' before c called c' called' => ?_
  obtain ⟨-, rfl⟩ := (childName_iff sound labelled ha member).1 called
  obtain ⟨-, rfl⟩ := (childName_iff sound labelled ha member').1 called'
  rwa [branch_append ha (List.cons_ne_nil c []), branch_append ha (List.cons_ne_nil c' []),
    Text.append_lt_append_iff, joined_singleton, joined_singleton] at before

end

section
variable (sound : s.Sound) (labelled : LabelledUnder s (ofReduced true (as ++ bs)))
include sound labelled

/-- Every row of the order is stored, if the first is. -/
theorem stored_of_mem_preorder (names : Names (as ++ bs))
    (there : (s.get? (ofReduced true (as ++ bs))).isSome = true) (member : cs ∈ preorder s as depth bs) :
    Names (as ++ cs) ∧ (s.get? (ofReduced true (as ++ cs))).isSome = true := by
  induction depth generalizing bs with
  | zero => exact absurd member List.not_mem_nil
  | succ depth ih =>
    rw [preorder] at member
    rcases List.mem_cons.1 member with rfl | later
    · exact ⟨names, there⟩
    · split at later
      · obtain ⟨c, child, inside⟩ := List.mem_flatMap.1 later
        obtain ⟨-, longer, stored⟩ := (mem_childNames sound labelled names).1 child
        rw [List.append_assoc] at longer stored
        exact ih (labelled.behind longer (List.prefix_append ..)) longer stored inside
      · exact absurd later List.not_mem_nil

/-- **The rows stand in the order of their elements**: the first difference decides, and a beginning comes first. -/
theorem sorted_preorder (names : Names (as ++ bs)) : (preorder s as depth bs).Pairwise (· < ·) := by
  induction depth generalizing bs with
  | zero => exact List.Pairwise.nil
  | succ depth ih =>
    rw [preorder, List.pairwise_cons]
    split
    · constructor
      · intro row later
        obtain ⟨c, -, inside⟩ := List.mem_flatMap.1 later
        obtain ⟨back, rfl⟩ := isPrefix_of_mem_preorder inside
        have longer : bs ++ [] < bs ++ c :: back := List.append_left_lt (List.nil_lt_cons c back)
        rwa [List.append_nil, List.append_cons] at longer
      · rw [List.pairwise_flatMap]
        constructor
        · intro c child
          have longer := ((mem_childNames sound labelled names).1 child).2.1
          rw [List.append_assoc] at longer
          exact ih (labelled.behind longer (List.prefix_append ..)) longer
        · refine (sorted_childNames sound labelled names).imp fun {c c'} before row inside row' inside' => ?_
          obtain ⟨back, rfl⟩ := isPrefix_of_mem_preorder inside
          obtain ⟨back', rfl⟩ := isPrefix_of_mem_preorder inside'
          rw [List.append_assoc, List.append_assoc]
          exact List.append_left_lt (.rel before)
    · exact ⟨fun _ never => absurd never List.not_mem_nil, List.Pairwise.nil⟩

theorem nodup_preorder (names : Names (as ++ bs)) : (preorder s as depth bs).Nodup := by
  refine (sorted_preorder sound labelled names).imp fun {row row'} before (same : row = row') => ?_
  rw [same] at before
  exact List.lt_irrefl row' before

/-- The rows before one hold neither itself nor, but for the first, miss its directory. -/
theorem preorder_split (names : Names (as ++ bs)) {front back : List (List Text)} {row : List Text}
    (order : preorder s as depth bs = front ++ row :: back) :
    row ∉ front ∧ (front = [] ∧ row = bs ∨ ∃ p c, row = p ++ [c] ∧ p ∈ front) := by
  refine ⟨fun before => ?_, ?_⟩
  · have once : (preorder s as depth bs).Nodup := nodup_preorder sound labelled names
    rw [order] at once
    exact (List.nodup_append.1 once).2.2 row before row (List.mem_cons_self ..) rfl
  · cases depth with
    | zero => exact absurd order.symm (by simp [preorder])
    | succ depth =>
      rw [preorder] at order
      cases front with
      | nil => exact .inl ⟨rfl, (List.cons.inj order).1.symm⟩
      | cons first front =>
        obtain ⟨rfl, rest⟩ := List.cons.inj order
        have parents : ParentsFirst [bs] (front ++ row :: back) := by
          change _ = front ++ row :: back at rest
          rw [← rest]
          split
          · exact .flatMap fun c _ => parentsFirst_preorder (List.mem_singleton_self bs) c
          · trivial
        exact .inr parents.split

/-- **The order has every row that is stored below the first**, where no key is longer than the levels reach. -/
theorem mem_preorder_iff (linked : Linked s) (names : Names (as ++ bs))
    (there : (s.get? (ofReduced true (as ++ bs))).isSome = true)
    (deep : ∀ k e, s.get? k = some e → k.length < depth + (ofReduced true (as ++ bs)).length) :
    cs ∈ preorder s as depth bs ↔
      bs <+: cs ∧ Names (as ++ cs) ∧ (s.get? (ofReduced true (as ++ cs))).isSome = true := by
  constructor
  · exact fun member => ⟨isPrefix_of_mem_preorder member, stored_of_mem_preorder sound labelled names there member⟩
  · rintro ⟨⟨ds, rfl⟩, longer, stored⟩
    induction depth generalizing bs ds with
    | zero =>
      obtain ⟨e, found⟩ := Option.isSome_iff_exists.1 there
      have short := deep _ e found
      omega
    | succ depth ih =>
      rw [preorder]
      cases ds with
      | nil => exact List.mem_cons.2 (.inl (List.append_nil bs))
      | cons d ds =>
        have further : bs ++ d :: ds = bs ++ [d] ++ ds := by rw [List.append_assoc]; rfl
        rw [further] at longer stored ⊢
        have down : Names (as ++ (bs ++ [d])) := by
          rw [← List.append_assoc] at longer
          exact (names_append.1 longer).1
        have inner : (s.get? (ofReduced true (as ++ (bs ++ [d])))).isSome = true := by
          rw [← List.append_assoc] at longer stored
          by_contra missing
          rw [linked.bare (Option.not_isSome_iff_eq_none.1 missing) longer] at stored
          cases stored
        have below := labelled.behind down (List.prefix_append ..)
        obtain ⟨e, found⟩ := Option.isSome_iff_exists.1 inner
        rw [← List.append_assoc] at down found
        have growth := length_snoc down
        rw [List.append_assoc] at growth
        rw [if_pos (linked.above down (List.cons_ne_nil d []) found)]
        refine List.mem_cons_of_mem _ (List.mem_flatMap.2 ⟨d, ?_, ?_⟩)
        · exact (mem_childNames sound labelled names).2 ⟨there, down, by rw [found, Option.isSome_some]⟩
        · rw [List.append_assoc] at down
          refine ih below down inner (fun k e stored => ?_) ds longer stored
          have short := deep k e stored
          omega

/-- More levels than are needed make no difference. -/
theorem preorder_deep {depth' : Nat} (names : Names (as ++ bs))
    (there : (s.get? (ofReduced true (as ++ bs))).isSome = true)
    (deep : ∀ k e, s.get? k = some e → k.length < depth + (ofReduced true (as ++ bs)).length)
    (deep' : ∀ k e, s.get? k = some e → k.length < depth' + (ofReduced true (as ++ bs)).length) :
    preorder s as depth bs = preorder s as depth' bs := by
  induction depth generalizing bs depth' with
  | zero =>
    obtain ⟨e, stored⟩ := Option.isSome_iff_exists.1 there
    have short := deep _ e stored
    omega
  | succ depth ih =>
    cases depth' with
    | zero =>
      obtain ⟨e, stored⟩ := Option.isSome_iff_exists.1 there
      have short := deep' _ e stored
      omega
    | succ depth' =>
      rw [preorder, preorder]
      congr 1
      split
      · refine List.flatMap_congr fun c child => ?_
        obtain ⟨-, longer, stored⟩ := (mem_childNames sound labelled names).1 child
        have growth := length_snoc longer
        rw [List.append_assoc] at longer stored growth
        refine ih (labelled.behind longer (List.prefix_append ..)) longer stored (fun k e present => ?_)
          fun k e present => ?_
        · have short := deep k e present
          omega
        · have short := deep' k e present
          omega
      · rfl

end

/-- The rows of a walk of a view from a row down, in their order. -/
def walkOrder (w : World) (n : Nat) (as rs : List Text) : List (List Text) :=
  preorder (w.volume n).store as (Filesystem.spareLevels + w.nesting) rs

/-- The order begins with the row that the walk begins with. -/
theorem walkOrder_cons (w : World) (n : Nat) (as rs : List Text) : ∃ rest, walkOrder w n as rs = rs :: rest := by
  have deep : Filesystem.spareLevels + w.nesting = (Filesystem.spareLevels - 1 + w.nesting) + 1 := by
    have spare : 0 < Filesystem.spareLevels := by decide
    omega
  rw [walkOrder, deep, preorder]
  exact ⟨_, rfl⟩

section
variable {w w' : World} {n : Nat} {rs : List Text} (sound : (w.volume n).store.Sound)
  (labelled : LabelledUnder (w.volume n).store (ofReduced true (as ++ rs))) (names : Names (as ++ rs))
  (there : ((w.volume n).store.get? (ofReduced true (as ++ rs))).isSome = true)
include sound

/-- A walk has levels to spare. -/
theorem length_lt_spare {k : Text} (stored : (w.volume n).store.get? k = some e) (more : Text) :
    k.length < Filesystem.spareLevels + w.nesting + more.length := by
  have short := length_le_nesting sound stored
  have spare : 0 < Filesystem.spareLevels := by decide
  omega

include labelled names there

/-- The order is that of the volume, whatever else is in the world. -/
theorem walkOrder_eq (same : w'.volume n = w.volume n) :
    preorder (w.volume n).store as (Filesystem.spareLevels + w'.nesting) rs = walkOrder w n as rs := by
  have sound' : (w'.volume n).store.Sound := same ▸ sound
  refine preorder_deep sound labelled names there (fun k e stored => ?_) fun k e stored =>
    length_lt_spare sound stored _
  rw [← same] at stored
  exact length_lt_spare sound' stored _

theorem mem_walkOrder (linked : Linked (w.volume n).store) {cs : List Text} :
    cs ∈ walkOrder w n as rs ↔
      rs <+: cs ∧ Names (as ++ cs) ∧ ((w.volume n).store.get? (ofReduced true (as ++ cs))).isSome = true :=
  mem_preorder_iff sound labelled linked names there fun _ _ stored => length_lt_spare sound stored _

end

end Vfs.Memory
