import Mathlib.Data.List.Basic
import Mathlib.Data.List.Induction
import Mathlib.Data.List.Nodup
import Vfs.Info
import Vfs.Proofs.Path.Names

/-!
# Scenes

A scene is what can be seen of a filesystem from outside: what stands under each row of names, a directory or a
file with its content. It says nothing of how this is kept. Three changes make one scene of another (`filled`,
`put`, `cut`), and where nothing stands but in a directory (`Linked`), they leave it so.
-/

namespace Vfs
set_option autoImplicit false
open Vfs.Path

/-- What stands under a row of names. -/
inductive Item where
  | directory
  | file (data : Bytes)
  deriving DecidableEq, Repr

/-- What stands under each row of names. -/
abbrev Scene := List Text → Option Item

/-- What is said about an entry, whatever object says it. -/
structure Fact where
  name : Text
  directory : Bool
  size : Int
  deriving DecidableEq, Repr

def Info.fact (info : Info) : Fact := ⟨info.name, info.directory, info.size⟩

/-- What is said about an item under its name. -/
def Item.fact (name : Text) : Item → Fact
  | .directory => ⟨name, true, 0⟩
  | .file data => ⟨name, false, data.length⟩

theorem Item.name_fact (name : Text) (item : Item) : (item.fact name).name = name := by
  cases item with
  | directory => rfl
  | file data => rfl

namespace Scene

variable {S : Scene} {es front back row : List Text} {e : Text} {item : Item} {data : Bytes}

/-- Everything stands in a directory under a name that it can be found by, but for the whole, which is a
directory itself if it is there. -/
structure Linked (S : Scene) : Prop where
  names : ∀ es, S es ≠ none → Names es
  above : ∀ es e, S (es ++ [e]) ≠ none → S es = some .directory
  top : ∀ data, S [] ≠ some (.file data)

/-- A file stands on the way, or at its end. -/
def Blocked (S : Scene) (es : List Text) : Prop := ∃ front data, front <+: es ∧ S front = some (.file data)

/-- The scene with the directories on a way that were missing. -/
def filled (S : Scene) (es : List Text) : Scene := fun row =>
  if S row = none ∧ row <+: es then some .directory else S row

/-- The scene with another item under a row. -/
def put (S : Scene) (es : List Text) (item : Item) : Scene := fun row => if row = es then some item else S row

/-- The scene without what stands under a row and below. -/
def cut (S : Scene) (es : List Text) : Scene := fun row => if es <+: row then none else S row

/-- An empty directory. -/
def empty : Scene := fun es => if es = [] then some .directory else none

theorem linked_empty : empty.Linked where
  names := by
    intro es there
    rw [empty] at there
    split at there
    · next top => exact top ▸ names_nil
    · exact absurd rfl there
  above := by
    intro es e there
    rw [empty, if_neg (by simp)] at there
    exact absurd rfl there
  top := by
    intro data file
    cases file

/-! ## Ways down -/

/-- Whatever leads to an item is a directory. -/
theorem Linked.onWay (linked : S.Linked) (hne : back ≠ []) (there : S (front ++ back) ≠ none) :
    S front = some .directory := by
  induction back using List.reverseRecOn with
  | nil => exact absurd rfl hne
  | append_singleton back b ih =>
    rw [← List.append_assoc] at there
    have up := linked.above _ b there
    by_cases direct : back = []
    · rwa [direct, List.append_nil] at up
    · exact ih direct (by simp [up])

/-- Nothing stands below a row that nothing stands under. -/
theorem Linked.bare (linked : S.Linked) (missing : S front = none) (back : List Text) : S (front ++ back) = none := by
  by_cases same : back = []
  · rwa [same, List.append_nil]
  · by_contra there
    rw [linked.onWay same there] at missing
    cases missing

/-- Nothing stands below a file. -/
theorem Linked.bare_file (linked : S.Linked) (file : S front = some (.file data)) (hne : back ≠ []) :
    S (front ++ back) = none := by
  by_contra there
  rw [linked.onWay hne there] at file
  cases file

/-- At and below a file there is only the file. -/
theorem Linked.below_file {row : List Text} (linked : S.Linked) (file : S es = some (.file data))
    (present : S row ≠ none) : es <+: row ↔ row = es := by
  refine ⟨?_, fun same => same ▸ List.prefix_refl _⟩
  rintro ⟨back, rfl⟩
  by_contra longer
  exact present (linked.bare_file file fun ended => longer (by rw [ended, List.append_nil]))

theorem Linked.named (linked : S.Linked) (there : S es = some item) : Names es := linked.names es (by simp [there])

/-- What stands under a row stands in a directory. -/
theorem Linked.up (linked : S.Linked) (there : S (es ++ [e]) = some item) : S es = some .directory :=
  linked.above es e (by simp [there])

theorem Blocked.mono (blocked : S.Blocked front) (behind : front <+: es) : S.Blocked es := by
  obtain ⟨file, data, before, found⟩ := blocked
  exact ⟨file, data, before.trans behind, found⟩

/-- On a way that is free, what is there is a directory. -/
theorem directory_of_free (free : ¬S.Blocked es) (behind : front <+: es) (there : S front = some item) :
    item = .directory := by
  cases item with
  | directory => rfl
  | file data => exact absurd ⟨front, data, behind, there⟩ free

/-- A way to an item is blocked by no file but the item. -/
theorem Linked.free (linked : S.Linked) (there : S es = some .directory) : ¬S.Blocked es := by
  rintro ⟨front, data, ⟨back, rfl⟩, file⟩
  by_cases same : back = []
  · rw [same, List.append_nil, file] at there
    cases there
  · rw [linked.bare_file file same] at there
    cases there

theorem blocked_snoc : S.Blocked (es ++ [e]) ↔ S.Blocked es ∨ ∃ data, S (es ++ [e]) = some (.file data) := by
  constructor
  · rintro ⟨front, data, behind, file⟩
    rcases List.prefix_concat_iff.1 behind with rfl | before
    · exact .inr ⟨data, file⟩
    · exact .inl ⟨front, data, before, file⟩
  · rintro (blocked | ⟨data, file⟩)
    · exact blocked.mono (List.prefix_append ..)
    · exact ⟨_, data, List.prefix_refl _, file⟩

theorem Linked.blocked_nil (linked : S.Linked) : ¬S.Blocked [] := by
  rintro ⟨front, data, behind, file⟩
  rw [List.prefix_nil.1 behind] at file
  exact linked.top data file

/-! ## What the changes leave -/

theorem filled_end (free : ¬S.Blocked es) : S.filled es es = some .directory := by
  rw [filled]
  split
  · rfl
  · next filled =>
    rw [not_and] at filled
    cases there : S es with
    | none => exact absurd (List.prefix_refl es) (filled there)
    | some item => rw [directory_of_free free (List.prefix_refl es) there]

theorem filled_of_not_isPrefix (beside : ¬row <+: es) : S.filled es row = S row := by
  rw [filled, if_neg fun both => beside both.2]

theorem not_isPrefix_snoc (es : List Text) (e : Text) : ¬es ++ [e] <+: es := by
  intro behind
  have short := behind.length_le
  rw [List.length_append, List.length_singleton] at short
  omega

/-- Filling a way does nothing to what stands at its end one name down. -/
theorem filled_snoc_end (S : Scene) (es : List Text) (e : Text) : S.filled es (es ++ [e]) = S (es ++ [e]) :=
  filled_of_not_isPrefix (not_isPrefix_snoc es e)

theorem filled_nil (S : Scene) : S.filled [] = if S [] = none then S.put [] .directory else S := by
  have empty {row : List Text} : row <+: [] ↔ row = [] := List.prefix_nil
  funext row
  split
  · next missing =>
    rw [filled, put]
    by_cases top : row = []
    · rw [if_pos ⟨by rw [top, missing], empty.2 top⟩, if_pos top]
    · rw [if_neg fun both => top (empty.1 both.2), if_neg top]
  · next there =>
    rw [filled, if_neg]
    rintro ⟨missing, behind⟩
    exact there (empty.1 behind ▸ missing)

/-- Where the end of a way is there, nothing is missing. -/
theorem Linked.filled_eq (linked : S.Linked) (there : S es ≠ none) : S.filled es = S := by
  funext row
  rw [filled]
  apply if_neg
  rintro ⟨missing, back, rfl⟩
  exact there (linked.bare missing back)

/-- A way is filled from the front. -/
theorem filled_snoc (S : Scene) (es : List Text) (e : Text) : S.filled (es ++ [e]) =
    if S (es ++ [e]) = none then (S.filled es).put (es ++ [e]) .directory else S.filled es := by
  funext row
  by_cases same : row = es ++ [e]
  · subst same
    have own := List.prefix_refl (es ++ [e])
    by_cases missing : S (es ++ [e]) = none
    · rw [if_pos missing, filled, if_pos ⟨missing, own⟩, put, if_pos rfl]
    · rw [if_neg missing, filled_snoc_end, filled, if_neg fun both => missing both.1]
  · have before : row <+: es ++ [e] ↔ row <+: es := List.prefix_concat_iff.trans (or_iff_right same)
    have kept : S.filled (es ++ [e]) row = S.filled es row := by simp only [filled, before]
    split
    · rw [kept, put, if_neg same]
    · exact kept

theorem Linked.filled (linked : S.Linked) (names : Names es) (free : ¬S.Blocked es) : (S.filled es).Linked where
  names := by
    intro row there
    by_cases behind : row <+: es
    · obtain ⟨back, rfl⟩ := behind
      exact (names_append.1 names).1
    · rw [filled_of_not_isPrefix behind] at there
      exact linked.names row there
  above := by
    intro front e there
    by_cases new : S (front ++ [e]) = none
    · have behind : front ++ [e] <+: es := by
        by_contra beside
        rw [filled_of_not_isPrefix beside] at there
        exact there new
      have before : front <+: es := (List.prefix_append ..).trans behind
      cases found : S front with
      | none => rw [Scene.filled, if_pos ⟨found, before⟩]
      | some item =>
        have kept : S.filled es front = S front := if_neg fun both => by rw [both.1] at found; cases found
        rw [kept, found, directory_of_free free before found]
    · have up := linked.above front e new
      rw [Scene.filled, if_neg fun both => by rw [both.1] at up; cases up]
      exact up
  top := by
    intro data file
    rw [Scene.filled] at file
    split at file
    · cases file
    · exact linked.top data file

theorem Linked.put_file (linked : S.Linked) (names : Names (es ++ [e])) (above : S es = some .directory)
    (place : S (es ++ [e]) ≠ some .directory) (data : Bytes) : (S.put (es ++ [e]) (.file data)).Linked where
  names := by
    intro row there
    rw [put] at there
    split at there
    · next same => exact same ▸ names
    · exact linked.names row there
  above := by
    intro front b there
    -- What stands under the row is no directory, so nothing stands in it.
    have apart (found : S front = some .directory) : front ≠ es ++ [e] := fun same => place (same ▸ found)
    have up : S front = some .directory := by
      rw [put] at there
      split at there
      · next same =>
        obtain ⟨rfl, -⟩ := List.append_inj' same rfl
        exact above
      · exact linked.above front b there
    rw [put, if_neg (apart up), up]
  top := by
    intro data' file
    rw [put, if_neg (by simp)] at file
    exact linked.top data' file

theorem Linked.cut (linked : S.Linked) (es : List Text) : (S.cut es).Linked where
  names := by
    intro row there
    rw [Scene.cut] at there
    split at there
    · exact absurd rfl there
    · exact linked.names row there
  above := by
    intro front e there
    rw [Scene.cut] at there
    split at there
    · exact absurd rfl there
    · next outside =>
      rw [Scene.cut, if_neg fun inside => outside (inside.trans (List.prefix_append ..))]
      exact linked.above front e there
  top := by
    intro data file
    rw [Scene.cut] at file
    split at file
    · cases file
    · exact linked.top data file

/-- Cutting where nothing is changes nothing. -/
theorem Linked.cut_eq (linked : S.Linked) (missing : S es = none) : S.cut es = S := by
  funext row
  rw [Scene.cut]
  split
  · next inside =>
    obtain ⟨back, rfl⟩ := inside
    exact (linked.bare missing back).symm
  · rfl

/-! ## Parts -/

/-- The scene as far as it stands under some rows. -/
def only (S : Scene) (p : List Text → Prop) [DecidablePred p] : Scene := fun es => if p es then S es else none

section
variable {p q : List Text → Prop} [DecidablePred p] [DecidablePred q]

/-- Only rows with something under them make a difference. -/
theorem only_congr (same : ∀ es, S es ≠ none → (p es ↔ q es)) : S.only p = S.only q := by
  funext es
  by_cases there : S es = none
  · simp only [only, there, ite_self]
  · simp only [only, same es there]

theorem Linked.only (linked : S.Linked) (up : ∀ es e, p (es ++ [e]) → p es) : (S.only p).Linked where
  names := by
    intro es there
    rw [Scene.only] at there
    split at there
    · exact linked.names es there
    · exact absurd rfl there
  above := by
    intro es e there
    rw [Scene.only] at there
    split at there
    · next inside => rw [Scene.only, if_pos (up es e inside), linked.above es e there]
    · exact absurd rfl there
  top := by
    intro data file
    rw [Scene.only] at file
    split at file
    · exact linked.top data file
    · cases file

/-- A way that is free in the whole is free in a part. -/
theorem free_only (free : ¬S.Blocked es) : ¬(S.only p).Blocked es := by
  rintro ⟨front, data, behind, file⟩
  rw [only] at file
  split at file
  · exact free ⟨front, data, behind, file⟩
  · cases file

/-- A part goes on to one row more. -/
theorem only_put (there : S es = some item) : (S.only p).put es item = S.only fun row => p row ∨ row = es := by
  funext row
  by_cases same : row = es
  · rw [put, if_pos same, only, if_pos (.inr same), same, there]
  · simp only [put, only, same, if_false, or_false]

/-- Filling the way to a directory, of which the last is missing at most, lets a part go on to it. -/
theorem Linked.only_filled (linked : S.Linked) (there : S es = some .directory)
    (above : ∀ front, front <+: es → front ≠ es → p front) :
    (S.only p).filled es = S.only fun row => p row ∨ row = es := by
  funext row
  by_cases behind : row <+: es
  · -- On the way everything is a directory.
    have directory : S row = some .directory := by
      obtain ⟨back, rfl⟩ := behind
      by_cases last : back = []
      · rwa [last, List.append_nil] at there
      · exact linked.onWay last (by simp [there])
    have inside : p row ∨ row = es := or_iff_not_imp_right.2 (above row behind)
    have target : S.only (fun row => p row ∨ row = es) row = some .directory := by
      rw [Scene.only, if_pos inside, directory]
    by_cases own : p row
    · have found : S.only p row = some .directory := by rw [Scene.only, if_pos own, directory]
      rw [Scene.filled, if_neg (by rw [found]; simp), found, target]
    · rw [Scene.filled, if_pos ⟨if_neg own, behind⟩, target]
  · have other : row ≠ es := fun same => behind (same ▸ List.prefix_refl _)
    rw [filled_of_not_isPrefix behind]
    simp only [Scene.only, other, or_false]

end

/-- A part can go on to a row: it is closed towards the root and has all that is above the row, but nothing at or
below it except the root. -/
structure Awaits (p : List Text → Prop) (es : List Text) : Prop where
  up : ∀ front e, p (front ++ [e]) → p front
  above : ∀ front, front <+: es → front ≠ es → p front
  clear : ∀ row, p row → es <+: row → row = []

/-- A part that has gone on to a row can go on to those in it. -/
theorem Awaits.inner {p : List Text → Prop} (awaits : Awaits p es) (c : Text) :
    Awaits (fun row => p row ∨ row = es) (es ++ [c]) where
  up := by
    rintro front e (inside | rfl)
    · exact .inl (awaits.up front e inside)
    · exact .inl (awaits.above front (List.prefix_append ..) (by simp))
  above := by
    intro front behind other
    rcases List.prefix_concat_iff.1 behind with same | before
    · exact absurd same other
    · exact or_iff_not_imp_right.2 (awaits.above front before)
  clear := by
    rintro row (inside | rfl) behind
    · exact awaits.clear row inside ((List.prefix_append ..).trans behind)
    · exact absurd behind (not_isPrefix_snoc row c)

/-- A part that has gone on to all at and below one row in a directory can go on to another row in it. -/
theorem Awaits.beside {p : List Text → Prop} {a c : Text} (awaits : Awaits p (es ++ [c])) (other : a ≠ c) :
    Awaits (fun row => p row ∨ es ++ [a] <+: row) (es ++ [c]) where
  up := by
    rintro front e (inside | behind)
    · exact .inl (awaits.up front e inside)
    · rcases List.prefix_concat_iff.1 behind with same | before
      · obtain ⟨rfl, -⟩ := List.append_inj' same rfl
        exact .inl (awaits.above es (List.prefix_append ..) (by simp))
      · exact .inr before
  above := fun front behind own => .inl (awaits.above front behind own)
  clear := by
    rintro row (inside | first) second
    · exact awaits.clear row inside second
    · have same := List.prefix_of_prefix_length_le first second (by simp)
      have equal := same.eq_of_length (by simp)
      exact absurd (List.singleton_inj.1 (List.append_cancel_left equal)) other

/-! ## Listings -/

/-- A listing tells what stands in a directory, by increasing name. -/
structure Lists (S : Scene) (es : List Text) (facts : List Fact) : Prop where
  sorted : facts.Pairwise fun f f' => f.name < f'.name
  members : ∀ f, f ∈ facts ↔ ∃ item, S (es ++ [f.name]) = some item ∧ f = item.fact f.name

namespace Lists

variable {facts facts' : List Fact} (lists : S.Lists es facts)
include lists

/-- No name is told twice. -/
theorem distinct : (facts.map (·.name)).Nodup := by
  refine List.pairwise_map.2 (lists.sorted.imp fun {f f'} (before : f.name < f'.name) same => ?_)
  rw [same] at before
  exact List.lt_irrefl f'.name before

/-- There is one listing of a directory. -/
theorem unique (lists' : S.Lists es facts') : facts = facts' := by
  have perm : facts.Perm facts' := (List.perm_ext_iff_of_nodup (List.Nodup.of_map _ lists.distinct)
    (List.Nodup.of_map _ lists'.distinct)).2 fun f => (lists.members f).trans (lists'.members f).symm
  refine perm.eq_of_pairwise (fun f f' _ _ before after => ?_) lists.sorted lists'.sorted
  exact absurd (List.lt_trans before after) (List.lt_irrefl _)

/-- At and below a directory there is the directory, and what is at and below the rows that it lists. -/
theorem below {row : List Text} (linked : S.Linked) (present : S row ≠ none) :
    es <+: row ↔ row = es ∨ ∃ f ∈ facts, es ++ [f.name] <+: row := by
  constructor
  · rintro ⟨back, rfl⟩
    cases back with
    | nil => exact .inl (List.append_nil _)
    | cons c back =>
      -- What leads further down is listed.
      have further : es ++ c :: back = es ++ [c] ++ back := by rw [List.append_assoc]; rfl
      rw [further] at present ⊢
      obtain ⟨item, found⟩ := Option.ne_none_iff_exists'.1 fun missing => present (linked.bare missing back)
      have listed := (lists.members (item.fact c)).2 ⟨item, by rw [Item.name_fact, found], by rw [Item.name_fact]⟩
      refine .inr ⟨_, listed, ?_⟩
      rw [Item.name_fact]
      exact List.prefix_append ..
  · rintro (rfl | ⟨f, -, below⟩)
    · exact List.prefix_refl _
    · exact (List.prefix_append ..).trans below

end Lists

end Scene

end Vfs
