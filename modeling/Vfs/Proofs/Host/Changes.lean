import Vfs.Proofs.Host.Scene
import Vfs.Proofs.Host.Stream

/-!
# Changing a directory of a host

What the changes of a tree do to the scene that a directory of it shows. Making a directory goes up until it
finds one that is there, and comes down again making those that were missing (`mkdirsUp_free`); so a file in the
way is met before anything is made (`mkdirsUp_blocked`). Opening a file for writing leaves it blank (`truncate`),
and taking out a directory empties it first (`removeAll`).
-/

namespace Vfs.Host
set_option autoImplicit false
open Vfs.Path

variable {t : Tree} {S : Scene} {dir : Text} {r : Route} {row es : List Text} {e : Text} {data : Bytes} {mode : Nat}

/-- The mode word of a directory that is made with a mode. -/
def directoryWord (mode : Nat) : Nat := Mode.directory ||| (mode &&& 0o1777 &&& unmasked)

theorem directoryWord_lt (mode : Nat) : directoryWord mode < 0x100000000 := by
  have bits : mode &&& 0o1777 &&& unmasked < 2 ^ 32 := Nat.lt_of_le_of_lt Nat.and_le_right (by decide)
  exact Nat.or_lt_two_pow (by decide) bits

namespace Tree

/-- A directory that is made with the standard mode is free. -/
theorem free_made (t : Tree) : t.Free (directoryWord Mode.standard) := t.free_standard

/-- On behalf of someone privileged every directory is free, whatever its mode. -/
theorem free_privileged (privileged : t.privileged = true) (mode : Nat) : t.Free (directoryWord mode) where
  allows := fun access => by rw [Tree.allows, privileged, Bool.true_or]
  kind := by
    have plain : mode &&& 0o1777 &&& unmasked &&& Mode.typeMask = 0 := by
      rw [Nat.and_assoc, Nat.and_assoc]
      exact Nat.and_zero mode
    rw [Mode.isDirectory, Mode.typeBits, directoryWord, Nat.and_or_distrib_right, plain]
    decide
  small := directoryWord_lt mode

/-- An open directory may be changed. -/
theorem changeable_snoc (above : t.OpenAbove (row ++ [e])) : t.changeable (row ++ [e]) = true := by
  obtain ⟨word, there, free⟩ := above.parent
  simp only [changeable, List.dropLast_concat, there, free.allows]

section
variable (passes : r.Passes (row ++ [e]))
include passes

theorem mkdir_free (above : t.OpenAbove (row ++ [e])) (missing : t.node? (row ++ [e]) = none) (mode : Nat) :
    t.mkdir r mode = (.ok (), t.put (row ++ [e]) (.directory (directoryWord mode))) := by
  have slot := slot_eq passes above
  rw [missing] at slot
  rw [mkdir, slot]
  dsimp only
  rw [add, if_pos (changeable_snoc above)]
  rfl

theorem mkdir_taken (above : t.OpenAbove (row ++ [e])) {node : Node} (there : t.node? (row ++ [e]) = some node)
    (mode : Nat) : t.mkdir r mode = (.error alreadyExists, t) := by
  have slot := slot_eq passes above
  rw [there] at slot
  rw [mkdir, slot]

/-- A directory that is there already is as good as made. -/
theorem mkdirOr_there (above : t.OpenAbove (row ++ [e])) (there : t.Open (row ++ [e])) (mode : Nat) :
    t.mkdirOr r mode = (.ok (), t) := by
  obtain ⟨word, found, -⟩ := there
  have holds : t.holdsDirectory r = true := by rw [holdsDirectory, find_eq passes above found (.inr ⟨word, rfl⟩)]
  rw [mkdirOr, mkdir_taken passes above found]
  dsimp only
  rw [holds, if_pos (by decide)]

/-- No directory is made where a file stands. -/
theorem mkdirOr_file (above : t.OpenAbove (row ++ [e])) {number : Nat}
    (file : t.node? (row ++ [e]) = some (.file number)) (mode : Nat) :
    t.mkdirOr r mode = (.error alreadyExists, t) := by
  have holds : t.holdsDirectory r = false := by
    rw [holdsDirectory, find, passes.check, passes.route]
    simp only [follow_eq passes.names passes.short above, file]
    split
    · next found =>
      split at found
      · cases found
      · cases found
    · rfl
  rw [mkdirOr, mkdir_taken passes above file]
  dsimp only
  rw [holds, if_neg (by decide)]

/-- No directory is made in what is none. -/
theorem mkdirOr_closed (closed : ∀ word, t.node? row ≠ some (.directory word)) (mode : Nat) :
    ∃ fault, t.mkdirOr r mode = (.error fault, t) ∧ fault.kind.isSystem = true := by
  obtain ⟨fault, refused, system⟩ := slot_closed passes closed
  obtain ⟨fault', lost⟩ := find_closed passes closed
  have holds : t.holdsDirectory r = false := by rw [holdsDirectory, lost]
  refine ⟨fault, ?_, system⟩
  rw [mkdirOr, mkdir, refused]
  dsimp only
  rw [holds, if_neg (by simp)]

end

/-! ## One step up -/

variable {closing : Nat} {last : Step} {up : List Step}

/-- Steps that are given last first, to a row of names. -/
theorem passes_cons (passes : (Route.mk up.reverse closing).Passes (row ++ [e])) :
    ∃ last lower, up = last :: lower ∧ last.name ≠ here ∧ (Route.mk lower.reverse 0).Passes row := by
  cases up with
  | nil =>
    have route := passes.route
    simp [Route.names] at route
  | cons last lower =>
    have above := passes.up
    rw [Route.above, List.reverse_cons, List.dropLast_concat] at above
    have route := passes.route
    rw [Route.names, List.reverse_cons, List.map_append] at route
    obtain ⟨-, name⟩ := List.append_inj' route rfl
    obtain ⟨-, proper, -⟩ := isChildName_iff.1 (passes.names e (List.mem_append_right _ (List.mem_singleton_self e))).1
    have same : last.name.received = e := List.singleton_inj.1 name
    refine ⟨last, lower, rfl, fun dot => proper ?_, above⟩
    rw [← same, dot]
    decide

theorem above_reverse (last : Step) (lower : List Step) (closing : Nat) :
    (Route.mk (last :: lower).reverse closing).above = ⟨lower.reverse, 0⟩ := by
  rw [Route.above, List.reverse_cons, List.dropLast_concat]

/-- Where the directory above is there, only the last one is made. -/
theorem mkdirsUp_there (holds : t.holds ⟨up.reverse, 0⟩ = true) :
    mkdirsUp mode closing (last :: up) t = t.mkdirOr ⟨(last :: up).reverse, closing⟩ mode := by
  rw [mkdirsUp, above_reverse, if_pos holds]

/-- Where it is not, those above are made first. -/
theorem mkdirsUp_lower (holds : t.holds ⟨up.reverse, 0⟩ = false) (proper : last.name ≠ here) :
    mkdirsUp mode closing (last :: up) t = match mkdirsUp Mode.standard 0 up t with
      | (.ok (), t) => t.mkdirOr ⟨(last :: up).reverse, closing⟩ mode
      | (.error fault, t) =>
        if fault.kind = .alreadyExists then t.mkdirOr ⟨(last :: up).reverse, closing⟩ mode
        else (.error fault, t) := by
  rw [mkdirsUp, above_reverse, if_neg (by simp [holds])]
  rcases mkdirsUp Mode.standard 0 up t with ⟨r, t'⟩
  cases r with
  | ok done => exact if_neg proper
  | error fault => simp only [if_neg proper]

end Tree

namespace Depicts

variable (depicts : Depicts dir t S) (linked : S.Linked)
include depicts

theorem row_snoc (es : List Text) : ∃ row e, rowOf dir ++ es = row ++ [e] := by
  have hne : rowOf dir ++ es ≠ [] := by simp [depicts.proper]
  exact (List.eq_nil_or_concat' _).resolve_left hne

/-- The last directory of a way, once those above it are open. -/
theorem mkdirOr (passes : r.Passes (rowOf dir ++ es)) (above : t.OpenAbove (rowOf dir ++ es)) (fits : Fits dir es)
    (allowed : t.Free (directoryWord mode)) (free : ∀ data, S es ≠ some (.file data)) :
    ∃ t', t.mkdirOr r mode = (.ok (), t') ∧ t'.privileged = t.privileged ∧
      Depicts dir t' (if S es = none then S.put es .directory else S) := by
  obtain ⟨row, e, split⟩ := depicts.row_snoc es
  rw [split] at passes above
  cases there : S es with
  | none =>
    have missing : t.node? (row ++ [e]) = none := by rw [← split, depicts.missing, there]
    have made := depicts.mkdir fits allowed
    rw [split] at made
    refine ⟨t.put (row ++ [e]) (.directory (directoryWord mode)), ?_, rfl, by rw [if_pos rfl]; exact made⟩
    rw [Tree.mkdirOr, Tree.mkdir_free passes above missing mode]
  | some item =>
    cases item with
    | directory =>
      have isOpen := depicts.isOpen there
      rw [split] at isOpen
      exact ⟨t, Tree.mkdirOr_there passes above isOpen mode, rfl, by rw [if_neg (by simp)]; exact depicts⟩
    | file data => exact absurd there (free data)

include linked

/-- There is something at the end of a route just if the scene has something there. -/
theorem holds (passes : r.Passes (rowOf dir ++ es)) (plain : r.slash = false) : t.holds r = true ↔ S es ≠ none := by
  cases there : S es with
  | none =>
    obtain ⟨fault, lost, -⟩ := Tree.find_missing passes (depicts.missing.2 there)
    simp [Tree.holds, lost]
  | some item =>
    have above := depicts.openAbove linked there
    obtain ⟨node, found, -⟩ := depicts.found there
    simp [Tree.holds, Tree.find_eq passes above found (.inl plain)]

/-! ## Making directories -/

/-- A free way is filled, from whichever directory on it is there down to its end. -/
theorem mkdirsUp_free {up : List Step} {closing : Nat} (free : ¬S.Blocked es)
    (passes : (Route.mk up.reverse closing).Passes (rowOf dir ++ es)) (fits : Fits dir es)
    (allowed : t.Free (directoryWord mode)) :
    ∃ t', Tree.mkdirsUp mode closing up t = (.ok (), t') ∧ t'.privileged = t.privileged ∧
      Depicts dir t' (S.filled es) := by
  induction es using List.reverseRecOn generalizing up closing mode with
  | nil =>
    obtain ⟨row, e, split⟩ := depicts.row_snoc []
    have ground : t.OpenAbove (rowOf dir ++ []) := by
      rw [List.append_nil]
      exact depicts.ground
    have plain (data : Bytes) : S [] ≠ some (.file data) := linked.top data
    obtain ⟨t', made, same, shown⟩ := depicts.mkdirOr passes ground fits allowed plain
    rw [split] at passes ground
    obtain ⟨last, lower, rfl, -, above⟩ := Tree.passes_cons passes
    obtain ⟨word, there, -⟩ := ground.parent
    have holds : t.holds ⟨lower.reverse, 0⟩ = true := by
      rw [Tree.holds, Tree.find_eq above ground.up there (.inl rfl)]
    refine ⟨t', by rw [Tree.mkdirsUp_there holds, made], same, ?_⟩
    rwa [Scene.filled_nil]
  | append_singleton es e ih =>
    rw [Scene.blocked_snoc, not_or] at free
    obtain ⟨freeBefore, plain⟩ := free
    have whole := passes
    rw [← List.append_assoc] at passes
    obtain ⟨last, lower, rfl, proper, above⟩ := Tree.passes_cons passes
    -- The tree once the directories above are there.
    have before : ∃ t₁, Tree.mkdirsUp mode closing (last :: lower) t =
        t₁.mkdirOr ⟨(last :: lower).reverse, closing⟩ mode ∧ t₁.privileged = t.privileged ∧
          Depicts dir t₁ (S.filled es) := by
      cases holds : t.holds ⟨lower.reverse, 0⟩ with
      | true =>
        refine ⟨t, Tree.mkdirsUp_there holds, rfl, ?_⟩
        rwa [linked.filled_eq ((depicts.holds linked above rfl).1 holds)]
      | false =>
        obtain ⟨t₁, made, same, shown⟩ := ih freeBefore above fits.beginning t.free_made
        refine ⟨t₁, ?_, same, shown⟩
        rw [Tree.mkdirsUp_lower holds proper, made]
    obtain ⟨t₁, run, same, shown⟩ := before
    have linked₁ := linked.filled fits.beginning.names_row freeBefore
    have target : S.filled es (es ++ [e]) = S (es ++ [e]) := Scene.filled_snoc_end S es e
    have file (data : Bytes) : S.filled es (es ++ [e]) ≠ some (.file data) := by
      rw [target]
      exact fun found => plain ⟨data, found⟩
    obtain ⟨t', made, same', shown'⟩ := shown.mkdirOr whole
      (shown.openAbove_snoc linked₁ (Scene.filled_end freeBefore) e) fits (allowed.of_privileged same) file
    refine ⟨t', by rw [run, made], same'.trans same, ?_⟩
    rwa [target, ← Scene.filled_snoc] at shown'

/-- A file in the way is found before anything is made. -/
theorem mkdirsUp_blocked {up : List Step} {closing : Nat} (blocked : S.Blocked es)
    (passes : (Route.mk up.reverse closing).Passes (rowOf dir ++ es)) :
    ∃ fault, Tree.mkdirsUp mode closing up t = (.error fault, t) ∧ fault.kind.isSystem = true := by
  induction es using List.reverseRecOn generalizing up closing mode with
  | nil => exact absurd blocked linked.blocked_nil
  | append_singleton es e ih =>
    rw [← List.append_assoc] at passes
    obtain ⟨last, lower, rfl, proper, above⟩ := Tree.passes_cons passes
    have holds := depicts.holds linked above rfl
    cases there : S es with
    | none =>
      -- The way is blocked further up.
      have missing : ¬∃ data, S (es ++ [e]) = some (.file data) := by
        rintro ⟨data, file⟩
        rw [linked.bare there [e]] at file
        cases file
      have bare : S es ≠ some .directory := by simp [there]
      have closed := depicts.closed bare
      obtain ⟨fault, stopped, system⟩ := ih ((Scene.blocked_snoc.1 blocked).resolve_right missing) above
      obtain ⟨fault', stopped', system'⟩ := Tree.mkdirOr_closed passes closed mode
      have absent : t.holds ⟨lower.reverse, 0⟩ = false := by
        rw [Bool.eq_false_iff, Ne, holds, there]
        exact fun found => found rfl
      rw [Tree.mkdirsUp_lower absent proper, stopped]
      dsimp only
      split
      · exact ⟨fault', stopped', system'⟩
      · exact ⟨fault, rfl, system⟩
    | some item =>
      rw [Tree.mkdirsUp_there (holds.2 (by simp [there]))]
      cases item with
      | directory =>
        obtain ⟨data, file⟩ := (Scene.blocked_snoc.1 blocked).resolve_left (linked.free there)
        obtain ⟨number, found, -⟩ := depicts.file file
        have open' := depicts.openAbove_snoc linked there e
        rw [← List.append_assoc] at found open'
        exact ⟨_, Tree.mkdirOr_file passes open' found mode, by decide⟩
      | file data =>
        exact Tree.mkdirOr_closed passes (depicts.closed (by rw [there]; exact fun same => by cases same)) mode

theorem mkdirs_free (free : ¬S.Blocked es) (passes : r.Passes (rowOf dir ++ es)) (fits : Fits dir es)
    (allowed : t.Free (directoryWord mode)) :
    ∃ t', t.mkdirs r mode = (.ok (), t') ∧ t'.privileged = t.privileged ∧ Depicts dir t' (S.filled es) := by
  apply depicts.mkdirsUp_free linked free _ fits allowed
  rwa [List.reverse_reverse]

theorem mkdirs_blocked (blocked : S.Blocked es) (passes : r.Passes (rowOf dir ++ es)) :
    ∃ fault, t.mkdirs r mode = (.error fault, t) ∧ fault.kind.isSystem = true := by
  apply depicts.mkdirsUp_blocked linked blocked
  rwa [List.reverse_reverse]

end Depicts

/-! ## Writing -/

namespace Tree

variable {t' : Tree} {n m : Nat}

/-- A tree with a file without content at a row, and else as it was. -/
structure Blank (t t' : Tree) (row : List Text) (n : Nat) : Prop where
  tidy : t'.Tidy
  privileged : t'.privileged = t.privileged
  nodes : ∀ row', t'.node? row' = if row' = row then some (.file n) else t.node? row'
  there : n < t'.contents.size
  empty : t'.content n = []
  contents : ∀ m, m < t.contents.size → m ≠ n → m < t'.contents.size ∧ t'.content m = t.content m

section
variable (passes : r.Passes (row ++ [e])) (above : t.OpenAbove (row ++ [e])) (tidy : t.Tidy)
include passes above tidy

theorem truncate_free (plain : r.slash = false) (missing : t.node? (row ++ [e]) = none) :
    ∃ t', t.truncate r = (.ok t.contents.size, t') ∧ Blank t t' (row ++ [e]) t.contents.size := by
  have slot := slot_eq passes above
  rw [missing] at slot
  refine ⟨{ t.put (row ++ [e]) (.file t.contents.size) with contents := t.contents.push [] }, ?_, ?_⟩
  · rw [truncate, slot]
    simp only [plain, Bool.false_eq_true, if_false, add, changeable_snoc above, if_true]
    rfl
  · exact {
      tidy := (tidy.put (row ++ [e]) (.file t.contents.size)).part (.refl _)
      privileged := rfl
      nodes := node?_put (by simp) _
      there := by simp
      empty := by simp [content]
      contents := by
        intro m there other
        have kept : ¬m = t.contents.size := other
        simp only [content, Array.size_push, Array.getD_eq_getD_getElem?, Array.getElem?_push, if_neg kept]
        exact ⟨by omega, trivial⟩ }

theorem truncate_file (plain : r.slash = false) (file : t.node? (row ++ [e]) = some (.file n))
    (there : n < t.contents.size) :
    ∃ t', t.truncate r = (.ok n, t') ∧ Blank t t' (row ++ [e]) n := by
  have slot := slot_eq passes above
  rw [file] at slot
  refine ⟨{ t with contents := t.contents.setIfInBounds n [] }, ?_, ?_⟩
  · rw [truncate, slot]
    simp only [plain, Bool.false_eq_true, if_false]
  · exact {
      tidy := tidy.part (.refl _)
      privileged := rfl
      nodes := by
        intro row'
        by_cases own : row' = row ++ [e]
        · rw [if_pos own, own]
          exact file
        · rw [if_neg own]
          rfl
      there := by simpa using there
      empty := by simp [content, there]
      contents := by
        intro m there' other
        simp [content, there', Ne.symm other] }

end

/-- A directory is not opened for writing. -/
theorem truncate_directory (passes : r.Passes (row ++ [e])) (above : t.OpenAbove (row ++ [e])) {word : Nat}
    (there : t.node? (row ++ [e]) = some (.directory word)) : t.truncate r = (.error isDirectory, t) := by
  have slot := slot_eq passes above
  rw [there] at slot
  rw [truncate, slot]

end Tree

namespace Depicts

variable (depicts : Depicts dir t S)
include depicts

/-- What is written to a blank file is its content. -/
theorem overwrite {t' : Tree} {n : Nat} (blank : t.Blank t' (rowOf dir ++ es) n) (fits : Fits dir es)
    (fresh : ∀ es', t.node? (rowOf dir ++ es') = some (.file n) → es' = es) (data : Bytes) :
    Depicts dir (t'.overwrite n 0 data) (S.put es (.file data)) := by
  have size := t'.size_overwrite n data
  have tidy : (t'.overwrite n 0 data).Tidy := blank.tidy.part (.refl _)
  apply depicts.put_of fits tidy (.file n) blank.privileged blank.nodes
  · refine ⟨size ▸ blank.there, ?_⟩
    rw [Tree.content_overwrite blank.there, blank.empty, List.drop_nil, List.append_nil]
  · intro m there other
    have apart : m ≠ n := fun same => other (by rw [same])
    obtain ⟨kept, same⟩ := blank.contents m there apart
    exact ⟨size ▸ kept, (Tree.content_overwrite_of_ne apart data).trans same⟩
  · intro es' m same found
    cases same
    exact fresh es' found

/-- A place in a directory where no directory stands is taken over for writing. -/
theorem truncate (linked : S.Linked) (passes : r.Passes (rowOf dir ++ (es ++ [e]))) (plain : r.slash = false)
    (fits : Fits dir (es ++ [e])) (above : S es = some .directory) (place : S (es ++ [e]) ≠ some .directory) :
    ∃ n t', t.truncate r = (.ok n, t') ∧ t'.privileged = t.privileged ∧
      ∀ data, Depicts dir (t'.overwrite n 0 data) (S.put (es ++ [e]) (.file data)) := by
  have isOpen := depicts.openAbove_snoc linked above e
  have row : rowOf dir ++ (es ++ [e]) = rowOf dir ++ es ++ [e] := (List.append_assoc ..).symm
  rw [row] at passes isOpen
  cases there : S (es ++ [e]) with
  | none =>
    have missing : t.node? (rowOf dir ++ es ++ [e]) = none := by rw [← row, depicts.missing, there]
    obtain ⟨t', made, blank⟩ := Tree.truncate_free passes isOpen depicts.tidy plain missing
    rw [← row] at blank
    refine ⟨_, t', made, blank.privileged, depicts.overwrite blank fits ?_⟩
    intro es' found
    exact absurd (depicts.lt_size found) (Nat.lt_irrefl _)
  | some item =>
    cases item with
    | directory => exact absurd there place
    | file old =>
      obtain ⟨n, found, inside, -⟩ := depicts.file there
      obtain ⟨t', made, blank⟩ := Tree.truncate_file passes isOpen depicts.tidy plain (row ▸ found) inside
      rw [← row] at blank
      refine ⟨n, t', made, blank.privileged, depicts.overwrite blank fits fun es' found' => ?_⟩
      exact depicts.apart _ _ n found' found

end Depicts

/-! ## Taking out -/

namespace Tree

theorem isPrefix_of_mem_rowsWithin {levels : Nat} {row' : List Text} (member : row' ∈ t.rowsWithin levels row) :
    row <+: row' := by
  induction levels generalizing row with
  | zero => cases member
  | succ levels ih =>
    rw [rowsWithin, List.mem_flatMap] at member
    obtain ⟨e, -, member⟩ := member
    rcases List.mem_cons.1 member with rfl | below
    · exact List.prefix_append ..
    · exact (List.prefix_append ..).trans (ih below)

/-- Emptying a directory goes through what is at and below it. -/
theorem isPrefix_of_mem_rowsFrom {row' : List Text} (member : row' ∈ t.rowsFrom row) : row <+: row' := by
  rcases List.mem_cons.1 member with rfl | below
  · exact List.prefix_refl _
  · exact isPrefix_of_mem_rowsWithin below

/-- Emptying a directory leaves what is not below it. -/
theorem node?_emptied_of_isPrefix {front : List Text} (behind : front <+: row) :
    (t.emptied row).node? front = t.node? front := by
  rw [node?_emptied, if_neg]
  rintro ⟨below, other⟩
  exact other (behind.eq_of_length_le below.length_le)

theorem OpenAbove.emptied (above : t.OpenAbove row) : (t.emptied row).OpenAbove row := by
  intro front behind other
  obtain ⟨word, there, free⟩ := above front behind other
  exact ⟨word, by rw [node?_emptied_of_isPrefix behind, there], free.of_privileged rfl⟩

theorem Tidy.erase (tidy : t.Tidy) (row : List Text) : (t.erase row).Tidy := tidy.part List.filter_sublist

theorem Tidy.emptied (tidy : t.Tidy) (row : List Text) : (t.emptied row).Tidy := tidy.part List.filter_sublist

theorem names_emptied (tidy : t.Tidy) (row : List Text) : (t.emptied row).names row = [] := by
  rw [List.eq_nil_iff_forall_not_mem]
  intro e member
  apply (mem_names (tidy.emptied row)).1 member
  rw [node?_emptied, if_pos]
  refine ⟨List.prefix_append .., fun same => ?_⟩
  exact List.cons_ne_nil e [] (List.append_right_eq_self.1 same)

section
variable (passes : r.Passes (row ++ [e])) (above : t.OpenAbove (row ++ [e]))
include passes above

theorem unlink_file (plain : r.slash = false) {n : Nat} (file : t.node? (row ++ [e]) = some (.file n)) :
    t.unlink r = (.ok (), t.erase (row ++ [e])) := by
  have slot := slot_eq passes above
  rw [file] at slot
  rw [unlink, slot]
  simp only [plain, Bool.false_eq_true, if_false, drop, changeable_snoc above, if_true]

theorem rmdir_empty {word : Nat} (there : t.node? (row ++ [e]) = some (.directory word))
    (empty : t.names (row ++ [e]) = []) : t.rmdir r = (.ok (), t.erase (row ++ [e])) := by
  have slot := slot_eq passes above
  rw [there] at slot
  rw [rmdir, slot]
  simp only [empty, List.isEmpty_nil, drop, changeable_snoc above, if_true]

/-- Where no directory is barred, a directory goes with all that is below it. -/
theorem removeAll_directory (tidy : t.Tidy) {word : Nat} (there : t.node? (row ++ [e]) = some (.directory word))
    (free : ∀ row', row ++ [e] <+: row' → t.barred row' = false) :
    t.removeAll r = (.ok (), (t.emptied (row ++ [e])).erase (row ++ [e])) := by
  have clear : (t.rowsFrom (row ++ [e])).find? t.barred = none := by
    rw [List.find?_eq_none]
    intro row' member barred
    rw [free row' (isPrefix_of_mem_rowsFrom member)] at barred
    cases barred
  have kept : (t.emptied (row ++ [e])).node? (row ++ [e]) = some (.directory word) :=
    (node?_emptied_of_isPrefix (List.prefix_refl _)).trans there
  rw [removeAll, find_eq passes above there (.inr ⟨word, rfl⟩)]
  dsimp only
  rw [clear]
  exact rmdir_empty passes above.emptied kept (names_emptied tidy _)

end

end Tree

namespace Depicts

variable (depicts : Depicts dir t S)
include depicts

/-- At and below the directory none is barred. -/
theorem not_barred {row : List Text} (inside : rowOf dir ++ es <+: row) : t.barred row = false := by
  obtain ⟨back, rfl⟩ := inside
  rw [Tree.barred]
  split
  · next word found =>
    rw [List.append_assoc] at found
    obtain ⟨item, -, shown⟩ := depicts.there found
    cases item with
    | directory => rw [shown.allows, Bool.not_true]
    | file data => exact shown.elim
  · rfl

/-- Whatever is at a row goes, with all below it. -/
theorem removeAll (linked : S.Linked) (passes : r.Passes (rowOf dir ++ es)) (plain : es = [] ∨ r.slash = false) :
    ∃ t', t.removeAll r = (.ok (), t') ∧ Depicts dir t' (S.cut es) := by
  cases there : S es with
  | none =>
    obtain ⟨fault, lost, -⟩ := Tree.find_missing passes (depicts.missing.2 there)
    refine ⟨t, by rw [Tree.removeAll, lost], ?_⟩
    rwa [linked.cut_eq there]
  | some item =>
    have above := depicts.openAbove linked there
    obtain ⟨row, e, split⟩ := depicts.row_snoc es
    have hne : row ++ [e] ≠ [] := by simp
    cases item with
    | directory =>
      obtain ⟨word, found, -⟩ := depicts.isOpen there
      have free (row' : List Text) (inside : rowOf dir ++ es <+: row') := depicts.not_barred inside
      rw [split] at passes above found free
      refine ⟨_, Tree.removeAll_directory passes above depicts.tidy found free, ?_⟩
      have tidy := (depicts.tidy.emptied (row ++ [e])).erase (row ++ [e])
      refine depicts.cut_of tidy rfl rfl fun row' => ?_
      rw [split, Tree.node?_erase hne, Tree.node?_emptied]
      by_cases same : row' = row ++ [e]
      · rw [if_pos same, if_pos (same ▸ List.prefix_refl _)]
      · simp only [same, if_false, and_true, ne_eq, not_false_eq_true]
    | file data =>
      obtain ⟨n, found, -⟩ := depicts.file there
      have slashless : r.slash = false := by
        apply plain.resolve_left
        rintro rfl
        exact linked.top data there
      have bare {back : List Text} (below : back ≠ []) : t.node? (row ++ [e] ++ back) = none := by
        rw [← split, List.append_assoc, depicts.missing]
        exact linked.bare_file there below
      rw [split] at passes above found
      refine ⟨t.erase (row ++ [e]), ?_, ?_⟩
      · rw [Tree.removeAll, Tree.find_eq passes above found (.inl slashless)]
        exact Tree.unlink_file passes above slashless found
      · refine depicts.cut_of (depicts.tidy.erase _) rfl rfl fun row' => ?_
        rw [split, Tree.node?_erase hne]
        by_cases same : row' = row ++ [e]
        · rw [if_pos same, if_pos (same ▸ List.prefix_refl _)]
        · rw [if_neg same]
          split
          · next inside =>
            obtain ⟨back, rfl⟩ := inside
            apply bare
            rintro rfl
            exact same (List.append_nil _)
          · rfl

end Depicts

end Vfs.Host
