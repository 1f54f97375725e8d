import Mathlib.Logic.Function.Iterate
import Vfs.Proofs.Filesystem.Copying

/-!
# Copying within one volume

Two views of one volume may overlap, so that a copy from one to the other makes entries where the walk has yet to
come. What it reaches is then told by what was stored when it began (`Recurs`): where the roots are equal, or neither
lies below the other, only what was stored; where the source lies below the destination, names that were stored behind
the way from one to the other, taken some times. Either way the copy ends. Where the destination lies below the
source, each directory that is made is found once more, and no copy ends well (`copy_overlapping`).
-/

namespace Vfs.Memory
set_option autoImplicit false
open Vfs.Path Session

variable {w w' w'' : World} {n : Nat} {as ds bs xs : List Text} {info : Info} {s t : Store Entry} {e o : Entry}
  {k root : Text} {Old : List Text → Prop}

/-! ## One entry -/

/-- What is stored keeps all but its content. -/
theorem Made.holds (made : Made root s t) (stored : s.get? k = some o) :
    ∃ data, t.get? k = some (o.holding data) := by
  induction made with
  | refl => exact ⟨o.data, stored⟩
  | @put t k' e _ missing _ _ ih =>
    obtain ⟨data, there⟩ := ih
    have other : k ≠ k' := by
      rintro rfl
      rw [missing] at there
      cases there
    exact ⟨data, by rw [Store.get?_put, if_neg other, there]⟩
  | @write t k' e data _ stored' _ ih =>
    obtain ⟨data', there⟩ := ih
    by_cases same : k = k'
    · subst same
      obtain rfl := Option.some.inj (there.symm.trans stored')
      exact ⟨data, by rw [Store.get?_put, if_pos rfl]; rfl⟩
    · exact ⟨data', by rw [Store.get?_put, if_neg same, there]⟩

/-- Two views of one volume. -/
structure Shared (n : Nat) (as ds : List Text) (w : World) : Prop where
  there : n < w.volumes.size
  source : Firm (w.volume n).store as
  dest : Firm (w.volume n).store ds

/-- Entries were made or filled in a volume, seen from one of its views. -/
structure Onward (n : Nat) (ds : List Text) (w w' : World) : Prop where
  size : w'.volumes.size = w.volumes.size
  sound : (w.volume n).store.Sound → (w'.volume n).store.Sound
  made : Made (ofReduced true ds) (w.volume n).store (w'.volume n).store

theorem Onward.refl (n : Nat) (ds : List Text) (w : World) : Onward n ds w w := ⟨rfl, id, .refl⟩

theorem Onward.trans (first : Onward n ds w w') (second : Onward n ds w' w'') : Onward n ds w w'' :=
  ⟨second.size.trans first.size, second.sound ∘ first.sound, first.made.trans second.made⟩

theorem Shared.onward (shared : Shared n as ds w) (onward : Onward n ds w w') : Shared n as ds w' where
  there := onward.size.symm ▸ shared.there
  source := shared.source.made shared.dest.root (onward.sound shared.source.sound) onward.made
  dest := shared.dest.made shared.dest.root (onward.sound shared.dest.sound) onward.made

/-- An answer about a row says of what is stored there now what cannot change. -/
def Told (w : World) (n : Nat) (as bs : List Text) (info : Info) : Prop :=
  ∃ e, (w.volume n).store.get? (ofReduced true (as ++ bs)) = some e ∧ info.directory = e.directory ∧
    info.mode = e.mode

theorem Told.stored (told : Told w n as bs info) :
    ((w.volume n).store.get? (ofReduced true (as ++ bs))).isSome = true := by
  obtain ⟨e, stored, -⟩ := told
  rw [stored, Option.isSome_some]

theorem Told.onward (told : Told w n as bs info) (onward : Onward n ds w w') : Told w' n as bs info := by
  obtain ⟨e, stored, kind, mode⟩ := told
  obtain ⟨data, stored'⟩ := onward.made.holds stored
  exact ⟨_, stored', kind, mode⟩

/-- The rows that a copy can reach: where it makes entries in its source, it makes them at such rows. -/
structure Closed (as ds : List Text) (Old : List Text → Prop) : Prop where
  named : ∀ row, Old row → Names row
  back : ∀ row front row', Old row → front <+: row → ds ++ front = as ++ row' → Old row'

/-- What is stored in the source is stored at rows that can be reached. -/
def Within (Old : List Text → Prop) (w : World) (n : Nat) (as : List Text) : Prop :=
  ∀ row, Names row → ((w.volume n).store.get? (ofReduced true (as ++ row))).isSome = true → Old row

/-- What holds of the world while a copy goes on. -/
structure Goes (Old : List Text → Prop) (n : Nat) (as ds : List Text) (w w' : World) : Prop where
  shared : Shared n as ds w'
  within : Within Old w' n as
  onward : Onward n ds w w'

theorem Goes.after (first : Onward n ds w w') (second : Goes Old n as ds w' w'') : Goes Old n as ds w w'' :=
  ⟨second.shared, second.within, first.trans second.onward⟩

/-- Of an answer, copying an entry looks at the kind and the mode only. -/
theorem copyEntry_congr (dest source : Filesystem) (path : Text) (info info' : Info)
    (kind : info.directory = info'.directory) (mode : info.mode = info'.mode) :
    Filesystem.copyEntry dest source path info = Filesystem.copyEntry dest source path info' := by
  simp only [Filesystem.copyEntry, Filesystem.copyMode, kind, mode]

/-- What a copy from the view `as` of a volume to its view `ds` does where it visits. -/
def visit (n : Nat) (as ds : List Text) (id id' : Nat) : Text → Info → Action Unit :=
  Filesystem.copyEntry (filesystem id ⟨n, ofReduced true ds⟩) (filesystem id' ⟨n, ofReduced true as⟩)

section
variable (shared : Shared n as ds w) (id id' : Nat)
include shared

/-- What is stored at a row is laid at the row of the destination. -/
theorem visit_lays (names : Names bs) (told : Told w n as bs info) :
    ∃ e, info.directory = e.directory ∧
      (visit n as ds id id' (ofReduced false bs) info w).1 =
        (lay (ofReduced true ds) (ofReduced false bs) e (w.volume n).store).1 ∧
      Turned n (lay (ofReduced true ds) (ofReduced false bs) e (w.volume n).store).2 w
        (visit n as ds id id' (ofReduced false bs) info w).2 := by
  obtain ⟨e, stored, kind, mode⟩ := told
  have located := locate_row (names_append.2 ⟨shared.source.names, names⟩) stored
  have copied : Copied (fun _ _ => False) e n (ofReduced true ds) (ofReduced false bs) w
      (visit n as ds id id' (ofReduced false bs) (e.info (.made 0)) w) :=
    copied_entry id (falters_filesystem id' ⟨n, ofReduced true as⟩) shared.there located _
  have same : visit n as ds id id' (ofReduced false bs) info =
      visit n as ds id id' (ofReduced false bs) (e.info (.made 0)) := copyEntry_congr _ _ _ _ _ kind mode
  refine ⟨e, kind, ?_⟩
  rw [same]
  generalize visit n as ds id id' (ofReduced false bs) (e.info (.made 0)) w = x at copied ⊢
  cases copied with
  | unopened never => exact never.elim
  | part _ broke => exact broke.elim fun _ own => own.1.elim
  | refused stopped turned => exact ⟨stopped.symm, turned⟩
  | whole laid turned => exact ⟨laid.symm, turned⟩

/-- What a visit leaves. -/
theorem visited (closed : Closed as ds Old) (within : Within Old w n as) (old : Old bs) (told : Told w n as bs info) :
    Comes (fun _ w' => Goes Old n as ds w w' ∧
        (info.directory = true → IsDirectory (w'.volume n).store (ofReduced true (ds ++ bs))))
      (fun fault w' => fault.isSystem = true ∧ Goes Old n as ds w w')
      (visit n as ds id id' (ofReduced false bs) info w) := by
  have names := closed.named bs old
  have isRoot : IsRoot (ofReduced true ds) := isRoot_ofReduced shared.dest.names
  obtain ⟨e, kind, answer, turned⟩ := visit_lays shared id id' names told
  generalize visit n as ds id id' (ofReduced false bs) info w = x at answer turned ⊢
  obtain ⟨r, w'⟩ := x
  dsimp only at answer turned
  have onward : Onward n ds w w' := by
    refine ⟨turned.size, fun sound => ?_, ?_⟩
    · rw [turned.store]
      exact sound_lay sound _ _ e
    · rw [turned.store]
      exact made_lay isRoot _ e _
  have goes : Goes Old n as ds w w' := by
    refine ⟨shared.onward onward, fun row names' stored => ?_, onward⟩
    by_cases before : ((w.volume n).store.get? (ofReduced true (as ++ row))).isSome = true
    · exact within row names' before
    · -- What is new stands on the way to the row that was laid.
      have onWay : ∃ front, front <+: bs ∧ ofReduced true (as ++ row) = ofReduced true (ds ++ front) := by
        by_contra beside
        rw [turned.store, lay_apart shared.dest.names names fun front ahead same => beside ⟨front, ahead, same⟩]
          at stored
        exact before stored
      obtain ⟨front, ahead, same⟩ := onWay
      have way := names.ahead ahead
      have rows := ofReduced_inj (names_append.2 ⟨shared.source.names, names'⟩)
        (names_append.2 ⟨shared.dest.names, way⟩) same
      exact closed.back bs front row old ahead rows.symm
  cases r with
  | error fault => exact .error ⟨isSystem_lay answer.symm, goes⟩
  | ok done =>
    refine .ok ⟨goes, fun directory => ?_⟩
    have laid := answer.symm
    rw [lay_directory (kind.symm.trans directory)] at laid
    obtain ⟨d, stored, directory'⟩ := mkdirAll_ok isRoot laid
    rw [key_ofReduced shared.dest.names names] at stored
    refine ⟨d, ?_, directory'⟩
    rw [turned.store, lay_directory (kind.symm.trans directory)]
    exact stored

end

/-! ## The walk -/

/-- What a walk is that has to end for one of two reasons: it reaches rows that can be reached, and an error is one of
the host, unless some row that can be reached has `levels` names. -/
structure Roams (Old : List Text → Prop) (levels : Nat) (I : World → Prop) (x : Trace × World) : Prop where
  names : ∀ name ∈ x.1.names, ∃ row, Old row ∧ name = ofReduced false row
  ends : ∀ fault, x.1.outcome = .error fault → fault.isSystem = true ∨ ∃ row, Old row ∧ levels ≤ row.length
  left : I x.2

theorem Roams.imp {levels : Nat} {I J : World → Prop} {x : Trace × World} (roams : Roams Old levels I x)
    (imp : ∀ w, I w → J w) : Roams Old levels J x := ⟨roams.names, roams.ends, imp _ roams.left⟩

/-- Walks one after the other roam as each of them does. -/
theorem roams_sequence {α : Type} {walk : α → StateM World Trace} {l : List α} {levels : Nat} {I : World → Prop}
    (each : ∀ a ∈ l, ∀ w, I w → Roams Old levels I (walk a w)) (begun : I w) :
    Roams Old levels I (Trace.sequence walk l w) := by
  induction l generalizing w with
  | nil => exact ⟨fun name member => absurd member List.not_mem_nil, fun fault failed => (by cases failed), begun⟩
  | cons a l ih =>
    have one := each a (List.mem_cons_self ..) w begun
    rw [Trace.sequence, bind_apply]
    generalize walk a w = x at one ⊢
    obtain ⟨t, w'⟩ := x
    dsimp only
    cases ended : t.outcome with
    | error fault => exact one
    | ok done =>
      have others := ih (fun b member => each b (List.mem_cons_of_mem a member)) one.left
      dsimp only [bind_apply]
      generalize Trace.sequence walk l w' = y at others ⊢
      refine ⟨fun name member => ?_, others.ends, others.left⟩
      have both : Trace.names ⟨t.visited ++ y.1.visited, y.1.outcome⟩ = t.names ++ y.1.names := List.map_append
      rcases List.mem_append.1 (both ▸ member) with before | later
      · exact one.names name before
      · exact others.names name later

/-- A directory is listed, and every answer tells what is stored in it. -/
theorem lists_told (shared : Shared n as ds w) (id' : Nat) (names : Names bs) (told : Told w n as bs info)
    (directory : info.directory = true) :
    ∃ infos, (filesystem id' ⟨n, ofReduced true as⟩).list (ofReduced false bs) w = (.ok infos, w) ∧
      (∀ child ∈ infos, Names (bs ++ [child.name]) ∧ Told w n as (bs ++ [child.name]) child) ∧
      ∀ c, Names [c] → IsDirectory (w.volume n).store (ofReduced true (as ++ (bs ++ [c]))) →
        ∃ child ∈ infos, child.name = c ∧ child.directory = true := by
  obtain ⟨e, stored, kind, -⟩ := told
  have row := names_append.2 ⟨shared.source.names, names⟩
  obtain ⟨infos, listed, -, mem_infos⟩ := listing_spec shared.source.sound (shared.source.labelled.under _) row
    ⟨e, stored, kind.symm.trans directory⟩
  refine ⟨infos, Prod.ext listed rfl, fun child member => ?_, fun c name there => ?_⟩
  · obtain ⟨longer, e', stored', described⟩ := (mem_infos child.name child).1 ⟨member, rfl⟩
    rw [List.append_assoc] at longer stored'
    exact ⟨(names_append.1 longer).2, e', stored', by rw [← described]; rfl, by rw [← described]; rfl⟩
  · obtain ⟨d, stored', directory'⟩ := there
    rw [← List.append_assoc] at stored'
    obtain ⟨member, called⟩ := (mem_infos c _).2 ⟨names_append.2 ⟨row, name⟩, d, stored', rfl⟩
    exact ⟨_, member, called, directory'⟩

/-- **A copy within a volume reaches only rows that can be reached**, and goes no deeper than these are long. -/
theorem roams_tree (closed : Closed as ds Old) (id id' : Nat) {levels depth : Nat} (shared : Shared n as ds w)
    (within : Within Old w n as) (old : Old bs) (told : Told w n as bs info) (deep : levels ≤ bs.length + depth) :
    Roams Old levels (Goes Old n as ds w)
      ((filesystem id' ⟨n, ofReduced true as⟩).walkTree (visit n as ds id id') depth (ofReduced false bs) info w) := by
  induction depth generalizing w bs info with
  | zero =>
    refine ⟨fun name member => absurd member List.not_mem_nil, fun fault _ => .inr ⟨bs, old, deep⟩, ?_⟩
    exact ⟨shared, within, .refl n ds w⟩
  | succ depth ih =>
    have first {t : Trace} {I : World → Prop} {w' : World} (roams : Roams Old levels I (t, w')) :
        Roams Old levels I (.cons (ofReduced false bs) (w.refresh info) t, w') := by
      refine ⟨fun name member => ?_, roams.ends, roams.left⟩
      rcases List.mem_cons.1 member with rfl | later
      · exact ⟨bs, old, rfl⟩
      · exact roams.names name later
    have stops {fault : Error} {w' : World} (system : fault.isSystem = true) (goes : Goes Old n as ds w w') :
        Roams Old levels (Goes Old n as ds w) (.cons (ofReduced false bs) (w.refresh info) (.failed fault), w') := by
      refine first ⟨fun name member => absurd member List.not_mem_nil, fun fault' failed => .inl ?_, goes⟩
      rwa [← Except.error.inj failed]
    have came := visited shared id id' closed within old told
    rw [Filesystem.walkTree_succ]
    generalize visit n as ds id id' (ofReduced false bs) info w = x at came ⊢
    cases came with
    | error failed => exact stops failed.1 failed.2
    | @ok _ w' done =>
      obtain ⟨goes, -⟩ := done
      dsimp only
      cases directory : info.directory with
      | false =>
        refine first ⟨fun name member => absurd member List.not_mem_nil, fun fault failed => ?_, goes⟩
        cases failed
      | true =>
        obtain ⟨infos, listed, each, -⟩ := lists_told goes.shared id' (closed.named bs old)
          (told.onward goes.onward) directory
        rw [if_pos rfl, listed]
        refine first (Roams.imp (I := Goes Old n as ds w') ?_ fun _ => .after goes.onward)
        refine roams_sequence (fun child member w'' going => ?_) ⟨goes.shared, goes.within, .refl n ds w'⟩
        obtain ⟨names, told'⟩ := each child member
        have old' := goes.within _ names told'.stored
        have further := ih going.shared going.within old' (told'.onward going.onward)
          (by rw [List.length_append, List.length_singleton]; omega)
        rw [child_ofReduced names]
        exact further.imp fun _ => .after going.onward

/-! ## A destination below its source -/

/-- Walks one after the other do not end well if one of them does not, whatever those before it leave. -/
theorem sequence_fails {α : Type} {walk : α → StateM World Trace} {l : List α} {a : α} {I : World → Prop}
    (member : a ∈ l) (each : ∀ b ∈ l, ∀ w, I w → I (walk b w).2) (fails : ∀ w, I w → (walk a w).1.outcome ≠ .ok ())
    (begun : I w) : (Trace.sequence walk l w).1.outcome ≠ .ok () := by
  induction l generalizing w with
  | nil => exact absurd member List.not_mem_nil
  | cons b l ih =>
    have left := each b (List.mem_cons_self ..) w begun
    have failed (same : a = b) : (walk b w).1.outcome ≠ .ok () := same ▸ fails w begun
    rw [Trace.sequence, bind_apply]
    generalize walk b w = x at left failed ⊢
    obtain ⟨t, w'⟩ := x
    dsimp only
    cases ended : t.outcome with
    | error fault =>
      intro well
      change t.outcome = .ok () at well
      rw [ended] at well
      cases well
    | ok done =>
      rcases List.mem_cons.1 member with same | later
      · exact absurd ended (failed same)
      · exact ih later (fun c inside => each c (List.mem_cons_of_mem b inside)) left

/-- A row that repeats another one goes on. -/
theorem exists_next (proper : xs ≠ []) (again : bs <+: xs ++ bs) : ∃ c, bs ++ [c] <+: xs ++ bs := by
  obtain ⟨back, split⟩ := again
  cases back with
  | nil =>
    rw [List.append_nil] at split
    exact absurd (List.self_eq_append_left.1 split) proper
  | cons c back => exact ⟨c, back, by rw [← split, List.append_assoc]; rfl⟩

/-- A destination below its source leads to any names. -/
theorem closed_names (names : Names (as ++ xs)) : Closed as (as ++ xs) Names where
  named := fun _ names => names
  back := by
    intro row front row' names' ahead same
    rw [List.append_assoc] at same
    obtain rfl := List.append_cancel_left same
    exact names_append.2 ⟨(names_append.1 names).2, names'.ahead ahead⟩

/-- **Below its source, a destination has no end**: each directory that is made leads to one more, so that no levels
are enough. -/
theorem endless (id id' : Nat) {depth : Nat} (proper : xs ≠ []) (shared : Shared n as (as ++ xs) w) (names : Names bs)
    (told : Told w n as bs info) (directory : info.directory = true) (again : bs <+: xs ++ bs) :
    ((filesystem id' ⟨n, ofReduced true as⟩).walkTree (visit n as (as ++ xs) id id') depth (ofReduced false bs) info
      w).1.outcome ≠ .ok () := by
  induction depth generalizing w bs info with
  | zero => exact fun well => by cases well
  | succ depth ih =>
    have closed := closed_names shared.dest.names
    have within (w : World) : Within Names w n as := fun row names _ => names
    have came := visited shared id id' closed (within w) names told
    rw [Filesystem.walkTree_succ]
    generalize visit n as (as ++ xs) id id' (ofReduced false bs) info w = x at came ⊢
    cases came with
    | error failed => exact fun well => by cases well
    | @ok _ w' done =>
      obtain ⟨goes, made⟩ := done
      -- The next name of the row leads on the way to the directory that was just made.
      obtain ⟨c, further⟩ := exists_next proper again
      have ahead : bs ++ [c] <+: xs ++ (bs ++ [c]) := further.trans ⟨[c], List.append_assoc ..⟩
      have whole : Names (as ++ xs ++ bs) := names_append.2 ⟨shared.dest.names, names⟩
      have name : Names [c] := by
        intro x inside
        rw [List.append_assoc] at whole
        exact whole x (List.mem_append_right _ (further.subset (List.mem_append_right _ inside)))
      have there : IsDirectory (w'.volume n).store (ofReduced true (as ++ (bs ++ [c]))) := by
        obtain ⟨rest, split⟩ := further
        have made := made directory
        rw [List.append_assoc, ← split, ← List.append_assoc] at whole made
        exact goes.shared.source.linked.onWay whole made
      obtain ⟨infos, listed, each, every⟩ := lists_told goes.shared id' names (told.onward goes.onward) directory
      obtain ⟨child, member, rfl, kind⟩ := every c name there
      dsimp only
      rw [if_pos directory, listed]
      refine sequence_fails (I := Goes Names n as (as ++ xs) w') member (fun b inside w'' going => ?_)
        (fun w'' going => ?_) ⟨goes.shared, within w', .refl ..⟩
      · obtain ⟨names', told'⟩ := each b inside
        rw [child_ofReduced names']
        have roams := roams_tree closed id id' going.shared going.within names' (told'.onward going.onward)
          (Nat.zero_le (_ + depth))
        exact .after going.onward roams.left
      · obtain ⟨names', told'⟩ := each child member
        rw [child_ofReduced names']
        exact ih going.shared names' (told'.onward going.onward) kind ahead

/-! ## Rows that recur -/

/-- A row that was stored, behind another row taken some times. -/
def Recurs (s : Store Entry) (as xs row : List Text) : Prop :=
  Names row ∧ ∃ k, (s.get? (ofReduced true (as ++ ((List.replicate k xs).flatten ++ row)))).isSome = true

theorem names_times (hx : Names xs) (k : Nat) : Names (List.replicate k xs).flatten := by
  intro x inside
  obtain ⟨row, member, inside⟩ := List.mem_flatten.1 inside
  exact hx x (List.eq_of_mem_replicate member ▸ inside)

theorem closed_recurs (source : Firm s as) (hx : Names xs)
    (back : ∀ front row, ds ++ front = as ++ row → front = xs ++ row) : Closed as ds (Recurs s as xs) where
  named := fun _ recurs => recurs.1
  back := by
    rintro row front row' ⟨names, k, stored⟩ ahead same
    obtain rfl := back front row' same
    obtain ⟨rest, rfl⟩ := ahead
    obtain ⟨hf, hr⟩ := names_append.1 names
    -- Behind the row taken once more stands what it leads to.
    have once : as ++ ((List.replicate k xs).flatten ++ (xs ++ row' ++ rest)) =
        as ++ ((List.replicate (k + 1) xs).flatten ++ row') ++ rest := by
      rw [List.replicate_succ', List.flatten_append, List.flatten_singleton]
      simp only [List.append_assoc]
    have named := (names_append.1 hf).2
    refine ⟨named, k + 1, ?_⟩
    have whole := names_append.2 ⟨names_append.2 ⟨source.names, names_append.2 ⟨names_times hx (k + 1), named⟩⟩, hr⟩
    rw [once] at stored
    by_contra missing
    rw [source.linked.bare (Option.not_isSome_iff_eq_none.1 missing) whole] at stored
    cases stored

/-- How a copy within a volume ends that reaches rows that recur only. -/
structure Ends (s : Store Entry) (as xs : List Text) (x : Trace × World) : Prop where
  names : ∀ name ∈ x.1.names, ∃ row, Recurs s as xs row ∧ name = ofReduced false row
  ends : ∀ fault, x.1.outcome = .error fault → fault.isSystem = true

/-- A walk from the root of a view. -/
theorem walk_root (shared : Shared n as ds w) (visit : Text → Info → Action Unit) (id' : Nat) :
    ∃ info, (filesystem id' ⟨n, ofReduced true as⟩).walkWith visit here w =
        (filesystem id' ⟨n, ofReduced true as⟩).walkTree visit (Filesystem.spareLevels + w.nesting)
          (ofReduced false []) info w ∧ Told w n as [] info ∧ info.directory = true := by
  obtain ⟨e, stored, kind⟩ := shared.source.root
  have row : Names (as ++ []) := names_append.2 ⟨shared.source.names, names_nil⟩
  rw [← List.append_nil as] at stored
  have told : (filesystem id' ⟨n, ofReduced true as⟩).stat here w =
      (.ok (describe ⟨n, ofReduced true as⟩ (ofReduced true (as ++ []), e) w), w) := stat_row row stored
  exact ⟨_, by rw [Filesystem.walkWith_eq, told]; rfl, ⟨e, stored, rfl, rfl⟩, kind⟩

theorem ends_recurs (shared : Shared n as ds w) (id id' : Nat) (hx : Names xs)
    (back : ∀ front row, ds ++ front = as ++ row → front = xs ++ row) :
    Ends (w.volume n).store as xs
      ((filesystem id' ⟨n, ofReduced true as⟩).walkWith (visit n as ds id id') here w) := by
  obtain ⟨info, run, told, -⟩ := walk_root shared (visit n as ds id id') id'
  have within : Within (Recurs (w.volume n).store as xs) w n as := fun row names stored => ⟨names, 0, stored⟩
  have old := within [] names_nil told.stored
  have roams := roams_tree (closed_recurs shared.source hx back) id id' shared within old told
    (Nat.le_add_left (Filesystem.spareLevels + w.nesting) _)
  rw [run]
  refine ⟨roams.names, fun fault failed => (roams.ends fault failed).resolve_right ?_⟩
  rintro ⟨row, ⟨names, k, stored⟩, deep⟩
  -- A row as long as that would have a key that is too long.
  obtain ⟨e, there⟩ := Option.isSome_iff_exists.1 stored
  have short := length_lt_spare shared.source.sound there []
  have long := length_le_key (names_append.2 ⟨shared.source.names, names_append.2 ⟨names_times hx k, names⟩⟩)
  simp only [List.length_append, List.length_nil] at short long deep
  omega

/-! ## Two views of a session -/

/-- A name that a copy has logged. -/
def Processed (report : CopyReport) (name : Text) : Prop := ∃ line ∈ report.log, Logged line name

/-- A copy ends well, or with an error of the host. -/
def Finishes (report : CopyReport) : Prop :=
  report.outcome = .ok () ∨ ∃ fault, report.outcome = .error fault ∧ fault.isSystem = true

/-- What a copy between two views of one volume comes to. Where neither root lies below the other, it processes only
what was stored. Where the source lies below the destination, it processes what was stored behind the way from one to
the other taken some times. Either way it finishes. Where the destination lies below the source, it does not end
well. -/
structure Overlaps (src dest : View) (w : World) (ended : CopyReport × World) : Prop where
  apart : (∀ inner, isValid inner = true → inner ≠ here →
      src.root ≠ key dest.root inner ∧ dest.root ≠ key src.root inner) →
    Finishes ended.1 ∧ ∀ name, Processed ended.1 name → (src.stored? w name).isSome = true
  below : ∀ inner, isValid inner = true → inner ≠ here → src.root = key dest.root inner →
    Finishes ended.1 ∧ ∀ name, Processed ended.1 name → ∃ k, (src.stored? w ((below inner)^[k] name)).isSome = true
  above : ∀ inner, isValid inner = true → inner ≠ here → dest.root = key src.root inner → ended.1.outcome ≠ .ok ()

theorem below_here (name : Text) : below here name = name := by
  rw [below, if_pos rfl]
  split
  · next top => exact top.symm
  · rfl

theorem iterate_below (hx : Names xs) (names : Names bs) (k : Nat) :
    (below (ofReduced false xs))^[k] (ofReduced false bs) = ofReduced false ((List.replicate k xs).flatten ++ bs) := by
  induction k with
  | zero => rfl
  | succ k ih =>
    rw [Function.iterate_succ_apply', ih, below_ofReduced hx (names_append.2 ⟨names_times hx k, names⟩),
      List.replicate_succ, List.flatten_cons, List.append_assoc]

/-- What a copy has processed recurs. -/
theorem Ends.processed {x : Trace × World} (ends : Ends (w.volume n).store as xs x) (ha : Names as) (hx : Names xs)
    {root name : Text} (processed : Processed ⟨Filesystem.copyLog root x.1, x.1.outcome⟩ name) :
    ∃ k, (View.stored? ⟨n, ofReduced true as⟩ w ((below (ofReduced false xs))^[k] name)).isSome = true := by
  obtain ⟨line, member, logged⟩ := processed
  obtain ⟨row, ⟨names, k, stored⟩, rfl⟩ := ends.names name (mem_names_of_logged member logged)
  refine ⟨k, ?_⟩
  rwa [iterate_below hx names k, stored?_row (names_append.2 ⟨ha, names_append.2 ⟨names_times hx k, names⟩⟩)]

theorem Ends.finishes {x : Trace × World} (ends : Ends s as xs x) (log : List (LogLevel × Text)) :
    Finishes ⟨log, x.1.outcome⟩ := by
  cases ended : x.1.outcome with
  | ok done => exact .inl rfl
  | error fault => exact .inr ⟨fault, rfl, ends.ends fault ended⟩

/-- A copy is a walk that visits. -/
theorem copy_visit (n : Nat) (as ds : List Text) (id id' : Nat) (w : World) :
    (filesystem id ⟨n, ofReduced true ds⟩).copy (filesystem id' ⟨n, ofReduced true as⟩) here w =
      let walk := (filesystem id' ⟨n, ofReduced true as⟩).walkWith (visit n as ds id id') here w
      (⟨Filesystem.copyLog here walk.1, walk.1.outcome⟩, walk.2) := rfl

/-- Where what is made in the source lies behind `xs` there, a copy finishes, and what it processes recurs. -/
theorem copy_recurs (shared : Shared n as ds w) (id id' : Nat) (hx : Names xs)
    (back : ∀ front row, ds ++ front = as ++ row → front = xs ++ row) :
    let ended := (filesystem id ⟨n, ofReduced true ds⟩).copy (filesystem id' ⟨n, ofReduced true as⟩) here w
    Finishes ended.1 ∧ ∀ name, Processed ended.1 name →
      ∃ k, (View.stored? ⟨n, ofReduced true as⟩ w ((below (ofReduced false xs))^[k] name)).isSome = true := by
  have ends := ends_recurs shared id id' hx back
  rw [copy_visit]
  exact ⟨ends.finishes _, fun name processed => ends.processed shared.source.names hx processed⟩

/-- Rows below two roots are the same only if the roots are equal, or one lies below the other. -/
theorem same_of_apart (ha : Names as) (hd : Names ds)
    (apart : ∀ inner, isValid inner = true → inner ≠ here →
      ofReduced true as ≠ key (ofReduced true ds) inner ∧ ofReduced true ds ≠ key (ofReduced true as) inner)
    {front row : List Text} (same : ds ++ front = as ++ row) : front = row := by
  have equal {x : List Text} (names : Names x) (lower : as = ds ++ x ∨ ds = as ++ x) : x = [] := by
    by_contra hne
    have other := apart (ofReduced false x) (isValid_iff_names.2 ⟨x, names, rfl⟩) (ofReduced_ne_here names hne)
    rw [key_ofReduced hd names, key_ofReduced ha names] at other
    rcases lower with rfl | rfl
    · exact other.1 rfl
    · exact other.2 rfl
  rcases List.append_eq_append_iff.1 same with ⟨x, lower, split⟩ | ⟨x, lower, split⟩
  · obtain rfl := equal (names_append.1 (lower ▸ ha)).2 (.inl lower)
    exact split
  · obtain rfl := equal (names_append.1 (lower ▸ hd)).2 (.inr lower)
    exact split.symm

theorem overlaps (shared : Shared n as ds w) (id id' : Nat) :
    Overlaps ⟨n, ofReduced true as⟩ ⟨n, ofReduced true ds⟩ w
      ((filesystem id ⟨n, ofReduced true ds⟩).copy (filesystem id' ⟨n, ofReduced true as⟩) here w) := by
  have ha := shared.source.names
  have hd := shared.dest.names
  constructor
  · intro apart
    obtain ⟨finishes, processed⟩ := copy_recurs shared id id' names_nil fun _ _ same => same_of_apart ha hd apart same
    refine ⟨finishes, fun name done => ?_⟩
    obtain ⟨k, stored⟩ := processed name done
    rwa [ofReduced_nil, Function.iterate_fixed (below_here name)] at stored
  · intro inner valid proper lower
    obtain ⟨xs, hx, rfl⟩ := isValid_iff_names.1 valid
    rw [key_ofReduced hd hx] at lower
    dsimp only at lower
    obtain rfl := ofReduced_inj ha (names_append.2 ⟨hd, hx⟩) lower
    exact copy_recurs shared id id' hx fun front row same => by
      rw [List.append_assoc] at same
      exact List.append_cancel_left same
  · intro inner valid proper lower
    obtain ⟨xs, hx, rfl⟩ := isValid_iff_names.1 valid
    rw [key_ofReduced ha hx] at lower
    dsimp only at lower
    obtain rfl := ofReduced_inj hd (names_append.2 ⟨ha, hx⟩) lower
    have hne : xs ≠ [] := by
      rintro rfl
      exact proper rfl
    obtain ⟨info, walk, told, directory⟩ := walk_root shared (visit n as (as ++ xs) id id') id'
    rw [copy_visit, walk]
    exact endless id id' hne shared names_nil told directory List.nil_prefix

/-- **What copying between two views of one store does.** -/
theorem copy_overlapping {calls : List Call} (linked : Linked (start.after calls).store) (v u : Nat)
    (source : IsDirectory (start.after calls).store ((start.after calls).root v))
    (dest : IsDirectory (start.after calls).store ((start.after calls).root u)) (id id' : Nat) :
    Overlaps ⟨0, (start.after calls).root v⟩ ⟨0, (start.after calls).root u⟩ (start.after calls).world
      ((filesystem id ⟨0, (start.after calls).root u⟩).copy (filesystem id' ⟨0, (start.after calls).root v⟩) here
        (start.after calls).world) := by
  obtain ⟨wired, sound, labelled⟩ := labelled_after calls
  obtain ⟨as, ha, own⟩ := (wired.root v).names
  obtain ⟨ds, hd, own'⟩ := (wired.root u).names
  rw [own] at source ⊢
  rw [own'] at dest ⊢
  have there : 0 < (start.after calls).world.volumes.size := by
    obtain ⟨d, stored, -⟩ := source
    exact there_of_stored (by rw [← Session.store, stored, Option.isSome_some])
  have shared : Shared 0 as ds (start.after calls).world :=
    ⟨there, ⟨sound, labelled, linked, ha, source⟩, ⟨sound, labelled, linked, hd, dest⟩⟩
  exact overlaps shared id id'

/-- The calls of a session that makes a directory which has one of its own name in it, and takes a view of it. -/
def innerCalls : List Call :=
  [.on 0 (.write "a/a/b/c".text [] 0o644), .on 0 (.mkdirAll "a/b".text 0o777), .on 0 (.sub "a".text)]

theorem reached_inner : Reached (start.after innerCalls) := by
  have written := Reached.call (.on 0 (.write "a/a/b/c".text [] 0o644)) .start (.inl rfl)
  have made := Reached.call (.on 0 (.mkdirAll "a/b".text 0o777)) written (.inl rfl)
  exact .call (.on 0 (.sub "a".text)) made trivial

theorem copy_overlapping_inner :
    Linked (start.after innerCalls).store ∧
      IsDirectory (start.after innerCalls).store ((start.after innerCalls).root 1) ∧
      IsDirectory (start.after innerCalls).store ((start.after innerCalls).root 0) ∧
      Overlaps ⟨0, (start.after innerCalls).root 1⟩ ⟨0, (start.after innerCalls).root 0⟩
        (start.after innerCalls).world ((filesystem 0 ⟨0, (start.after innerCalls).root 0⟩).copy
          (filesystem 1 ⟨0, (start.after innerCalls).root 1⟩) here (start.after innerCalls).world) := by
  have linked : Linked (start.after innerCalls).store := (tree_reached reached_inner).1.linked
  have source : IsDirectory (start.after innerCalls).store ((start.after innerCalls).root 1) := by decide +kernel
  have dest : IsDirectory (start.after innerCalls).store ((start.after innerCalls).root 0) := by decide +kernel
  exact ⟨linked, source, dest, copy_overlapping linked 1 0 source dest 0 1⟩

/-- What a copy makes in its own source is processed with what was stored there. -/
theorem not_processed_stored :
    ¬∀ (calls : List Call) (v u : Nat) (name : Text), Linked (start.after calls).store →
      IsDirectory (start.after calls).store ((start.after calls).root v) →
      IsDirectory (start.after calls).store ((start.after calls).root u) →
      Processed ((filesystem 0 ⟨0, (start.after calls).root u⟩).copy
        (filesystem 1 ⟨0, (start.after calls).root v⟩) here (start.after calls).world).1 name →
      (View.stored? ⟨0, (start.after calls).root v⟩ (start.after calls).world name).isSome = true := by
  intro stored
  have linked : Linked (start.after innerCalls).store := (tree_reached reached_inner).1.linked
  have there := stored innerCalls 1 0 "b/c".text linked (by decide +kernel) (by decide +kernel)
    ⟨(.debug, "copy_fs: copy b/c".text), by decide +kernel, .inr rfl⟩
  revert there
  decide +kernel

end Vfs.Memory
