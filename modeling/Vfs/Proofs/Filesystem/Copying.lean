import Vfs.Proofs.Filesystem.Errand
import Vfs.Proofs.Filesystem.Pouring
import Vfs.Proofs.Memory.Rooted
import Vfs.Proofs.Memory.Spread

/-!
# Copying a tree

Copying is an errand: it lays the rows of the source in the destination, in the order of a walk. As long as the two
do not share a volume, the source stays as it is, and what the destination comes to is told row by row (`Proceeds`).
The walk stops only where the destination has something in the way, or where the source raises an error (`Stops`).
-/

namespace Vfs.Memory
set_option autoImplicit false
open Vfs.Path

/-- What a volume has at the rows below a root. -/
def foundIn (w : World) (n : Nat) (as bs : List Text) : Option Entry :=
  (w.volume n).store.get? (ofReduced true (as ++ bs))

/-- What is known of a view still holds when entries were made, seen from a directory. -/
theorem Firm.made {s t : Store Entry} {as ds : List Text} (firm : Firm s as)
    (dest : IsDirectory s (ofReduced true ds)) (sound : t.Sound) (made : Made (ofReduced true ds) s t) : Firm t as where
  sound := sound
  labelled := firm.labelled.made made
  linked := firm.linked.made dest made
  names := firm.names
  root := made.isDirectory firm.root

/-- Some rows of the view `as` of volume `n` were laid in the view `ds` of volume `m`. -/
structure Proceeds (home : World) (n m : Nat) (as ds rs : List Text) (done : List (List Text)) (w : World) :
    Prop where
  size : w.volumes.size = home.volumes.size
  source : w.volume n = home.volume n
  spread : Spread (foundIn home n as) (home.volume m).store ds rs done (w.volume m).store

/-- How copying stops at a row. Something is in the way in the destination; or the source raises an error, before
anything was made, while a file is read, or behind a directory that was made. -/
inductive Stops (faults : Text → World → Error → Prop) (home : World) (n m : Nat) (as ds rs : List Text)
    (front : List (List Text)) (bs : List Text) (fault : Error) (w : World) : Prop where
  | refused : ¬Clear (foundIn home n as) (home.volume m).store ds rs →
      Stops faults home n m as ds rs front bs fault w
  | before {w₀ : World} : faults (ofReduced false bs) w₀ fault → Proceeds home n m as ds rs front w →
      Stops faults home n m as ds rs front bs fault w
  | behind {w₀ : World} : faults (ofReduced false bs) w₀ fault →
      IsDirectory (home.volume n).store (ofReduced true (as ++ bs)) → Proceeds home n m as ds rs (front ++ [bs]) w →
      Stops faults home n m as ds rs front bs fault w
  | within {e : Entry} (k : Nat) : Broke (faults (ofReduced false bs)) e.data k fault →
      foundIn home n as bs = some e → e.directory = false →
      Spread (Function.update (foundIn home n as) bs (some (e.holding (e.data.take (k * chunk)))))
        (home.volume m).store ds rs (front ++ [bs]) (w.volume m).store →
      Stops faults home n m as ds rs front bs fault w

variable {faults : Text → World → Error → Prop} {home w w' : World} {n m : Nat} {as ds rs bs : List Text}
  {front back : List (List Text)} {e : Entry} {source : Filesystem}

/-- A listing depends on its volume only. -/
theorem listing_congr (same : w.volume n = home.volume n) (root dir : Text) :
    listing ⟨n, root⟩ dir w = listing ⟨n, root⟩ dir home := by
  simp only [listing, describe, same]

/-- Only the source and the destination matter. -/
theorem Proceeds.still (proceeds : Proceeds home n m as ds rs front w) (still : Still w w') :
    Proceeds home n m as ds rs front w' where
  size := by rw [still.volumes, proceeds.size]
  source := by rw [volume_eq still.volumes, proceeds.source]
  spread := by
    rw [volume_eq still.volumes]
    exact proceeds.spread

/-- A copy to a memory filesystem is a walk of its source, of which it tells the log. -/
theorem copy_run (id : Nat) (view : View) (source : Filesystem) (name : Text) (w : World) :
    (filesystem id view).copy source name w =
      let walk := source.walkWith (Filesystem.copyEntry (filesystem id view) source) name w
      (⟨Filesystem.copyLog name walk.1, walk.1.outcome⟩, walk.2) := rfl

/-! ## The log -/

/-- The line of the log about a name that was reached. -/
def Logged (line : LogLevel × Text) (name : Text) : Prop :=
  line = (.debug, "copy_fs: mkdir ".text ++ name) ∨ line = (.debug, "copy_fs: copy ".text ++ name)

/-- What a copy logs where it visits. -/
def visitLine (step : Text × Info) : LogLevel × Text :=
  (.debug, (if step.2.directory then "copy_fs: mkdir ".text else "copy_fs: copy ".text) ++ step.1)

theorem logged_visitLine (step : Text × Info) : Logged (visitLine step) step.1 := by
  cases kind : step.2.directory with
  | true => exact .inl (by simp only [visitLine, kind, if_true])
  | false => exact .inr (by simp only [visitLine, kind, Bool.false_eq_true, if_false])

/-- The two lines differ in the tenth character. -/
theorem mkdir_ne_copy (name name' : Text) : "copy_fs: mkdir ".text ++ name ≠ "copy_fs: copy ".text ++ name' := by
  intro same
  have start : "copy_fs: m".text = "copy_fs: c".text := congrArg (List.take 10) same
  exact absurd start (by decide)

/-- Lines tell names apart. -/
theorem Logged.name_eq {line : LogLevel × Text} {name name' : Text} (logged : Logged line name)
    (logged' : Logged line name') : name = name' := by
  rcases logged with rfl | rfl
  · rcases logged' with same | same
    · exact List.append_cancel_left (Prod.ext_iff.1 same).2
    · exact absurd (Prod.ext_iff.1 same).2 (mkdir_ne_copy name name')
  · rcases logged' with same | same
    · exact absurd (Prod.ext_iff.1 same).2.symm (mkdir_ne_copy name' name)
    · exact List.append_cancel_left (Prod.ext_iff.1 same).2

/-- Only names that were reached are logged. -/
theorem mem_names_of_logged {t : Trace} {line : LogLevel × Text} {name root : Text}
    (member : line ∈ Filesystem.copyLog root t) (logged : Logged line name) : name ∈ t.names := by
  have visited : line ∈ t.visited.map visitLine := by
    cases ended : t.outcome with
    | ok done =>
      simp only [Filesystem.copyLog, ended] at member
      exact member
    | error fault =>
      simp only [Filesystem.copyLog, ended] at member
      rcases List.mem_append.1 member with visited | last
      · exact visited
      · split at last
        · obtain rfl := List.mem_singleton.1 last
          rcases logged with same | same <;> cases same
        · exact absurd last List.not_mem_nil
  obtain ⟨step, inside, rfl⟩ := List.mem_map.1 visited
  rw [logged.name_eq (logged_visitLine step)]
  exact List.mem_map_of_mem inside

/-- The log of a copy that ended with an error of the host: a line for each name, and one that says which was last. -/
theorem copyLog_error {t : Trace} {fault : Error} (failed : t.outcome = .error fault) (system : fault.isSystem = true)
    (name : Text) :
    ∃ lines, Filesystem.copyLog name t = lines ++ [(.warning, "copy_fs aborted at ".text ++
        t.names.getLastD name ++ ": ".text ++ fault.message)] ∧ List.Forall₂ Logged lines t.names := by
  have last : t.names.getLastD name = (t.visited.getLast?.map (·.1)).getD name := by
    rw [Trace.names, List.getLastD_eq_getLast?, List.getLast?_map]
  refine ⟨t.visited.map visitLine, ?_, ?_⟩
  · simp only [Filesystem.copyLog, failed, system, if_true, last]
    rfl
  · rw [Trace.names, List.forall₂_map_left_iff, List.forall₂_map_right_iff, List.forall₂_same]
    exact fun step _ => logged_visitLine step

/-! ## A copy from one volume to another -/

/-- A tree in one volume that is to be copied to a view of another one. -/
structure Task (home : World) (n m : Nat) (as ds rs : List Text) : Prop where
  apart : n ≠ m
  there : m < home.volumes.size
  source : Firm (home.volume n).store as
  dest : Firm (home.volume m).store ds
  named : Names rs
  stored : ((home.volume n).store.get? (ofReduced true (as ++ rs))).isSome = true

namespace Task

variable (task : Task home n m as ds rs)
include task

theorem names : Names (as ++ rs) := names_append.2 ⟨task.source.names, task.named⟩

theorem row (order : bs ∈ walkOrder home n as rs) : Names (as ++ bs) ∧ Names bs ∧ rs <+: bs := by
  have row := stored_of_mem_preorder task.source.sound (task.source.labelled.under _) task.names task.stored order
  exact ⟨row.1, (names_append.1 row.1).2, isPrefix_of_mem_preorder order⟩

theorem next (split : walkOrder home n as rs = front ++ bs :: back) : Next rs front bs := by
  obtain ⟨fresh, place⟩ := preorder_split task.source.sound (task.source.labelled.under _) task.names split
  exact ⟨fresh, place⟩

/-- The rows are those at or below the first that are stored. -/
theorem mem_order : bs ∈ walkOrder home n as rs ↔
    rs <+: bs ∧ Names (as ++ bs) ∧ (foundIn home n as bs).isSome = true :=
  mem_walkOrder task.source.sound (task.source.labelled.under _) task.names task.stored task.source.linked

theorem first : rs ∈ walkOrder home n as rs := task.mem_order.2 ⟨List.prefix_refl rs, task.names, task.stored⟩

/-- What the source has under the name of a row. -/
theorem told (names : Names bs) :
    View.stored? ⟨n, ofReduced true as⟩ home (ofReduced false bs) = foundIn home n as bs :=
  stored?_row (names_append.2 ⟨task.source.names, names⟩)

/-- What the destination has there in some world. -/
theorem stood (w : World) (names : Names bs) :
    View.stored? ⟨m, ofReduced true ds⟩ w (ofReduced false bs) = foundIn w m ds bs :=
  stored?_row (names_append.2 ⟨task.dest.names, names⟩)

/-- A row is copied if its name is at or below the name of the first, and stored. -/
theorem copied_iff (names : Names bs) :
    bs ∈ walkOrder home n as rs ↔ AtOrBelow (ofReduced false rs) (ofReduced false bs) ∧
      (View.stored? ⟨n, ofReduced true as⟩ home (ofReduced false bs)).isSome = true := by
  rw [task.mem_order, atOrBelow_iff task.named names, task.told names]
  exact and_congr_right fun _ => and_iff_right (names_append.2 ⟨task.source.names, names⟩)

theorem found (split : walkOrder home n as rs = front ++ bs :: back) : ∃ e, foundIn home n as bs = some e := by
  have member : bs ∈ walkOrder home n as rs := by
    rw [split]
    exact List.mem_append_right _ (List.mem_cons_self ..)
  exact Option.isSome_iff_exists.1 (task.mem_order.1 member).2.2

variable (falters : Falters faults source ⟨n, ofReduced true as⟩)
include falters

/-- Laying one row more. -/
theorem visits (id : Nat) (split : walkOrder home n as rs = front ++ bs :: back)
    (found : foundIn home n as bs = some e) (proceeds : Proceeds home n m as ds rs front w) :
    Comes (fun _ => Proceeds home n m as ds rs (front ++ [bs])) (Stops faults home n m as ds rs front bs)
      (Filesystem.copyEntry (filesystem id ⟨m, ofReduced true ds⟩) source (ofReduced false bs)
        (describe ⟨n, ofReduced true as⟩ (ofReduced true (as ++ bs), e) home) w) := by
  obtain ⟨row, names, -⟩ := task.row (by rw [split]; exact List.mem_append_right _ (List.mem_cons_self ..))
  have next := task.next split
  have sane : Sane e := task.source.labelled.sane _ e found
  have located : locate (ofReduced true as) (w.volume n).store (ofReduced false bs) =
      .ok (ofReduced true (as ++ bs), e) := locate_row row (by rw [proceeds.source]; exact found)
  have turn {t : Store Entry} {done : List (List Text)} {w' : World} (turned : Turned m t w w')
      (spread : Spread (foundIn home n as) (home.volume m).store ds rs done t) : Proceeds home n m as ds rs done w' :=
    ⟨turned.size.trans proceeds.size, (turned.others n task.apart).trans proceeds.source, turned.store.symm ▸ spread⟩
  have copied : Copied (faults (ofReduced false bs)) e m (ofReduced true ds) (ofReduced false bs) w
      (Filesystem.copyEntry (filesystem id ⟨m, ofReduced true ds⟩) source (ofReduced false bs)
        (describe ⟨n, ofReduced true as⟩ (ofReduced true (as ++ bs), e) home) w) :=
    copied_entry id falters (proceeds.size.symm ▸ task.there) located _
  generalize Filesystem.copyEntry _ source _ _ w = x at copied ⊢
  cases copied with
  | unopened own turned => exact .error (.before own (turn turned proceeds.spread))
  | refused stopped turned =>
    refine .error (.refused fun clear => ?_)
    have above : ∀ p c, bs = p ++ [c] → ∃ d, foundIn home n as p = some d ∧ d.directory = true := by
      rintro p c rfl
      rw [← List.append_assoc] at row
      exact task.source.linked.above row (List.cons_ne_nil c []) (by rw [List.append_assoc]; exact found)
    have laid := proceeds.spread.lays task.dest.names task.dest.linked task.dest.root clear names next found above
    rw [laid] at stopped
    cases stopped
  | whole laid turned =>
    have spread := proceeds.spread.step task.dest.names task.dest.linked task.dest.root names next found sane laid
    exact .ok (turn turned spread)
  | part k own file laid turned =>
    have others : ∀ row ∈ front, Function.update (foundIn home n as) bs
        (some (e.holding (e.data.take (k * chunk)))) row = foundIn home n as row := by
      intro row member
      have other : row ≠ bs := by
        rintro rfl
        exact next.fresh member
      exact Function.update_of_ne other _ _
    have sane' : Sane (e.holding (e.data.take (k * chunk))) :=
      ⟨sane.kind, fun directory => absurd (file.symm.trans directory) Bool.false_ne_true⟩
    have spread := (proceeds.spread.congr others).step task.dest.names task.dest.linked task.dest.root names next
      (Function.update_self ..) sane' laid
    exact .error (.within k own found file (turned.store.symm ▸ spread))

/-- A directory that was laid is listed. -/
theorem lists (split : walkOrder home n as rs = front ++ bs :: back)
    (directory : IsDirectory (home.volume n).store (ofReduced true (as ++ bs)))
    (proceeds : Proceeds home n m as ds rs (front ++ [bs]) w) :
    Comes (fun infos w' => listing ⟨n, ofReduced true as⟩ (ofReduced false bs) home = .ok infos ∧
      Proceeds home n m as ds rs (front ++ [bs]) w') (Stops faults home n m as ds rs front bs)
      (source.list (ofReduced false bs) w) := by
  obtain ⟨row, -, -⟩ := task.row (by rw [split]; exact List.mem_append_right _ (List.mem_cons_self ..))
  obtain ⟨infos, listed, -, -⟩ := listing_spec task.source.sound (task.source.labelled.under _) row directory
  cases falters.list (ofReduced false bs) w with
  | raises answered own still =>
    rw [answered]
    exact .error (.behind own directory (proceeds.still still))
  | follows answered still =>
    rw [answered, listing_congr proceeds.source, listed]
    exact .ok ⟨rfl, proceeds.still still⟩

/-- **A copy lays the rows of the source in their order**, or stops at one of them. -/
theorem copied (id : Nat) :
    Walked (Proceeds home n m as ds rs) (Stops faults home n m as ds rs) rs (walkOrder home n as rs)
      (source.walkWith (Filesystem.copyEntry (filesystem id ⟨m, ofReduced true ds⟩) source) (ofReduced false rs)
        home) := by
  obtain ⟨e, stored⟩ := Option.isSome_iff_exists.1 task.stored
  have errand : Errand source (Filesystem.copyEntry (filesystem id ⟨m, ofReduced true ds⟩) source) home n as
      (walkOrder home n as rs) (Proceeds home n m as ds rs) (Stops faults home n m as ds rs) :=
    ⟨task.visits falters id, task.lists falters⟩
  have begun : Proceeds home n m as ds rs [] home := ⟨rfl, rfl, spread_nil task.dest.sound⟩
  have footing : Footing home n as rs e := ⟨task.source.sound, task.source.labelled.under _, task.names, stored⟩
  refine walked errand footing (fun w begun => begun.source) ?_
  cases falters.stat (ofReduced false rs) home with
  | raises answered own still =>
    rw [answered]
    exact .error (.before own (begun.still still))
  | follows answered still =>
    rw [stat_row task.names stored] at answered still
    rw [answered]
    exact .ok ⟨rfl, begun.still still⟩

/-- A copy that ends well has laid all rows. -/
theorem done (id : Nat)
    (ended : ((filesystem id ⟨m, ofReduced true ds⟩).copy source (ofReduced false rs) home).1.outcome = .ok ()) :
    Proceeds home n m as ds rs (walkOrder home n as rs)
      ((filesystem id ⟨m, ofReduced true ds⟩).copy source (ofReduced false rs) home).2 := by
  have copied := task.copied falters id
  rw [copy_run] at ended ⊢
  generalize source.walkWith _ (ofReduced false rs) home = x at copied ended ⊢
  cases copied with
  | untold failed => cases ended
  | went went =>
    cases went with
    | through _ _ proceeds => exact proceeds
    | stopped _ _ failed _ =>
      dsimp only at ended
      rw [failed] at ended
      cases ended

omit falters in
/-- From a source that raises no errors a copy ends well, if nothing is in the way. -/
theorem ends_well (falters : Falters (fun _ _ _ => False) source ⟨n, ofReduced true as⟩) (id : Nat)
    (clear : Clear (foundIn home n as) (home.volume m).store ds rs) :
    ((filesystem id ⟨m, ofReduced true ds⟩).copy source (ofReduced false rs) home).1.outcome = .ok () := by
  have never {front : List (List Text)} {bs : List Text} {fault : Error} {w : World}
      (stops : Stops (fun _ _ _ => False) home n m as ds rs front bs fault w) : False := by
    cases stops with
    | refused taken => exact taken clear
    | before own | behind own => exact own
    | within _ broke => exact broke.elim fun _ own => own.1
  have copied := task.copied falters id
  rw [copy_run]
  generalize source.walkWith _ (ofReduced false rs) home = x at copied ⊢
  cases copied with
  | untold failed => exact (never failed).elim
  | went went =>
    cases went with
    | through ended _ _ => exact ended
    | stopped _ _ _ failed => exact (never failed).elim

/-! ## Copying once more -/

omit falters in
theorem firm (proceeds : Proceeds home n m as ds rs (walkOrder home n as rs) w) : Firm (w.volume m).store ds :=
  task.dest.made task.dest.root proceeds.spread.sound proceeds.spread.made

omit falters in
/-- A copy that has laid all rows can be made once more, and then changes nothing. -/
theorem again (proceeds : Proceeds home n m as ds rs (walkOrder home n as rs) w)
    (falters : Falters (fun _ _ _ => False) source ⟨n, ofReduced true as⟩) (id : Nat) :
    ((filesystem id ⟨m, ofReduced true ds⟩).copy source (ofReduced false rs) w).1.outcome = .ok () ∧
      ∀ k, ((((filesystem id ⟨m, ofReduced true ds⟩).copy source (ofReduced false rs) w).2).volume m).store.get? k =
        (w.volume m).store.get? k := by
  have same := proceeds.source
  have found : foundIn w n as = foundIn home n as := by
    funext bs
    rw [foundIn, same, foundIn]
  have firm := task.firm proceeds
  have next : Task w n m as ds rs :=
    ⟨task.apart, proceeds.size ▸ task.there, same ▸ task.source, firm, task.named, same ▸ task.stored⟩
  have order : walkOrder w n as rs = walkOrder home n as rs := by
    rw [walkOrder, same]
    exact walkOrder_eq task.source.sound (task.source.labelled.under _) task.names task.stored same
  have clear : Clear (foundIn w n as) (w.volume m).store ds rs := by
    constructor
    · intro front ahead proper o stored
      have up : ds ++ front <+: ds ++ rs := (List.prefix_append_right_inj ds).2 ahead
      obtain ⟨d, there, kind⟩ := firm.linked.ahead (names_append.2 ⟨task.dest.names, task.named⟩)
        (proceeds.spread.stored task.first) up fun same => proper (List.append_cancel_left same)
      rw [stored] at there
      exact Option.some.inj there ▸ kind
    · intro bs e o names behind here stored
      rw [found] at here
      have member := task.mem_order.2 ⟨behind, names_append.2 ⟨task.source.names, names⟩,
        Option.isSome_iff_exists.2 ⟨e, here⟩⟩
      obtain ⟨e', here', kind, laid⟩ := proceeds.spread.laid bs member
      obtain rfl := Option.some.inj (here.symm.trans here')
      rw [laid] at stored
      rw [← Option.some.inj stored]
      exact Entry.directory_onto kind
  have ended := next.ends_well falters id clear
  have twice := (next.done falters id ended).spread
  rw [order, found] at twice
  exact ⟨ended, proceeds.spread.again firm.linked task.first task.dest.names twice⟩

end Task

end Vfs.Memory
