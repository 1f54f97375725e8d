import Vfs.Filesystem.Delegate
import Vfs.Proofs.Action
import Vfs.Proofs.Memory.Consistency

/-!
# Asking through an opened file

An action that asks answers the same in every world that has the volumes of another, and leaves the volumes
(`Answers`). A view asks its store. A filesystem that can only open what a view has, opens a name, asks the
handle, and closes it, which makes a handle in the world but changes no volume; so it tells of every name what
the view tells (`shows_opener`).
-/

namespace Vfs
set_option autoImplicit false

/-! ## Actions that only ask -/

/-- An action that answers `r` in every world that has the volumes of `home`, and leaves the volumes. -/
structure Answers {α : Type} (home : World) (action : Action α) (r : Except Error α) : Prop where
  answer : ∀ w, w.volumes = home.volumes → (action w).1 = r
  volumes : ∀ w, w.volumes = home.volumes → (action w).2.volumes = home.volumes

namespace Answers

variable {α β : Type} {home w : World} {action : Action α} {next : α → Action β} {a : α} {e : Error}
  {r : Except Error β}

theorem run {r : Except Error α} (asked : Answers home action r) (same : w.volumes = home.volumes) :
    action w = (r, (action w).2) :=
  Prod.ext (asked.answer w same) rfl

theorem pure (a : α) : Answers home (Pure.pure a) (.ok a) := ⟨fun _ _ => rfl, fun _ h => h⟩

theorem bind (first : Answers home action (.ok a)) (later : Answers home (next a) r) :
    Answers home (action >>= next) r := by
  have step (w : World) (same : w.volumes = home.volumes) : (action >>= next) w = next a (action w).2 := by
    rw [Action.bind_eq, first.run same]
  exact ⟨fun w same => by rw [step w same]; exact later.answer _ (first.volumes w same),
    fun w same => by rw [step w same]; exact later.volumes _ (first.volumes w same)⟩

theorem orElse (asked : Answers home action (.ok a)) (otherwise : α) :
    Answers home (action.orElse otherwise) (.ok a) := by
  have step (w : World) (same : w.volumes = home.volumes) :
      action.orElse otherwise w = (.ok a, (action w).2) := by
    rw [Action.orElse, Action.rescue, asked.run same]
  exact ⟨fun w same => by rw [step w same], fun w same => by rw [step w same]; exact asked.volumes w same⟩

theorem bind_error (first : Answers home action (.error e)) : Answers home (action >>= next) (.error e) := by
  have step (w : World) (same : w.volumes = home.volumes) :
      (action >>= next) w = (.error e, (action w).2) := by
    rw [Action.bind_eq, first.run same]
  exact ⟨fun w same => by rw [step w same], fun w same => by rw [step w same]; exact first.volumes w same⟩

theorem orElse_error (asked : Answers home action (.error e)) (system : e.isSystem = true) (otherwise : α) :
    Answers home (action.orElse otherwise) (.ok otherwise) := by
  have step (w : World) (same : w.volumes = home.volumes) :
      action.orElse otherwise w = (.ok otherwise, (action w).2) := by
    rw [Action.orElse, Action.rescue, asked.run same]
    exact if_pos system
  exact ⟨fun w same => by rw [step w same], fun w same => by rw [step w same]; exact asked.volumes w same⟩

theorem mapM {f : α → Action β} {g : α → β} {l : List α} (each : ∀ a ∈ l, Answers home (f a) (.ok (g a))) :
    Answers home (l.mapM f) (.ok (l.map g)) := by
  induction l with
  | nil => exact .pure []
  | cons a l ih =>
    rw [List.mapM_cons]
    refine (each a (List.mem_cons_self ..)).bind ?_
    exact (ih fun b member => each b (List.mem_cons_of_mem a member)).bind (.pure _)

end Answers

/-! ## What a view tells -/

/-- What can be asked about names and for listings tells what a view tells. -/
structure Shows (home : World) (view : Memory.View) (stat : Text → Action Info)
    (list : Text → Action (List Info)) : Prop where
  stat : ∀ name, Answers home (stat name) (Memory.stat view name home).1
  list : ∀ dir, Answers home (list dir) (Memory.listing view dir home)

namespace Memory
open Vfs.Path

variable {home w : World} {view : View} {name dir : Text} {entries : List Info}

theorem volume_eq (same : w.volumes = home.volumes) (n : Nat) : w.volume n = home.volume n := by
  rw [World.volume, same]
  rfl

theorem stat_eq (same : w.volumes = home.volumes) (name : Text) :
    (stat view name w).1 = (stat view name home).1 := by
  simp only [stat, describe, volume_eq same]

theorem listing_eq (same : w.volumes = home.volumes) (dir : Text) :
    listing view dir w = listing view dir home := by
  simp only [listing, describe, volume_eq same]

theorem shows_filesystem (id : Nat) (home : World) (view : View) :
    Shows home view (filesystem id view).stat (filesystem id view).list where
  stat := fun name => ⟨fun _ same => stat_eq same name, fun _ same => same⟩
  list := fun dir => ⟨fun _ same => listing_eq same dir, fun _ same => same⟩

/-! ## What only opens -/

theorem openFile_eq (view : View) (name : Text) (w : World) :
    openFile view name w = match locate view.root (w.volume view.volume).store name with
      | .error e => (.error e, w)
      | .ok (_, e) =>
        newFile (if e.directory then .ofDirectory view name e.mode else .ofContent view name e.mode e.data) w := by
  rw [openFile, Action.bind_eq, ask]
  cases locate view.root (w.volume view.volume).store name with
  | error e => rfl
  | ok located => rfl

/-- A handle that nothing was written to closes without a change of the volumes. -/
theorem closeHandle_clean {i : Nat} (clean : (handle w i).wrote = false) :
    closeHandle i w = (.ok (), setHandle w i (handle w i).close) := by
  have nothing : (handle w i).commit = none := by rw [Handle.commit, clean]; rfl
  simp only [closeHandle, nothing]

/-- A page of all that is left, asked for at the beginning. -/
theorem nextPage_all (entries : List Info) : nextPage entries 0 (-1) = .ok (entries, entries.length) := by
  unfold nextPage
  cases entries with
  | nil => rfl
  | cons e entries => simp

/-- The handle that a name is opened with. -/
def handleOn (view : View) (name : Text) (e : Entry) : Handle :=
  if e.directory then .ofDirectory view name e.mode else .ofContent view name e.mode e.data

/-- A handle just opened is on its name, asked for no listing, and has nothing to hand over. -/
theorem handleOn_fresh (view : View) (name : Text) (e : Entry) :
    (handleOn view name e).view = view ∧ (handleOn view name e).name = name ∧
      (handleOn view name e).wrote = false ∧ (handleOn view name e).listed = false ∧
      (handleOn view name e).cursor = 0 := by
  unfold handleOn
  split
  · exact ⟨rfl, rfl, rfl, rfl, rfl⟩
  · exact ⟨rfl, rfl, rfl, rfl, rfl⟩

/-- Opening a name, asking the handle and closing it answers the refusal of the name, or what the handle
answers, and leaves the volumes if the handle does. -/
theorem withFile_opener (id : Nat) {α : Type} {question : File → Action α} {r : Except Error α}
    (refused : ∀ e, locate view.root (w.volume view.volume).store name = .error e → r = .error e)
    (told : ∀ k e, locate view.root (w.volume view.volume).store name = .ok (k, e) →
      ∃ w', question (file w.serial w.memoryHandles.size (handleOn view name e))
          (newFile (handleOn view name e) w).2 = (r, w') ∧
        w'.volumes = w.volumes ∧ (handle w' w.memoryHandles.size).wrote = false) :
    ((Filesystem.opener id (some (openFile view))).withFile name question w).1 = r ∧
      ((Filesystem.opener id (some (openFile view))).withFile name question w).2.volumes = w.volumes := by
  have opened : (Filesystem.opener id (some (openFile view))).openFile name = openFile view name := rfl
  rw [Filesystem.withFile, Action.bind_eq, opened, openFile_eq]
  cases located : locate view.root (w.volume view.volume).store name with
  | error e => exact ⟨(refused e located).symm, rfl⟩
  | ok l =>
    obtain ⟨k, e⟩ := l
    obtain ⟨w', asked, left, clean⟩ := told k e located
    have run : Action.ensuring (question (file w.serial w.memoryHandles.size (handleOn view name e)))
        (closeHandle w.memoryHandles.size) (newFile (handleOn view name e) w).2 =
          (r, setHandle w' w.memoryHandles.size (handle w' w.memoryHandles.size).close) := by
      rw [Action.ensuring, asked]
      dsimp only
      rw [closeHandle_clean clean]
    exact ⟨congrArg Prod.fst run, (congrArg (fun x => x.2.volumes) run).trans left⟩

theorem stat_opener (id : Nat) (name : Text) (w : World) :
    ((Filesystem.opener id (some (openFile view))).stat name w).1 = (stat view name w).1 ∧
      ((Filesystem.opener id (some (openFile view))).stat name w).2.volumes = w.volumes := by
  refine withFile_opener id (fun e located => ?_) fun k e located => ?_
  · rw [stat, located]
    rfl
  · obtain ⟨own, ownName, clean, -, -⟩ := handleOn_fresh view name e
    generalize handleOn view name e = h at own ownName clean ⊢
    have question : (file w.serial w.memoryHandles.size h).stat = stat h.view h.name := rfl
    refine ⟨(newFile h w).2, ?_, rfl, by rw [handle_newFile, clean]⟩
    rw [question, own, ownName]
    exact Prod.ext (stat_eq rfl name) rfl

/-- Entries that come by increasing name stay as they are. -/
theorem sortByName_eq (sorted : entries.Pairwise fun e e' => e.name < e'.name) :
    Filesystem.sortByName entries = entries := by
  refine List.mergeSort_of_pairwise (sorted.imp fun {e e'} before => ?_)
  simpa [Text.le] using List.lt_asymm before

theorem list_opener (id : Nat) (dir : Text) (w : World)
    (sorted : ∀ entries, listing view dir w = .ok entries → entries.Pairwise fun e e' => e.name < e'.name) :
    ((Filesystem.opener id (some (openFile view))).list dir w).1 = listing view dir w ∧
      ((Filesystem.opener id (some (openFile view))).list dir w).2.volumes = w.volumes := by
  have asked : ((Filesystem.opener id (some (openFile view))).withFile dir
        (fun f => if f.members.isDirectory then f.list (-1) else missingOperation "ReadDir" dir) w).1 =
        listing view dir w ∧
      ((Filesystem.opener id (some (openFile view))).withFile dir
        (fun f => if f.members.isDirectory then f.list (-1) else missingOperation "ReadDir" dir) w).2.volumes =
        w.volumes := by
    refine withFile_opener id (fun e located => ?_) fun k e located => ?_
    · rw [listing, list, located]
      rfl
    · obtain ⟨own, ownName, clean, unlisted, front⟩ := handleOn_fresh view dir e
      generalize handleOn view dir e = h at own ownName clean unlisted front ⊢
      have there : w.memoryHandles.size < (newFile h w).2.memoryHandles.size := by simp [newFile]
      have now : listing h.view h.name (newFile h w).2 = listing view dir w := by
        rw [own, ownName]
        exact listing_eq rfl dir
      have question : (file w.serial w.memoryHandles.size h).list (-1) (newFile h w).2 =
          ((h.list (-1) (listing view dir w)).1,
            setHandle (newFile h w).2 w.memoryHandles.size (h.list (-1) (listing view dir w)).2) := by
        have run : (file w.serial w.memoryHandles.size h).list (-1) =
            onHandle w.memoryHandles.size fun w h => h.list (-1) (listing h.view h.name w) := rfl
        rw [run, onHandle, handle_newFile, now]
      have answer : (h.list (-1) (listing view dir w)).1 = listing view dir w := by
        unfold Handle.list
        rw [unlisted]
        cases listing view dir w with
        | error fault => rfl
        | ok entries => simp [Except.map, front, nextPage_all]
      rw [answer] at question
      refine ⟨_, question, rfl, ?_⟩
      rw [handle_setHandle there, (Handle.alike_list h (-1) _).wrote, clean]
  have run : (Filesystem.opener id (some (openFile view))).list dir =
      (Filesystem.opener id (some (openFile view))).withFile dir
          (fun f => if f.members.isDirectory then f.list (-1) else missingOperation "ReadDir" dir) >>=
        fun entries => pure (Filesystem.sortByName entries) := rfl
  rw [run, Action.bind_eq]
  generalize (Filesystem.opener id (some (openFile view))).withFile dir _ w = x at asked ⊢
  obtain ⟨r, w'⟩ := x
  obtain ⟨rfl, left⟩ := asked
  dsimp only at left ⊢
  cases told : listing view dir w with
  | error e => exact ⟨rfl, left⟩
  | ok entries => exact ⟨congrArg Except.ok (sortByName_eq (sorted entries told)), left⟩

/-- A filesystem that can only open what a view has tells what the view tells. -/
theorem shows_opener (id : Nat)
    (sorted : ∀ dir entries, listing view dir home = .ok entries → entries.Pairwise fun e e' => e.name < e'.name) :
    Shows home view (Filesystem.opener id (some (openFile view))).stat
      (Filesystem.opener id (some (openFile view))).list where
  stat := by
    refine fun name => ⟨fun w same => ?_, fun w same => (stat_opener id name w).2.trans same⟩
    exact (stat_opener id name w).1.trans (stat_eq same name)
  list := by
    intro dir
    have ordered (w : World) (same : w.volumes = home.volumes) (entries : List Info)
        (told : listing view dir w = .ok entries) : entries.Pairwise fun e e' => e.name < e'.name :=
      sorted dir entries ((listing_eq same dir).symm.trans told)
    refine ⟨fun w same => ?_, fun w same => (list_opener id dir w (ordered w same)).2.trans same⟩
    exact (list_opener id dir w (ordered w same)).1.trans (listing_eq same dir)

end Memory

end Vfs
