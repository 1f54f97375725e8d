import Vfs.Proofs.Filesystem.Errand
import Vfs.Proofs.Filesystem.Transfer
import Vfs.Proofs.Memory.Demand
import Vfs.Proofs.Memory.Rooted

/-!
# Copying from memory and to memory

A view gives the scene that its store shows (`gives_view`), and the whole of a volume accepts one (`accepts_volume`).
Neither touches the host.
-/

namespace Vfs.Memory
set_option autoImplicit false
open Vfs.Path

variable {w : World} {n m : Nat} {s : Store Entry} {S : Scene} {as es : List Text} {e name : Text} {mode : Int}
  {bits : Nat} {data : Bytes}

/-! ## The scene of a view -/

/-- What a store shows to the view of a row. -/
def sceneOf (s : Store Entry) (as : List Text) : Scene := fun es =>
  if Names es then (s.get? (ofReduced true (as ++ es))).map Entry.item else none

theorem sceneOf_names (names : Names es) : sceneOf s as es = (s.get? (ofReduced true (as ++ es))).map Entry.item :=
  if_pos names

/-- What the scene has is stored. -/
theorem stored_of_sceneOf {item : Item} (there : sceneOf s as es = some item) :
    Names es ∧ ∃ e, s.get? (ofReduced true (as ++ es)) = some e ∧ e.item = item := by
  rw [sceneOf] at there
  split at there
  · next names => exact ⟨names, Option.map_eq_some_iff.1 there⟩
  · cases there

namespace Firm

variable (firm : Firm s as)
include firm

theorem linked_sceneOf : (sceneOf s as).Linked where
  names := by
    intro es there
    obtain ⟨item, found⟩ := Option.ne_none_iff_exists'.1 there
    exact (stored_of_sceneOf found).1
  above := by
    intro es e there
    obtain ⟨item, found⟩ := Option.ne_none_iff_exists'.1 there
    obtain ⟨names, o, stored, -⟩ := stored_of_sceneOf found
    have row := names_append.2 ⟨firm.names, names⟩
    rw [← List.append_assoc] at row stored
    obtain ⟨d, above, kind⟩ := firm.linked.above row (List.cons_ne_nil e []) stored
    rw [sceneOf_names (names_append.1 names).1, above, Option.map_some, Entry.item_eq_directory.2 kind]
  top := by
    intro data file
    obtain ⟨-, o, stored, item⟩ := stored_of_sceneOf file
    obtain ⟨d, there, kind⟩ := firm.root
    rw [List.append_nil, there] at stored
    obtain rfl := Option.some.inj stored
    rw [Entry.item_eq_directory.2 kind] at item
    cases item

theorem top_sceneOf : sceneOf s as [] = some .directory := by
  obtain ⟨d, there, kind⟩ := firm.root
  rw [sceneOf_names names_nil, List.append_nil, there, Option.map_some, Entry.item_eq_directory.2 kind]

end Firm

/-! ## From memory -/

/-- A handle that is read from delivers the content it was opened on. -/
theorem drains_file {i : Nat} (id : Nat) (h : Handle) (view : View) :
    Drains Still Calm (file id i h)
      (fun data w => i < w.memoryHandles.size ∧ handle w i = .ofContent view name mode data ∧ (w.volume n).store = s)
      fun w => (w.volume n).store = s where
  steady := by
    rintro data w w' ⟨there, reader, store⟩ still
    exact ⟨still.handles ▸ there, (still.handle i).trans reader, by rw [volume_eq still.volumes, store]⟩
  held := by
    rintro data w ⟨there, reader, -⟩
    exact le_extent there (by rw [reader]; rfl)
  read := by
    rintro data w ⟨there, reader, store⟩
    refine ⟨_, onHandle_read reader, ⟨rfl, rfl⟩, ?_, handle_setHandle there _, store⟩
    simpa [setHandle] using there
  close := by
    rintro data w ⟨-, reader, store⟩
    have clean : (handle w i).wrote = false := by rw [reader]; rfl
    exact ⟨_, closeHandle_clean clean, ⟨rfl, rfl⟩, store⟩

/-- **A view gives what its store shows.** -/
theorem gives_view (id : Nat) (firm : Firm s as) :
    Gives Still Calm (filesystem id ⟨n, ofReduced true as⟩) (sceneOf s as) fun w => (w.volume n).store = s where
  steady := fun store still => by rw [volume_eq still.volumes, store]
  deep := by
    rintro w es rfl there
    obtain ⟨item, found⟩ := Option.ne_none_iff_exists'.1 there
    obtain ⟨names, e, stored, -⟩ := stored_of_sceneOf found
    have short := length_le_key (names_append.2 ⟨firm.names, names⟩)
    have deep := length_le_nesting firm.sound stored
    rw [List.length_append] at short
    omega
  stat := by
    rintro w rfl
    obtain ⟨d, there, kind⟩ := firm.root
    have row := names_append.2 ⟨firm.names, names_nil⟩
    rw [← List.append_nil as] at there
    have told := stat_row row there
    exact ⟨_, w, told, ⟨rfl, rfl⟩, rfl, kind⟩
  list := by
    rintro w es rfl there
    obtain ⟨names, d, stored, item⟩ := stored_of_sceneOf there
    obtain ⟨infos, listed, lists⟩ := lists_scene firm.sound firm.labelled
      (fun es row => (sceneOf_names (names_append.1 row).2).symm) firm.linked_sceneOf
      (names_append.2 ⟨firm.names, names⟩) ⟨d, stored, Entry.item_eq_directory.1 item⟩
    exact ⟨infos, w, congrArg (·, w) listed, ⟨rfl, rfl⟩, rfl, lists⟩
  openFile := by
    rintro w es data rfl there
    obtain ⟨names, e, stored, item⟩ := stored_of_sceneOf there
    obtain ⟨file, rfl⟩ := Entry.item_eq_file.1 item
    have opened : openFile ⟨n, ofReduced true as⟩ (ofReduced false es) w =
        newFile (.ofContent ⟨n, ofReduced true as⟩ (ofReduced false es) e.mode e.data) w := by
      rw [openFile_eq, locate_row (names_append.2 ⟨firm.names, names⟩) stored]
      simp only [file]
      rfl
    refine ⟨_, _, _, opened, ⟨rfl, rfl⟩, ⟨by simp, handle_newFile _ w, rfl⟩, drains_file _ _ _⟩

/-! ## To memory -/

/-- What stands after a file was created where nothing stood, and its content handed over. -/
theorem created_free (depicts : Depicts s S) (allowed : Mode.permissions mode = .ok bits) (names : Names (es ++ [e]))
    (free : ¬S.Blocked es) (missing : S (es ++ [e]) = none) :
    ∃ k f s', create [.char '/'] (ofReduced false (es ++ [e])) mode s = (.ok (k, f), s') ∧
      ∀ data, Depicts (if data = [] then s' else s'.put k (f.holding data))
        ((S.filled es).put (es ++ [e]) (.file data)) := by
  have place : S (es ++ [e]) ≠ some .directory := by rw [missing]; simp
  obtain ⟨f, s', made, file, blank, kept⟩ := create_free depicts allowed names free place
  have answered : (create [.char '/'] (ofReduced false (es ++ [e])) mode s).1 =
      .ok (ofReduced true (es ++ [e]), f) := by
    rw [made]
  obtain ⟨-, -, -, stored⟩ := create_eq_ok answered
  have sound := (grows_create [.char '/'] (ofReduced false (es ++ [e])) mode s).sound depicts.sound
  have labelled := depicts.labelled.made (made_create .top (ofReduced false (es ++ [e])) mode s)
  refine ⟨_, f, s', made, fun data => ?_⟩
  have wrote := write_created answered data
  have soundWritten := sound_write sound [.char '/'] (ofReduced false (es ++ [e])) data mode
  have labelledWritten := labelled.made (made_write .top (ofReduced false (es ++ [e])) data mode _)
  rw [wrote, made] at soundWritten labelledWritten
  rw [made] at stored sound labelled
  dsimp only at stored sound labelled soundWritten labelledWritten
  split
  · next empty =>
    refine ⟨sound, labelled, fun row hr => ?_⟩
    rw [Scene.put]
    split
    · next same => rw [same, stored, Option.map_some, Entry.item_eq_file.2 ⟨file, blank missing⟩, empty]
    · next other => exact kept row hr other
  · refine ⟨soundWritten, labelledWritten, fun row hr => ?_⟩
    rw [Store.get?_put, Scene.put]
    by_cases same : row = es ++ [e]
    · rw [if_pos same, if_pos (congrArg _ same), Option.map_some]
      exact congrArg some (Entry.item_eq_file.2 ⟨file, rfl⟩)
    · rw [if_neg same, if_neg fun key => same (ofReduced_inj hr names key)]
      exact kept row hr same

/-- Closing a handle leaves the host. -/
theorem calm_closeHandle (i : Nat) (w : World) : Calm w (closeHandle i w).2 := by
  cases handed : (handle w i).commit with
  | none =>
    simp only [closeHandle, handed]
    exact ⟨rfl, rfl⟩
  | some data =>
    simp only [closeHandle, handed]
    exact ⟨rfl, rfl⟩

/-- A handle of a file that was created collects what is written to it, and hands it over when it is closed. -/
theorem fills_file {j : Nat} {k : Text} {f : Entry} {s' : Store Entry} {shows : Bytes → Scene} (id : Nat) (h : Handle)
    (made : create [.char '/'] name mode s = (.ok (k, f), s'))
    (handed : ∀ data, Depicts (if data = [] then s' else s'.put k (f.holding data)) (shows data)) :
    Fills Still Calm (file id j h)
      (fun data w => m < w.volumes.size ∧ j < w.memoryHandles.size ∧
        handle w j = collecting ⟨m, [.char '/']⟩ name mode data ∧ (w.volume m).store = s')
      fun data w => Shown m w (shows data) where
  steady := by
    rintro data w w' ⟨there, last, writer, store⟩ still
    exact ⟨still.volumes ▸ there, still.handles ▸ last, (still.handle j).trans writer,
      by rw [volume_eq still.volumes, store]⟩
  write := by
    rintro data more w ⟨there, last, writer, store⟩ hne
    refine ⟨_, _, write_file id h writer hne, ⟨rfl, rfl⟩, there, ?_, handle_setHandle last _, store⟩
    simpa [setHandle] using last
  close := by
    rintro data w ⟨there, last, writer, store⟩
    have answered : (create [.char '/'] name mode s).1 = .ok (k, f) := by rw [made]
    have left : (w.volume m).store = (create [.char '/'] name mode s).2 := by rw [made, store]
    obtain ⟨w', closed, -, turned⟩ := closeHandle_collecting writer there answered left
    have calm := calm_closeHandle j w
    rw [closed] at calm
    rw [made] at turned
    refine ⟨w', closed, calm, turned.size.symm ▸ there, ?_⟩
    rw [turned.store]
    exact handed data

/-- **The whole of a volume accepts what is copied to it.** -/
theorem accepts_volume (id m : Nat) (fits : List Text → Prop) :
    Accepts Still Calm (filesystem id ⟨m, [.char '/']⟩) fits fun T w => Shown m w T where
  canWrite := rfl
  steady := by
    rintro T w w' ⟨there, depicts⟩ still
    exact ⟨still.volumes ▸ there, by rw [volume_eq still.volumes]; exact depicts⟩
  mkdirAll := by
    rintro T w es mode bits shown - names - allowed free
    obtain ⟨s', made, depicts⟩ := mkdirAll_free shown.depicts allowed names free
    obtain ⟨answer, shown'⟩ := shown.change (f := fun root => mkdirAll root (ofReduced false es) mode) made depicts
    exact ⟨_, Prod.ext answer rfl, ⟨rfl, rfl⟩, shown'⟩
  create := by
    rintro T w es e mode bits ⟨there, depicts⟩ - names - allowed free missing
    obtain ⟨k, f, s', made, handed⟩ := created_free depicts allowed names free missing
    have made' : (create [.char '/'] (ofReduced false (es ++ [e])) mode (w.volume m).store).1 = .ok (k, f) := by
      rw [made]
    have opened := createFile_eq ⟨m, [.char '/']⟩ (ofReduced false (es ++ [e])) mode w
    have turned : Turned m (create [.char '/'] (ofReduced false (es ++ [e])) mode (w.volume m).store).2 w
        (change ⟨m, [.char '/']⟩ (fun root => create root (ofReduced false (es ++ [e])) mode) w).2 :=
      turned_change there fun root => create root (ofReduced false (es ++ [e])) mode
    rw [made'] at opened
    rw [made] at turned
    refine ⟨_, _, _, opened, ⟨rfl, rfl⟩, ⟨turned.size.symm ▸ there, ?_, handle_newFile _ _, turned.store⟩,
      fills_file _ _ made handed⟩
    simp

end Vfs.Memory
