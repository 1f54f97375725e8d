import Vfs.Proofs.Filesystem.Search

/-!
# Reading with nothing but opening

A filesystem that can only open what a memory filesystem has is asked by opening a name, asking the handle and
closing it, and what forwards to it asks it in turn. However many layers forward, entries and listings are told
as the memory filesystem tells them, failures included, and content is read wherever it can be read there
(`emulates_after`). Only a directory is refused in other words: the memory filesystem refuses its name, while
the handle was opened on it and refuses to be read.
-/

namespace Vfs.Memory
set_option autoImplicit false
open Vfs.Path Session

/-- About a name, `stat`, `list` and `read` answer what a filesystem answers, and neither they nor the filesystem
change a volume. Of what cannot be read it is only said that reading fails as the host would. -/
structure Emulates (home : World) (m : Filesystem) (stat : Text → Action Info) (list : Text → Action (List Info))
    (read : Text → Action Bytes) (name : Text) : Prop where
  stat : ∃ r, Answers home (m.stat name) r ∧ Answers home (stat name) r
  list : ∃ r, Answers home (m.list name) r ∧ Answers home (list name) r
  read : ∃ r r', Answers home (m.read name) r ∧ Answers home (read name) r' ∧
    (∀ data, r = .ok data → r' = .ok data) ∧ ∀ e, r = .error e → ∃ e', r' = .error e' ∧ e'.isSystem = true

/-- A filesystem behind layers that forward to it, each known by its number. -/
def layered (fs : Filesystem) (layers : List Nat) : Filesystem :=
  layers.foldr (fun id fs => .ofFunctions id (Filesystem.delegate fs)) fs

variable {view : View} {name : Text} {w home : World}

/-- What forwards has a member of its own for every question, so a layer asks the layer below it. -/
theorem layered_asks (fs : Filesystem) (layers : List Nat) :
    (layered fs layers).openFile = fs.openFile ∧ (layered fs layers).stat = fs.stat ∧
      (layered fs layers).list = fs.list ∧ (layered fs layers).read = fs.read ∧
      (layered fs layers).glob = fs.glob := by
  induction layers with
  | nil => exact ⟨rfl, rfl, rfl, rfl, rfl⟩
  | cons id layers ih => exact ih

theorem reads_filesystem (id : Nat) (home : World) (view : View) (name : Text) :
    Answers home ((filesystem id view).read name) (content view.root (home.volume view.volume).store name) where
  answer := fun w same => by
    show content view.root (w.volume view.volume).store name = _
    rw [volume_eq same]
  volumes := fun _ same => same

/-! ## The content of a handle -/

/-- What a handle opened on a name reads to its end. -/
def contentOpened (root : Text) (s : Store Entry) (name : Text) : Except Error Bytes :=
  match locate root s name with
  | .error e => .error e
  | .ok (_, e) => if e.directory then .error (Fault.isDir.at "Read".text name) else .ok e.data

/-- A handle just opened reads all there is, or is one of a directory. -/
theorem read_handleOn (view : View) (name : Text) (e : Entry) :
    ((handleOn view name e).read (-1)).1 =
        (if e.directory then .error (Fault.isDir.at "Read".text name) else .ok e.data) ∧
      ((handleOn view name e).read (-1)).2.wrote = false := by
  unfold handleOn
  split
  · exact ⟨rfl, rfl⟩
  · exact ⟨congrArg Except.ok (List.take_length ..), rfl⟩

theorem read_opener (id : Nat) (name : Text) (w : World) :
    ((Filesystem.opener id (some (openFile view))).read name w).1 =
        contentOpened view.root (w.volume view.volume).store name ∧
      ((Filesystem.opener id (some (openFile view))).read name w).2.volumes = w.volumes := by
  refine withFile_opener id (fun e located => ?_) fun k e located => ?_
  · rw [contentOpened, located]
  · obtain ⟨told, clean⟩ := read_handleOn view name e
    rw [contentOpened, located]
    dsimp only
    rw [← told]
    generalize handleOn view name e = h at clean ⊢
    have there : w.memoryHandles.size < (newFile h w).2.memoryHandles.size := by simp [newFile]
    have question : (file w.serial w.memoryHandles.size h).read (-1) =
        onHandle w.memoryHandles.size fun _ h => h.read (-1) := rfl
    refine ⟨setHandle (newFile h w).2 w.memoryHandles.size (h.read (-1)).2, ?_, rfl, ?_⟩
    · rw [question, onHandle, handle_newFile]
    · rw [handle_setHandle there, clean]

theorem reads_opener (id : Nat) (home : World) (view : View) (name : Text) :
    Answers home ((Filesystem.opener id (some (openFile view))).read name)
      (contentOpened view.root (home.volume view.volume).store name) where
  answer := fun w same => by
    rw [← volume_eq same]
    exact (read_opener id name w).1
  volumes := fun w same => (read_opener id name w).2.trans same

/-- Content that can be read is what an opened handle reads, and what cannot be read the handle does not read. -/
theorem contentOpened_content (root : Text) (s : Store Entry) (name : Text) :
    (∀ data, content root s name = .ok data → contentOpened root s name = .ok data) ∧
      ∀ e, content root s name = .error e → ∃ e', contentOpened root s name = .error e' ∧ e'.isSystem = true := by
  unfold content contentOpened
  cases located : locate root s name with
  | error fault => exact ⟨fun _ told => (nomatch told), fun _ _ => ⟨fault, rfl, locate_isSystem located⟩⟩
  | ok l =>
    obtain ⟨k, e⟩ := l
    cases kind : e.directory with
    | true =>
      simp only [kind, if_true]
      exact ⟨fun _ told => (nomatch told), fun _ _ => ⟨_, rfl, Fault.isSystem_at ..⟩⟩
    | false =>
      simp only [kind, Bool.false_eq_true, if_false]
      exact ⟨fun _ told => told, fun _ told => (nomatch told)⟩

/-! ## Every question -/

/-- Whatever is called, every view lists by increasing name. -/
theorem listing_sorted (calls : List Call) (v : Nat) {dir : Text} {entries : List Info}
    (listed : listing ⟨0, (start.after calls).root v⟩ dir (start.after calls).world = .ok entries) :
    entries.Pairwise fun e e' => e.name < e'.name := by
  obtain ⟨wired, sound, labelled⟩ := labelled_after calls
  generalize start.after calls = s at wired sound labelled listed
  obtain ⟨as, ha, root⟩ := (wired.root v).names
  rw [root] at listed
  rcases listing_cases s.world 0 ha dir with ⟨bs, hb, rfl, there⟩ | ⟨fault, refused, -⟩
  · obtain ⟨children, told, sorted, -⟩ :=
      listing_spec (n := 0) (w := s.world) sound (labelled.under _) (names_append.2 ⟨ha, hb⟩) there
    rw [listed] at told
    cases told
    exact sorted
  · rw [refused] at listed
    cases listed

/-- **Opening alone tells what the filesystem tells**: after any calls, of any view and any name, what can only
open it and what forwards to that through any number of layers answer as the view itself, by whatever means they
are asked; and the members that a forwarding layer has are themselves answers of this kind. -/
theorem emulates_after (calls : List Call) (v id opening : Nat) (layers : List Nat) (name : Text) :
    let home := (start.after calls).world
    let m := filesystem id ⟨0, (start.after calls).root v⟩
    let fs := layered (.opener opening (some m.openFile)) layers
    Emulates home m fs.stat fs.list fs.read name ∧
      ∀ forwarding, ∃ stat list read,
        (Filesystem.ofFunctions forwarding (Filesystem.delegate fs)).members.stat? = some stat ∧
        (Filesystem.ofFunctions forwarding (Filesystem.delegate fs)).members.list? = some list ∧
        (Filesystem.ofFunctions forwarding (Filesystem.delegate fs)).members.read? = some read ∧
        Emulates home m stat list read name := by
  intro home m fs
  suffices asked : Emulates home m fs.stat fs.list fs.read name from
    ⟨asked, fun _ => ⟨fs.stat, fs.list, fs.read, rfl, rfl, rfl, asked⟩⟩
  obtain ⟨-, stat, list, read, -⟩ := layered_asks (.opener opening (some m.openFile)) layers
  have native := shows_filesystem id home ⟨0, (start.after calls).root v⟩
  have opened : Shows home ⟨0, (start.after calls).root v⟩ _ _ :=
    shows_opener opening fun dir entries => listing_sorted calls v
  constructor
  · exact ⟨_, native.stat name, stat ▸ opened.stat name⟩
  · exact ⟨_, native.list name, list ▸ opened.list name⟩
  · obtain ⟨told, refused⟩ := contentOpened_content ((start.after calls).root v) (home.volume 0).store name
    exact ⟨_, _, reads_filesystem id home _ name, read ▸ reads_opener opening home _ name, told, refused⟩

end Vfs.Memory
