import Vfs.Proofs.Filesystem.Transfer
import Vfs.Proofs.Host.Demand

/-!
# Copying from a host and to a host

A directory of a host gives the scene that it shows (`gives_directory`), and accepts one on behalf of someone
privileged (`accepts_directory`): the modes of the directories that are made stand in nobody's way then. Neither
touches what memory filesystems are made of.
-/

namespace Vfs.Host
set_option autoImplicit false
open Vfs.Path
open Memory (chunk)

variable {w : World} {dir name : Text} {S : Scene} {es : List Text} {e : Text} {mode : Int} {bits i n : Nat}
  {data : Bytes} {t : Tree} {row : List Text} {node : Node}

/-! ## From a host -/

/-- No row is longer than the tree is deep. -/
theorem length_le_depth (there : t.node? row = some node) : row.length ≤ t.depth := by
  by_cases top : row = []
  · rw [top]
    exact Nat.zero_le _
  · rw [Tree.node?_of_ne_nil top] at there
    obtain ⟨p, member, stamp⟩ := List.mem_map.1 (Assoc.isSome_get?_iff.1 (by rw [there, Option.isSome_some]))
    have same : p.1.2 = row := congrArg Prod.snd stamp
    refine (Memory.le_longest _ 0).2 _ (List.mem_map.2 ⟨(p.1.2, p.2), List.mem_map_of_mem member, ?_⟩)
    rw [same]

/-- A stream delivers a chunk in whole blocks, and nothing stays pending. -/
theorem read_stream (content : Nat → Bytes) (number position : Nat) :
    ∃ position', Stream.read content Filesystem.chunkSize (.reading number position [] false) =
        (.ok (((content number).drop position).take chunk), .reading number position' [] false) ∧
      (content number).drop position' = ((content number).drop position).drop chunk := by
  have whole (left : Bytes) : Stream.take left chunk = (left.take chunk, []) := by
    have blocks : blockSize * (chunk / blockSize) = chunk := by decide
    simp only [Stream.take, blocks, if_true, List.take_nil, List.drop_nil, List.append_nil]
  let block : Bytes × Bytes := Stream.take ((content number).drop position) chunk
  have fetched : Stream.read content Filesystem.chunkSize (.reading number position [] false) =
      (.ok block.1, .reading number (position + block.1.length + block.2.length) block.2 false) := rfl
  have split : block = (((content number).drop position).take chunk, []) := whole _
  rw [split] at fetched
  refine ⟨_, fetched, ?_⟩
  rw [List.drop_drop, List.length_nil, Nat.add_zero, List.length_take, List.length_drop]
  by_cases enough : chunk ≤ (content number).length - position
  · rw [Nat.min_eq_left enough]
  · rw [List.drop_eq_nil_of_le (by omega), List.drop_eq_nil_of_le (by omega)]

/-- The content of a file is among the bytes held anywhere. -/
theorem length_content_le (w : World) (n : Nat) : (w.tree.content n).length ≤ w.extent := by
  have counted : (w.tree.content n).length ≤ total (w.tree.contents.toList.map List.length) := by
    by_cases there : n < w.tree.contents.size
    · have found : w.tree.content n = w.tree.contents[n] := by simp [Tree.content, there]
      rw [found]
      exact Memory.le_total (List.mem_map_of_mem (Array.getElem_mem_toList there))
    · have empty : w.tree.content n = [] := by simp [Tree.content, Nat.le_of_not_lt there]
      rw [empty]
      exact Nat.zero_le _
  rw [World.extent]
  omega

/-- A stream that is read from delivers the content of its file. -/
theorem drains_stream (id k i n : Nat) :
    Drains Calm Still (file dir name (some (.ofNumber i)) id k)
      (fun data w => Depicts dir w.tree S ∧ i < w.streams.size ∧ ∃ position,
        w.streams.getD i (.sink true) = .reading n position [] false ∧ (w.tree.content n).drop position = data)
      fun w => Depicts dir w.tree S where
  steady := by
    rintro data w w' ⟨depicts, there, position, stream, left⟩ calm
    rw [calm.tree, calm.streams]
    exact ⟨depicts, there, position, stream, left⟩
  held := by
    rintro data w ⟨-, -, position, -, rfl⟩
    rw [List.length_drop]
    exact Nat.le_trans (Nat.sub_le ..) (length_content_le w n)
  read := by
    rintro data w ⟨depicts, there, position, stream, rfl⟩
    obtain ⟨position', delivered, left⟩ := read_stream w.tree.content n position
    have ran : (file dir name (some (.ofNumber i)) id k).read Filesystem.chunkSize w =
        (.ok (((w.tree.content n).drop position).take chunk),
          { w with streams := w.streams.setIfInBounds i (.reading n position' [] false) }) := by
      have asked : (file dir name (some (.ofNumber i)) id k).read Filesystem.chunkSize w =
          readStream i Filesystem.chunkSize w := rfl
      rw [asked, readStream, stream, delivered]
      rfl
    refine ⟨_, ran, ⟨rfl, rfl⟩, depicts, ?_, position', ?_, left⟩
    · simpa using there
    · simp [there]
  close := by
    rintro data w ⟨depicts, -, position, stream, -⟩
    obtain ⟨w', closed, tree, volumes, handles⟩ := closeHandle_run k i w
    rw [stream] at tree
    exact ⟨w', closed, ⟨volumes, handles⟩, by rw [tree]; exact depicts⟩

/-- A file is opened for reading. -/
theorem openFile_run (depicts : Depicts dir w.tree S) (linked : S.Linked) (there : S es = some (.file data)) :
    ∃ n, openFile dir (ofReduced false es) w =
        (.ok (file dir (ofReduced false es) (some (.ofNumber w.streams.size)) w.serial w.hostHandles.size),
          { w with
            streams := w.streams.push (.reader n), hostHandles := w.hostHandles.push {}, serial := w.serial + 1 }) ∧
      w.tree.content n = data := by
  have fits := depicts.fits es (by simp [there])
  obtain ⟨node, found, shown⟩ := depicts.find linked fits.passes fits.plain_end there
  obtain ⟨n, rfl, -, content⟩ := shown.isFile
  have noDirectory : w.tree.holdsDirectory (.ofPath (es.foldl attach dir)) = false := by
    rw [Tree.holdsDirectory, found]
  have number : w.tree.fileNumber (.ofPath (es.foldl attach dir)) = .ok n := by rw [Tree.fileNumber, found]
  refine ⟨n, within_ok (linked.named there) ?_, content⟩
  have opened : openStream (es.foldl attach dir) w =
      (.ok (.ofNumber w.streams.size), { w with streams := w.streams.push (.reader n) }) := by
    rw [openStream, Action.bind_eq, ask_ok number]
    rfl
  have looked : (get : Action World) w = (.ok w, w) := rfl
  rw [Action.bind_eq, looked]
  dsimp only
  rw [if_neg (by simp [noDirectory]), Action.bind_eq, opened]
  rfl

/-- **A directory of a host gives what it shows.** -/
theorem gives_directory (id record : Nat) (linked : S.Linked) (top : S [] = some .directory) :
    Gives Calm Still (filesystem id ⟨dir, .standard, record⟩) S fun w => Depicts dir w.tree S where
  steady := fun depicts calm => by rwa [calm.tree]
  deep := by
    intro w es depicts there
    obtain ⟨item, found⟩ := Option.ne_none_iff_exists'.1 there
    obtain ⟨node, row, -⟩ := depicts.found found
    have short := length_le_depth row
    have deep : w.tree.depth ≤ w.nesting := Nat.le_add_left ..
    rw [List.length_append] at short
    omega
  stat := by
    intro w depicts
    obtain ⟨info, k, told, fact⟩ := stat_run depicts linked names_nil top
    exact ⟨info, _, told, ⟨rfl, rfl⟩, depicts, congrArg Fact.directory fact⟩
  list := by
    intro w es depicts there
    obtain ⟨infos, k, listed, lists⟩ :=
      list_run depicts linked (linked.named there) (depicts.fits es (by simp [there])) there
    exact ⟨infos, _, listed, ⟨rfl, rfl⟩, depicts, lists⟩
  openFile := by
    intro w es data depicts there
    obtain ⟨n, opened, content⟩ := openFile_run depicts linked there
    refine ⟨_, _, _, opened, ⟨rfl, rfl⟩, ⟨depicts, ?_, 0, ?_, content⟩, drains_stream _ _ _ n⟩
    · simp
    · simp [Stream.reader]

/-! ## To a host -/

/-- A file that was created keeps what is written to it, and has it when it is closed. -/
theorem fills_stream {shows : Bytes → Scene} (id k i n : Nat) :
    Fills Calm Still (file dir name (some (.ofNumber i)) id k)
      (fun data w => i < w.streams.size ∧ ∃ t, Stream.Took t n data w.tree (w.streams.getD i (.sink true)) ∧
        t.privileged = true ∧ ∀ data, Depicts dir (t.overwrite n 0 data) (shows data))
      fun data w => Depicts dir w.tree (shows data) ∧ w.tree.privileged = true where
  steady := by
    rintro data w w' written calm
    rwa [calm.tree, calm.streams]
  write := by
    rintro data more w ⟨there, t, took, privileged, shown⟩ -
    obtain ⟨w', ran, size, volumes, handles, took'⟩ := write_took id k there took more
    exact ⟨_, w', ran, ⟨volumes, handles⟩, size ▸ there, t, took', privileged, shown⟩
  close := by
    rintro data w ⟨-, t, took, privileged, shown⟩
    obtain ⟨w', closed, tree, volumes, handles⟩ := closeHandle_run k i w
    refine ⟨w', closed, ⟨volumes, handles⟩, ?_⟩
    rw [tree, took.close]
    exact ⟨shown data, privileged⟩

/-- **A directory of a host accepts what is copied to it**, on behalf of someone privileged. -/
theorem accepts_directory (id record : Nat) :
    Accepts Calm Still (filesystem id ⟨dir, .standard, record⟩) (Fits dir) fun T w =>
      Depicts dir w.tree T ∧ w.tree.privileged = true where
  canWrite := rfl
  steady := fun shown calm => by rwa [calm.tree]
  mkdirAll := by
    rintro T w es mode bits ⟨depicts, privileged⟩ linked names fits allowed free
    obtain ⟨t, made, same, depicts'⟩ :=
      depicts.mkdirs_free linked free fits.passes fits (Tree.free_privileged privileged bits)
    have run : mkdirAll ⟨dir, .standard, record⟩ (ofReduced false es) mode w = (.ok (), { w with tree := t }) :=
      within_ok names ((mkdirAll_run _ allowed w).trans (change_ok made))
    exact ⟨_, run, ⟨rfl, rfl⟩, depicts', same.trans privileged⟩
  create := by
    rintro T w es e mode bits ⟨depicts, privileged⟩ linked names fits allowed free missing
    obtain ⟨n, t, opened, same, shown⟩ := opening_free depicts linked fits allowed
      (Tree.free_privileged privileged bits) free (by rw [missing]; simp)
    have run : createFile ⟨dir, .standard, record⟩ (ofReduced false (es ++ [e])) mode w =
        (within dir "Create".text (ofReduced false (es ++ [e])) (opening dir mode) >>= fun stream =>
          newFile dir (ofReduced false (es ++ [e])) (some stream)) w := rfl
    rw [Action.bind_eq, within_ok names opened] at run
    refine ⟨_, _, _, run, ⟨rfl, rfl⟩, ⟨?_, t, ?_, same.trans privileged, shown⟩, fills_stream _ _ _ n⟩
    · simp
    · simpa using Stream.took_writer t n

end Vfs.Host
