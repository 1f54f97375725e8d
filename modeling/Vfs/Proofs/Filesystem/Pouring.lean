import Vfs.Proofs.Filesystem.Asking
import Vfs.Proofs.Memory.Laying

/-!
# Copying one entry

A file is copied through two handles: one delivers the content chunk by chunk, the other collects what is written
to it and hands it over when it is closed, however the pouring ended. So a file that was poured to its end is laid
whole, and one whose reader failed is laid with the chunks that were read until then (`copied_entry`). The source
may be any filesystem that tells what a view tells, but for the errors that it raises on its own account (`Falters`).
-/

namespace Vfs
set_option autoImplicit false
open Memory

variable {α : Type} {raised : World → Error → Prop} {w w' w'' : World} {view : View} {i j m : Nat} {name : Text}
  {mode : Int} {data got unread : Bytes} {t : Store Entry} {e : Entry}

/-- Two worlds do not differ in what memory filesystems are made of. -/
structure Still (w w' : World) : Prop where
  volumes : w'.volumes = w.volumes
  handles : w'.memoryHandles = w.memoryHandles

theorem Still.refl (w : World) : Still w w := ⟨rfl, rfl⟩

theorem Still.handle (still : Still w w') (i : Nat) : handle w' i = handle w i := by
  rw [Memory.handle, Memory.handle, still.handles]

/-- An action raises an error of its own and leaves the world, or does what another one does. -/
inductive Tries (raised : Error → Prop) (action original : Action α) (w : World) : Prop where
  | raises {fault : Error} {w' : World} : action w = (.error fault, w') → raised fault → Still w w' →
      Tries raised action original w
  | follows {w' : World} : action w = ((original w).1, w') → Still (original w).2 w' → Tries raised action original w

theorem Tries.refl (raised : Error → Prop) (action : Action α) (w : World) : Tries raised action action w :=
  .follows rfl (.refl _)

/-- A file delivers what a handle delivers, but for the errors that it raises in a world. -/
structure Delivers (raised : World → Error → Prop) (f : File) (i : Nat) : Prop where
  read : ∀ size w, Tries (raised w) (f.read size) (onHandle i fun _ h => h.read size) w
  close : ∀ w, Tries (fun _ => False) f.close (closeHandle i) w

/-- Opening a name raises an error, is refused as a view refuses it, or opens a file that delivers what the handle
of the view delivers. -/
inductive Opens (raised : World → Error → Prop) (source : Filesystem) (view : View) (name : Text) (w : World) :
    Prop where
  | raises {fault : Error} {w' : World} : source.openFile name w = (.error fault, w') → raised w fault →
      Still w w' → Opens raised source view name w
  | refused {fault : Error} {w' : World} : (openFile view name w).1 = .error fault →
      source.openFile name w = (.error fault, w') → Still w w' → Opens raised source view name w
  | opened {f : File} {w' : World} : source.openFile name w = (.ok f, w') → Still (openFile view name w).2 w' →
      Delivers raised f w.memoryHandles.size → Opens raised source view name w

/-- A filesystem that tells what a view tells, but for the errors that it raises about a name in a world. -/
structure Falters (raised : Text → World → Error → Prop) (source : Filesystem) (view : View) : Prop where
  stat : ∀ name w, Tries (raised name w) (source.stat name) (Memory.stat view name) w
  list : ∀ dir w, Tries (raised dir w) (source.list dir) (fun w => (listing view dir w, w)) w
  openFile : ∀ name w, Opens (raised name) source view name w

theorem delivers_file (raised : World → Error → Prop) (id i : Nat) (h : Handle) :
    Delivers raised (file id i h) i where
  read := fun _ w => .refl (raised w) _ w
  close := fun w => .refl _ _ w

/-- A memory filesystem raises no errors but those of its view. -/
theorem falters_filesystem (id : Nat) (view : View) :
    Falters (fun _ _ _ => False) (filesystem id view) view where
  stat := fun name w => .refl _ _ w
  list := fun dir w => .refl _ _ w
  openFile := by
    intro name w
    have same : (filesystem id view).openFile name = Memory.openFile view name := rfl
    have opened := openFile_eq view name w
    cases located : locate view.root (w.volume view.volume).store name with
    | error fault =>
      rw [located] at opened
      exact .refused (by rw [opened]) (by rw [same, opened]) (.refl w)
    | ok l =>
      rw [located] at opened
      refine .opened (by rw [same, opened]; rfl) (by rw [opened]; exact .refl _) (delivers_file ..)

/-! ## Chunks -/

namespace Memory

/-- The number of bytes of a chunk. -/
def chunk : Nat := Filesystem.chunkSize.toNat

/-- A handle of a file being created that has collected some bytes. -/
def collecting (view : View) (name : Text) (mode : Int) (got : Bytes) : Handle :=
  { Handle.ofNew view name mode with writer := some got, wrote := !got.isEmpty }

/-- A handle on some content delivers a chunk of it. -/
theorem onHandle_read (reader : handle w i = .ofContent view name mode unread) :
    onHandle i (fun _ h => h.read Filesystem.chunkSize) w =
      (.ok (unread.take chunk), setHandle w i (.ofContent view name mode (unread.drop chunk))) := by
  rw [onHandle, reader]
  rfl

theorem write_collecting (proper : data ≠ []) :
    (collecting view name mode got).write data = (.ok data.length, collecting view name mode (got ++ data)) := by
  simp [Handle.write, collecting, Handle.ofNew, proper]

/-- A handle that collects takes what is written to it. -/
theorem write_file (id : Nat) (h : Handle) (writer : handle w i = collecting view name mode got) (proper : data ≠ []) :
    (file id i h).write data w = (.ok data.length, setHandle w i (collecting view name mode (got ++ data))) := by
  simp only [File.write, file]
  rw [onHandle, writer]
  dsimp only
  rw [write_collecting proper]
  rfl

theorem le_total {l : List Nat} {a : Nat} (member : a ∈ l) : a ≤ total l := by
  induction l with
  | nil => exact absurd member List.not_mem_nil
  | cons b l ih =>
    rw [total_cons]
    rcases List.mem_cons.1 member with rfl | later
    · exact Nat.le_add_right ..
    · exact Nat.le_trans (ih later) (Nat.le_add_left ..)

/-- The bytes that are left to read are among those held anywhere. -/
theorem le_extent (there : i < w.memoryHandles.size) (holds : (handle w i).reader = some unread) :
    unread.length ≤ w.extent := by
  have member : handle w i ∈ w.memoryHandles.toList := Array.mem_toList_iff.2 (Session.handle_mem there)
  have counted := le_total (List.mem_map_of_mem (f := fun h => (h.reader.getD []).length) member)
  rw [holds, Option.getD_some] at counted
  have extent : total (w.memoryHandles.toList.map fun h => (h.reader.getD []).length) ≤ w.extent := by
    rw [World.extent]
    omega
  exact Nat.le_trans counted extent

/-- The handle that is read from while the last one collects. -/
def reading (w : World) : Handle := handle w (w.memoryHandles.size - 2)

/-- Of one file, a handle delivers some bytes, and the next, which is the last, has collected some; no volume was
changed. -/
structure Flows (home : World) (view view' : View) (name : Text) (mode mode' : Int) (i j : Nat) (unread got : Bytes)
    (w : World) : Prop where
  next : j = i + 1
  last : w.memoryHandles.size = j + 1
  reader : handle w i = .ofContent view name mode unread
  writer : handle w j = collecting view' name mode' got
  volumes : w.volumes = home.volumes

namespace Flows

variable {home : World} {view' : View} {mode' : Int} {f : File}
  (flows : Flows home view view' name mode mode' i j unread got w)
include flows

theorem apart : i ≠ j := by
  rw [flows.next]
  exact (Nat.succ_ne_self i).symm

theorem writes : j < w.memoryHandles.size := by
  rw [flows.last]
  exact Nat.lt_succ_self j

theorem reads : i < w.memoryHandles.size :=
  Nat.lt_trans (flows.next ▸ Nat.lt_succ_self i) flows.writes

theorem reading : (Memory.reading w).reader = some unread := by
  have before : w.memoryHandles.size - 2 = i := by rw [flows.last, flows.next]; rfl
  rw [Memory.reading, before, flows.reader]
  rfl

theorem still (still : Still w w') : Flows home view view' name mode mode' i j unread got w' where
  next := flows.next
  last := still.handles ▸ flows.last
  reader := (still.handle i).trans flows.reader
  writer := (still.handle j).trans flows.writer
  volumes := still.volumes.trans flows.volumes

/-- One chunk is read. -/
theorem read (delivers : Delivers raised f i) :
    (∃ fault w', f.read Filesystem.chunkSize w = (.error fault, w') ∧ raised w fault ∧
      Flows home view view' name mode mode' i j unread got w') ∨
    ∃ w', f.read Filesystem.chunkSize w = (.ok (unread.take chunk), w') ∧
      Flows home view view' name mode mode' i j (unread.drop chunk) got w' := by
  have taken := onHandle_read flows.reader
  rcases delivers.read Filesystem.chunkSize w with ⟨run, own, same⟩ | ⟨run, same⟩
  · exact .inl ⟨_, _, run, own, flows.still same⟩
  · rw [taken] at run same
    have flowing : Flows home view view' name mode mode' i j (unread.drop chunk) got
        (setHandle w i (.ofContent view name mode (unread.drop chunk))) := by
      refine ⟨flows.next, ?_, handle_setHandle flows.reads _, ?_, flows.volumes⟩
      · simpa [setHandle] using flows.last
      · rw [handle_setHandle_ne flows.apart.symm]
        exact flows.writer
    exact .inr ⟨_, run, flowing.still same⟩

/-- One chunk is written. -/
theorem write (id : Nat) (h : Handle) (proper : data ≠ []) :
    ∃ w', (file id j h).write data w = (.ok data.length, w') ∧
      Flows home view view' name mode mode' i j unread (got ++ data) w' := by
  refine ⟨_, write_file id h flows.writer proper, flows.next, ?_, ?_, handle_setHandle flows.writes _, flows.volumes⟩
  · simpa [setHandle] using flows.last
  · rw [handle_setHandle_ne flows.apart]
    exact flows.reader

end Flows

/-- An error was raised where some chunks of the content had been read. -/
def Broke (raised : World → Error → Prop) (data : Bytes) (k : Nat) (fault : Error) : Prop :=
  ∃ w, raised w fault ∧ (reading w).reader = some (data.drop (k * chunk))

/-- How pouring ends: all was written, or the reader raised an error and the chunks before were written. -/
inductive Poured (raised : World → Error → Prop) (home : World) (view view' : View) (name : Text) (mode mode' : Int)
    (i j : Nat) (data : Bytes) : Except Error Unit × World → Prop where
  | all {w : World} : Flows home view view' name mode mode' i j [] data w →
      Poured raised home view view' name mode mode' i j data (.ok (), w)
  | part {w : World} {unread : Bytes} {fault : Error} (k : Nat) : Broke raised data k fault →
      Flows home view view' name mode mode' i j unread (data.take (k * chunk)) w →
      Poured raised home view view' name mode mode' i j data (.error fault, w)

/-- With enough fuel the content is poured chunk by chunk, until it is all written or the reader fails. -/
theorem poured {home : World} {view' : View} {mode' : Int} {f : File} {fuel : Nat} (id : Nat) (h : Handle)
    (delivers : Delivers raised f i) (k : Nat)
    (flows : Flows home view view' name mode mode' i j (data.drop (k * chunk)) (data.take (k * chunk)) w)
    (enough : (data.drop (k * chunk)).length < fuel) :
    Poured raised home view view' name mode mode' i j data (Filesystem.pour f (file id j h) fuel w) := by
  induction fuel generalizing k w with
  | zero => exact absurd enough (Nat.not_lt_zero _)
  | succ fuel ih =>
    rw [Filesystem.pour, Action.bind_eq]
    rcases flows.read delivers with ⟨fault, w', run, own, flows'⟩ | ⟨w', run, flows'⟩
    · rw [run]
      exact .part k ⟨w, own, flows.reading⟩ flows'
    · rw [run]
      dsimp only
      by_cases last : (data.drop (k * chunk)).take chunk = []
      · rw [if_pos (by rw [last]; rfl)]
        have nothing : data.drop (k * chunk) = [] := by
          rcases List.take_eq_nil_iff.1 last with zero | nothing
          · exact absurd zero (by decide)
          · exact nothing
        have whole : data.take (k * chunk) = data := List.take_of_length_le (List.drop_eq_nil_iff.1 nothing)
        rw [nothing, List.drop_nil, whole] at flows'
        exact .all flows'
      · rw [if_neg (by simpa using last), Action.bind_eq]
        obtain ⟨w'', run', flows''⟩ := flows'.write id h last
        rw [run']
        have next : (k + 1) * chunk = k * chunk + chunk := Nat.succ_mul k chunk
        rw [← List.take_add, List.drop_drop, ← next] at flows''
        refine ih (k + 1) flows'' ?_
        have nonempty : data.drop (k * chunk) ≠ [] := fun empty => last (by rw [empty, List.take_nil])
        have positive := List.length_pos_iff.2 nonempty
        have step : 0 < chunk := by decide
        rw [List.length_drop] at enough positive ⊢
        omega

/-! ## Changes of one volume -/

/-- The store of one volume was changed, and no other volume. -/
structure Turned (m : Nat) (t : Store Entry) (w w' : World) : Prop where
  size : w'.volumes.size = w.volumes.size
  store : (w'.volume m).store = t
  others : ∀ n, n ≠ m → w'.volume n = w.volume n

theorem turned_refl (m : Nat) (w : World) : Turned m (w.volume m).store w w := ⟨rfl, rfl, fun _ _ => rfl⟩

theorem Turned.trans {u : Store Entry} (first : Turned m t w w') (second : Turned m u w' w'') : Turned m u w w'' where
  size := second.size.trans first.size
  store := second.store
  others := fun n other => (second.others n other).trans (first.others n other)

/-- What is read of the volumes does not tell worlds with the same volumes apart. -/
theorem Turned.same (turned : Turned m t w w') (same : w''.volumes = w'.volumes) : Turned m t w w'' where
  size := by rw [same, turned.size]
  store := by rw [volume_eq same, turned.store]
  others := fun n other => (volume_eq same n).trans (turned.others n other)

theorem turned_of_same (m : Nat) (same : w'.volumes = w.volumes) : Turned m (w.volume m).store w w' :=
  (turned_refl m w).same same

theorem turned_change {root : Text} (there : m < w.volumes.size)
    (f : Text → Store Entry → Except Error α × Store Entry) :
    Turned m (f root (w.volume m).store).2 w (change ⟨m, root⟩ f w).2 where
  size := by simp [change_eq, World.setVolume]
  store := store_change w ⟨m, root⟩ there f
  others := by
    intro n other
    simp [change_eq, World.setVolume, World.volume, Array.getD_eq_getD_getElem?,
      Array.getElem?_setIfInBounds_ne (Ne.symm other)]

theorem createFile_eq (view : View) (name : Text) (mode : Int) (w : World) :
    createFile view name mode w =
      match (create view.root name mode (w.volume view.volume).store).1 with
      | .error fault => (.error fault, (change view (fun root => create root name mode) w).2)
      | .ok _ => newFile (.ofNew view name mode) (change view (fun root => create root name mode) w).2 := by
  rw [createFile, Action.bind_eq, change_eq]
  cases (create view.root name mode (w.volume view.volume).store).1 with
  | error fault => rfl
  | ok made => rfl

/-- A handle that collected hands over to the file that was created for it. -/
theorem closeHandle_collecting {root : Text} {s : Store Entry} {k : Text} {old : Entry}
    (writer : handle w j = collecting ⟨m, root⟩ name mode got)
    (there : m < w.volumes.size) (made : (create root name mode s).1 = .ok (k, old))
    (store : (w.volume m).store = (create root name mode s).2) :
    ∃ w', closeHandle j w = (.ok (), w') ∧ (∀ i, i ≠ j → handle w' i = handle w i) ∧
      Turned m (if got = [] then (create root name mode s).2
        else (create root name mode s).2.put k (old.holding got)) w w' := by
  by_cases empty : got = []
  · subst empty
    have clean : (handle w j).wrote = false := by rw [writer]; rfl
    refine ⟨_, closeHandle_clean clean, fun i apart => handle_setHandle_ne apart _, ?_⟩
    rw [if_pos rfl, ← store]
    exact turned_of_same m rfl
  · have handed : (handle w j).commit = some got := by
      rw [writer]
      simp [Handle.commit, collecting, Handle.ofNew, empty]
    have closed : closeHandle j w = ((change ⟨m, root⟩ (fun root => write root name got mode)
          (setHandle w j (handle w j).close)).1.map fun _ => (),
        (change ⟨m, root⟩ (fun root => write root name got mode) (setHandle w j (handle w j).close)).2) := by
      have parts : (handle w j).view = ⟨m, root⟩ ∧ (handle w j).name = name ∧ (handle w j).mode = mode := by
        rw [writer]
        exact ⟨rfl, rfl, rfl⟩
      simp only [closeHandle, handed, parts]
      rfl
    have kept : ((setHandle w j (handle w j).close).volume m).store = (create root name mode s).2 := store
    have wrote := write_created made got
    have there' : m < (setHandle w j (handle w j).close).volumes.size := there
    have turned : Turned m (write root name got mode ((setHandle w j (handle w j).close).volume m).store).2 _
        (change ⟨m, root⟩ (fun root => write root name got mode) (setHandle w j (handle w j).close)).2 :=
      turned_change there' fun root => write root name got mode
    rw [change_eq] at closed turned
    dsimp only at closed turned
    rw [kept, wrote] at closed turned
    refine ⟨_, closed, fun i apart => handle_setHandle_ne apart _, ?_⟩
    rw [if_neg empty]
    exact ⟨turned.size, turned.store, turned.others⟩

/-! ## One entry -/

/-- How the copying of an entry ends. The source raises an error before anything was made; laying the entry is
refused; it is laid; or it is laid as far as it was read when the source raises an error. -/
inductive Copied (raised : World → Error → Prop) (e : Entry) (m : Nat) (root name : Text) (w : World) :
    Except Error Unit × World → Prop where
  | unopened {w' w₀ : World} {fault : Error} : raised w₀ fault → Turned m (w.volume m).store w w' →
      Copied raised e m root name w (.error fault, w')
  | refused {w' : World} {fault : Error} : (lay root name e (w.volume m).store).1 = .error fault →
      Turned m (lay root name e (w.volume m).store).2 w w' → Copied raised e m root name w (.error fault, w')
  | whole {w' : World} : (lay root name e (w.volume m).store).1 = .ok () →
      Turned m (lay root name e (w.volume m).store).2 w w' → Copied raised e m root name w (.ok (), w')
  | part {w' : World} {fault : Error} (k : Nat) : Broke raised e.data k fault → e.directory = false →
      (lay root name (e.holding (e.data.take (k * chunk))) (w.volume m).store).1 = .ok () →
      Turned m (lay root name (e.holding (e.data.take (k * chunk))) (w.volume m).store).2 w w' →
      Copied raised e m root name w (.error fault, w')

/-- Only the volumes matter. -/
theorem Copied.same {root : Text} {r : Except Error Unit} {w₁ w₂ : World}
    (copied : Copied raised e m root name w₁ (r, w₂)) (first : w₁.volumes = w.volumes)
    (last : w'.volumes = w₂.volumes) : Copied raised e m root name w (r, w') := by
  have begun : (w₁.volume m).store = (w.volume m).store := by rw [volume_eq first]
  have turn {t : Store Entry} (turned : Turned m t w₁ w₂) : Turned m t w w' :=
    ((turned_of_same m first).trans turned).same last
  cases copied with
  | unopened own turned => exact .unopened own (turn (begun ▸ turned))
  | refused stopped turned => exact .refused (begun ▸ stopped) (turn (begun ▸ turned))
  | whole laid turned => exact .whole (begun ▸ laid) (turn (begun ▸ turned))
  | part k own file laid turned => exact .part k own file (begun ▸ laid) (turn (begun ▸ turned))

theorem copied_directory {root : Text} (id : Nat) (raised : World → Error → Prop) (source : Filesystem)
    (there : m < w.volumes.size) (directory : e.directory = true) (origin : Origin) :
    Copied raised e m root name w
      (Filesystem.copyEntry (filesystem id ⟨m, root⟩) source name (e.info origin) w) := by
  have run : Filesystem.copyEntry (filesystem id ⟨m, root⟩) source name (e.info origin) =
      change ⟨m, root⟩ fun root => mkdirAll root name e.copyBits := by
    rw [Filesystem.copyEntry, e.copyMode_info, if_pos (show (e.info origin).directory = true from directory)]
    rfl
  have turned : Turned m (mkdirAll root name e.copyBits (w.volume m).store).2 w
      (change ⟨m, root⟩ (fun root => mkdirAll root name e.copyBits) w).2 :=
    turned_change there fun root => mkdirAll root name e.copyBits
  have answer : (change ⟨m, root⟩ (fun root => mkdirAll root name e.copyBits) w).1 =
      (mkdirAll root name e.copyBits (w.volume m).store).1 := rfl
  rw [run]
  rw [← lay_directory directory root name] at turned answer
  generalize change ⟨m, root⟩ (fun root => mkdirAll root name e.copyBits) w = x at turned answer ⊢
  obtain ⟨r, w'⟩ := x
  dsimp only at turned answer
  subst answer
  cases laid : (lay root name e (w.volume m).store).1 with
  | error fault => exact .refused laid turned
  | ok done => exact .whole laid turned

/-- A file that was created is laid as far as its source is read, and the handle that is read hands nothing over. -/
theorem copied_created {root : Text} {view : View} {mode : Int} {f : File} {s : Store Entry} {k : Text} {old : Entry}
    (id : Nat) (h : Handle) (delivers : Delivers raised f i) (there : m < w.volumes.size) (file : e.directory = false)
    (created : (create root name e.copyBits s).1 = .ok (k, old))
    (store : (w.volume m).store = (create root name e.copyBits s).2)
    (flows : Flows w view ⟨m, root⟩ name mode e.copyBits i j e.data [] w) :
    ∃ r w', Action.ensuring (do Filesystem.pour f (Memory.file id j h) ((← get).extent + 1)) (closeHandle j) w =
        (r, w') ∧ (handle w' i).wrote = false ∧
      ((r = .ok () ∧ Turned m (lay root name e s).2 w w') ∨
        ∃ k fault, r = .error fault ∧ Broke raised e.data k fault ∧
          Turned m (lay root name (e.holding (e.data.take (k * chunk))) s).2 w w') := by
  have fuel : ((do Filesystem.pour f (Memory.file id j h) ((← get).extent + 1)) : Action Unit) w =
      Filesystem.pour f (Memory.file id j h) (w.extent + 1) w := rfl
  have begun : Flows w view ⟨m, root⟩ name mode e.copyBits i j (e.data.drop (0 * chunk)) (e.data.take (0 * chunk))
      w := by
    rw [Nat.zero_mul, List.drop_zero, List.take_zero]
    exact flows
  have enough : (e.data.drop (0 * chunk)).length < w.extent + 1 := by
    rw [Nat.zero_mul, List.drop_zero]
    exact Nat.lt_succ_of_le (le_extent flows.reads (by rw [flows.reader]; rfl))
  have ended := poured id h delivers 0 begun enough
  rw [Action.ensuring_eq, fuel]
  generalize Filesystem.pour f (Memory.file id j h) (w.extent + 1) w = x at ended ⊢
  -- Closing the handle that collected lays what it has.
  have close {w₁ : World} {unread got : Bytes} (flows : Flows w view ⟨m, root⟩ name mode e.copyBits i j unread got w₁) :
      ∃ w', closeHandle j w₁ = (.ok (), w') ∧ (handle w' i).wrote = false ∧
        Turned m (lay root name (e.holding got) s).2 w w' := by
    have store₁ : (w₁.volume m).store = (create root name e.copyBits s).2 := by rw [volume_eq flows.volumes, store]
    have there₁ : m < w₁.volumes.size := by rwa [flows.volumes]
    obtain ⟨w', closed, kept, turned⟩ := closeHandle_collecting flows.writer there₁ created store₁
    refine ⟨w', closed, by rw [kept i flows.apart, flows.reader]; rfl, ?_⟩
    rw [lay_holding file created]
    exact (turned_of_same m flows.volumes).trans turned
  cases ended with
  | all flows' =>
    obtain ⟨w', closed, clean, turned⟩ := close flows'
    exact ⟨.ok (), w', by rw [closed]; rfl, clean, .inl ⟨rfl, turned⟩⟩
  | part k own flows' =>
    obtain ⟨w', closed, clean, turned⟩ := close flows'
    exact ⟨_, w', by rw [closed]; rfl, clean, .inr ⟨k, _, rfl, own, turned⟩⟩

/-- What is done with a file that was opened. -/
theorem copied_opened {root : Text} {view : View} {mode : Int} {f : File} (id : Nat)
    (delivers : Delivers raised f i) (there : m < w.volumes.size) (file : e.directory = false)
    (last : w.memoryHandles.size = i + 1) (reader : handle w i = .ofContent view name mode e.data) :
    ∃ r w', (do
        let writer ← (filesystem id ⟨m, root⟩).create name e.copyBits
        Action.ensuring (do Filesystem.pour f writer ((← get).extent + 1)) writer.close) w = (r, w') ∧
      (handle w' i).wrote = false ∧ Copied raised e m root name w (r, w') := by
  have made : (filesystem id ⟨m, root⟩).create name e.copyBits = createFile ⟨m, root⟩ name e.copyBits := rfl
  have turned : Turned m (create root name e.copyBits (w.volume m).store).2 w
      (change ⟨m, root⟩ (fun root => create root name e.copyBits) w).2 :=
    turned_change there fun root => create root name e.copyBits
  have handles : (change ⟨m, root⟩ (fun root => create root name e.copyBits) w).2.memoryHandles = w.memoryHandles :=
    rfl
  have created := createFile_eq ⟨m, root⟩ name e.copyBits w
  generalize (change ⟨m, root⟩ (fun root => create root name e.copyBits) w).2 = w₁ at turned handles created
  have reader₁ : handle w₁ i = .ofContent view name mode e.data := by rw [handle, handles, ← handle, reader]
  rw [made, Action.bind_eq, created]
  cases answered : (create root name e.copyBits (w.volume m).store).1 with
  | error fault =>
    have stopped := lay_refused file answered
    exact ⟨.error fault, w₁, rfl, by rw [reader₁]; rfl, .refused (by rw [stopped]) (by rw [stopped]; exact turned)⟩
  | ok answer =>
    obtain ⟨k, old⟩ := answer
    have first : Turned m (create root name e.copyBits (w.volume m).store).2 w
        (newFile (.ofNew ⟨m, root⟩ name e.copyBits) w₁).2 := turned.same rfl
    -- The new handle stands behind all others.
    have size : w₁.memoryHandles.size = i + 1 := by rw [handles, last]
    have older : i < w₁.memoryHandles.size := by omega
    have flows : Flows (newFile (.ofNew ⟨m, root⟩ name e.copyBits) w₁).2 view ⟨m, root⟩ name mode e.copyBits i
        w₁.memoryHandles.size e.data [] (newFile (.ofNew ⟨m, root⟩ name e.copyBits) w₁).2 := by
      refine ⟨size, ?_, ?_, handle_newFile _ w₁, rfl⟩
      · simp [newFile]
      · rw [← reader₁]
        simp [newFile, handle, Array.getD_eq_getD_getElem?, Array.getElem?_push_lt older, older]
    obtain ⟨r, w', run, clean, ended⟩ := copied_created w₁.serial (.ofNew ⟨m, root⟩ name e.copyBits) delivers
      (first.size.symm ▸ there) file answered first.store flows
    refine ⟨r, w', run, clean, ?_⟩
    rcases ended with ⟨rfl, last⟩ | ⟨k', fault, rfl, own, last⟩
    · exact .whole (by rw [lay_created file answered]) (first.trans last)
    · exact .part k' own file (by rw [lay_holding file answered]) (first.trans last)

/-- **How copying an entry ends**, from a source that tells what a view tells but for the errors it raises. -/
theorem copied_entry {source : Filesystem} {view : View} {faults : Text → World → Error → Prop} {root k : Text}
    (id : Nat) (falters : Falters faults source view) (there : m < w.volumes.size)
    (located : locate view.root (w.volume view.volume).store name = .ok (k, e)) (origin : Origin) :
    Copied (faults name) e m root name w
      (Filesystem.copyEntry (filesystem id ⟨m, root⟩) source name (e.info origin) w) := by
  cases kind : e.directory with
  | true => exact copied_directory id _ source there kind origin
  | false =>
    have run : Filesystem.copyEntry (filesystem id ⟨m, root⟩) source name (e.info origin) =
        Filesystem.copyFile (filesystem id ⟨m, root⟩) source name e.copyBits := by
      rw [Filesystem.copyEntry, e.copyMode_info]
      exact if_neg (by simp [Entry.info, kind])
    have opened : openFile view name w = newFile (.ofContent view name e.mode e.data) w := by
      rw [openFile_eq, located]
      simp only [kind]
      rfl
    rw [run, Filesystem.copyFile, Filesystem.withFile, Action.bind_eq]
    cases falters.openFile name w with
    | raises answered own still =>
      rw [answered]
      exact .unopened own (turned_of_same m still.volumes)
    | refused refusal =>
      rw [opened] at refusal
      cases refusal
    | @opened f w₁ answered still delivers =>
      rw [opened] at still
      have last : w₁.memoryHandles.size = w.memoryHandles.size + 1 := by
        rw [still.handles]
        simp [newFile]
      have reader : handle w₁ w.memoryHandles.size = .ofContent view name e.mode e.data :=
        (still.handle _).trans (handle_newFile _ w)
      have there₁ : m < w₁.volumes.size := by
        rw [still.volumes]
        exact there
      obtain ⟨r, w₂, run, clean, copied⟩ := copied_opened id delivers there₁ kind last reader
      rw [answered]
      dsimp only
      rw [Action.ensuring_eq, run]
      cases delivers.close w₂ with
      | raises _ never => exact never.elim
      | follows closed same =>
        rw [closeHandle_clean clean] at closed same
        rw [closed]
        exact copied.same still.volumes same.volumes

end Memory

end Vfs
