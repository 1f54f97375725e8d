import Vfs.Memory.Filesystem
import Vfs.Proofs.Memory.Change
import Vfs.Proofs.Memory.Key

/-!
# Sessions

A session is a run of calls on one filesystem in memory, on the views taken of it with `sub`, and on
the handles any of them opened. Views and handles are known by number, in the order they were made;
a number that no view has stands for the whole filesystem. Of every call `perform` gives the answer
and the session after it. As long as a session is `Wired`, `store_perform` and `handles_perform` say
what becomes of the store that all views share and of the handles.
-/

namespace Vfs.Memory
set_option autoImplicit false

/-- What a view can be asked. -/
inductive Request where
  | openFile (name : Text)
  | stat (name : Text)
  | read (name : Text)
  | list (dir : Text)
  | glob (pattern : Text)
  | sub (dir : Text)
  | mkdirAll (dir : Text) (mode : Int)
  | create (name : Text) (mode : Int)
  | write (name : Text) (data : Bytes) (mode : Int)
  | remove (name : Text)
  | removeAll (name : Text)

/-- What a call answers. -/
inductive Answer where
  | done
  | info (info : Info)
  | infos (infos : List Info)
  | content (data : Bytes)
  | names (names : List Text)
  | count (n : Nat)
  /-- A view of what is below a root key. -/
  | view (root : Text)
  /-- A new handle with its number. -/
  | handle (number : Nat) (state : Handle)

/-- An action with its result told as an answer. -/
def telling {α : Type} (action : Action α) (tell : α → Answer) : Action Answer := fun w =>
  match action w with
  | (r, w) => (r.map tell, w)

/-- An action that makes a handle, with the handle told as an answer. -/
def opening (action : Action File) : Action Answer := fun w =>
  match action w with
  | (.error e, after) => (.error e, after)
  | (.ok _, after) =>
    (.ok (.handle w.memoryHandles.size (handle after w.memoryHandles.size)), after)

/-- Asks a view. -/
def Request.ask (view : View) : Request → Action Answer
  | .openFile name => opening (Memory.openFile view name)
  | .stat name => telling (Memory.stat view name) .info
  | .read name => telling (Memory.ask view fun root s => Memory.content root s name) .content
  | .list dir => telling (fun w => (listing view dir w, w)) .infos
  | .glob pattern => telling (Memory.ask view fun root s => Memory.glob root s pattern) .names
  | .sub dir => telling (Memory.ask view fun root s => Memory.sub root s dir) .view
  | .mkdirAll dir mode => telling (change view fun root => Memory.mkdirAll root dir mode) fun _ => .done
  | .create name mode => opening (createFile view name mode)
  | .write name data mode => telling (change view fun root => Memory.write root name data mode) .count
  | .remove name => telling (change view fun root => Memory.remove root name) fun _ => .done
  | .removeAll name => telling (change view fun root => Memory.removeAll root name) fun _ => .done

/-- A call on a view or on a handle. -/
inductive Call where
  | on (view : Nat) (request : Request)
  | read (handle : Nat) (size : Int)
  | write (handle : Nat) (data : Bytes)
  | list (handle : Nat) (n : Int)
  | stat (handle : Nat)
  | close (handle : Nat)

/-- The root key of a view that is answered. -/
def newRoots : Except Error Answer → List Text
  | .ok (.view root) => [root]
  | _ => []

/-- A world with one filesystem in memory, and the root keys of its views. -/
structure Session where
  world : World
  roots : List Text

namespace Session

/-- A session on a new filesystem. -/
def start : Session := ⟨(newFilesystem [.char '/'] {}).2, [[.char '/']]⟩

/-- The root key of a view. -/
def root (s : Session) (v : Nat) : Text := s.roots.getD v [.char '/']

/-- The store that all views share. -/
def store (s : Session) : Store Entry := (s.world.volume 0).store

/-- What a call answers, and the session after it. -/
def perform (s : Session) : Call → Except Error Answer × Session
  | .on v request =>
    match request.ask ⟨0, s.root v⟩ s.world with
    | (r, w) => (r, ⟨w, s.roots ++ newRoots r⟩)
  | .read i size => act (telling (onHandle i fun _ h => h.read size) .content)
  | .write i data => act (telling (onHandle i fun _ h => h.write data) .count)
  | .list i n => act (telling (onHandle i fun w h => h.list n (listing h.view h.name w)) .infos)
  | .stat i => act (telling (Memory.stat (handle s.world i).view (handle s.world i).name) .info)
  | .close i => act (telling (closeHandle i) fun _ => .done)
where
  act (action : Action Answer) : Except Error Answer × Session :=
    match action s.world with
    | (r, w) => (r, ⟨w, s.roots⟩)

/-- The session after some calls. -/
def after (s : Session) (calls : List Call) : Session := calls.foldl (fun s c => (s.perform c).2) s

/-- The calls with their answers. -/
def transcript (s : Session) : List Call → List (Call × Except Error Answer)
  | [] => []
  | c :: rest => (c, (s.perform c).1) :: (s.perform c).2.transcript rest

end Session

/-! ## What becomes of the store -/

/-- What a request makes of the store, seen from a root key. -/
def Request.effect (root : Text) (s : Store Entry) : Request → Store Entry
  | .mkdirAll dir mode => (Memory.mkdirAll root dir mode s).2
  | .create name mode => (Memory.create root name mode s).2
  | .write name data mode => (Memory.write root name data mode s).2
  | .remove name => (Memory.remove root name s).2
  | .removeAll name => (Memory.removeAll root name s).2
  | .openFile _ | .stat _ | .read _ | .list _ | .glob _ | .sub _ => s

/-- What closing a handle makes of the store. -/
def Handle.effect (h : Handle) (s : Store Entry) : Store Entry :=
  match h.commit with
  | none => s
  | some data => (Memory.write h.view.root h.name data h.mode s).2

/-- What a call makes of the store that the views share. -/
def Call.effect (s : Session) : Call → Store Entry
  | .on v request => request.effect (s.root v) s.store
  | .close i => (handle s.world i).effect s.store
  | .read _ _ | .write _ _ | .list _ _ | .stat _ => s.store

variable {w : World} {view : View} {n i : Nat} {name : Text} {mode : Int}

theorem volume_setVolume (there : n < w.volumes.size) (v : Volume) : (w.setVolume n v).volume n = v := by
  simp [World.setVolume, World.volume, there]

theorem store_after (v : Volume) (s : Store Entry) : (v.after s).store = s := by
  unfold Volume.after
  split
  · rfl
  · rfl

/-- A change answers what the pure step answers, and leaves the store that it leaves. -/
theorem change_eq {α : Type} (f : Text → Store Entry → Except Error α × Store Entry) :
    change view f w = ((f view.root (w.volume view.volume).store).1,
      w.setVolume view.volume ((w.volume view.volume).after (f view.root (w.volume view.volume).store).2)) :=
  rfl

theorem store_change {α : Type} (w : World) (view : View) (there : view.volume < w.volumes.size)
    (f : Text → Store Entry → Except Error α × Store Entry) :
    ((change view f w).2.volume view.volume).store = (f view.root (w.volume view.volume).store).2 := by
  rw [change_eq, volume_setVolume there, store_after]

theorem telling_eq {α : Type} (action : Action α) (tell : α → Answer) (w : World) :
    telling action tell w = ((action w).1.map tell, (action w).2) := rfl

/-- The handle that a request opens, if it opens one. -/
def Request.opened (view : View) (s : Store Entry) : Request → Option Handle
  | .openFile name =>
    match locate view.root s name with
    | .error _ => none
    | .ok (_, e) =>
      some (if e.directory then .ofDirectory view name e.mode else .ofContent view name e.mode e.data)
  | .create name mode =>
    match (Memory.create view.root name mode s).1 with
    | .error _ => none
    | .ok _ => some (.ofNew view name mode)
  | _ => none

/-- Some handles and one more, if there is one. -/
def more (handles : Array Handle) : Option Handle → Array Handle
  | none => handles
  | some h => handles.push h

theorem handle_setHandle (there : i < w.memoryHandles.size) (h : Handle) : handle (setHandle w i h) i = h := by
  simp [handle, setHandle, there]

theorem handle_setHandle_ne {j : Nat} (apart : j ≠ i) (h : Handle) :
    handle (setHandle w i h) j = handle w j := by
  simp [handle, setHandle, Array.getD_eq_getD_getElem?, Array.getElem?_setIfInBounds_ne (Ne.symm apart)]

/-- A handle in the state that it is in. -/
theorem setHandle_handle (w : World) (i : Nat) : setHandle w i (handle w i) = w := by
  have kept : w.memoryHandles.setIfInBounds i (handle w i) = w.memoryHandles := by
    by_cases there : i < w.memoryHandles.size
    · simp [handle, there, Array.setIfInBounds]
    · exact Array.setIfInBounds_eq_of_size_le (Nat.le_of_not_lt there)
  rw [setHandle, kept]

theorem handle_newFile (h : Handle) (w : World) :
    handle (newFile h w).2 w.memoryHandles.size = h := by
  simp [handle, newFile]

theorem opening_openFile (view : View) (name : Text) (w : World) :
    opening (openFile view name) w =
      match locate view.root (w.volume view.volume).store name with
      | .error e => (.error e, w)
      | .ok (_, e) =>
        let h := if e.directory then .ofDirectory view name e.mode else .ofContent view name e.mode e.data
        (.ok (.handle w.memoryHandles.size h), (newFile h w).2) := by
  simp only [opening, openFile, ask, bind, ExceptT.bind, ExceptT.mk, StateT.bind, ExceptT.bindCont]
  cases locate view.root (w.volume view.volume).store name with
  | error e => rfl
  | ok located =>
    have made := handle_newFile (if located.2.directory then .ofDirectory view name located.2.mode
      else .ofContent view name located.2.mode located.2.data) w
    exact congrArg (fun h => (Except.ok (Answer.handle w.memoryHandles.size h), (newFile _ w).2)) made

theorem opening_createFile (view : View) (name : Text) (mode : Int) (w : World) :
    opening (createFile view name mode) w =
      match change view (fun root => create root name mode) w with
      | (.error e, after) => (.error e, after)
      | (.ok _, after) =>
        (.ok (.handle w.memoryHandles.size (.ofNew view name mode)),
          (newFile (.ofNew view name mode) after).2) := by
  simp only [opening, createFile, bind, ExceptT.bind, ExceptT.mk, StateT.bind, ExceptT.bindCont, change_eq]
  cases (create view.root name mode (w.volume view.volume).store).1 with
  | error e => rfl
  | ok made =>
    have made := handle_newFile (.ofNew view name mode) (w.setVolume view.volume
      ((w.volume view.volume).after (create view.root name mode (w.volume view.volume).store).2))
    exact congrArg (fun h => (Except.ok (Answer.handle w.memoryHandles.size h), (newFile _ _).2)) made

/-- A request adds the handle that it opens to the others. -/
theorem handles_ask (w : World) (view : View) (request : Request) :
    (request.ask view w).2.memoryHandles =
      more w.memoryHandles (request.opened view (w.volume view.volume).store) := by
  cases request with
  | openFile name =>
    simp only [Request.ask, opening_openFile, Request.opened]
    cases locate view.root (w.volume view.volume).store name with
    | error e => rfl
    | ok located => rfl
  | create name mode =>
    simp only [Request.ask, opening_createFile, Request.opened, change_eq]
    cases (create view.root name mode (w.volume view.volume).store).1 with
    | error e => rfl
    | ok located => rfl
  | _ => rfl

/-- What is left of the world when a view was asked. -/
theorem ask_world (w : World) (view : View) (there : view.volume < w.volumes.size) (request : Request) :
    ((request.ask view w).2.volume view.volume).store = request.effect view.root (w.volume view.volume).store ∧
      (request.ask view w).2.volumes.size = w.volumes.size ∧
      (request.ask view w).2.memoryHandles =
        more w.memoryHandles (request.opened view (w.volume view.volume).store) := by
  have size (v : Volume) : (w.setVolume view.volume v).volumes.size = w.volumes.size := by
    simp [World.setVolume]
  have changed {α : Type} (f : Text → Store Entry → Except Error α × Store Entry) (tell : α → Answer) :
      ((telling (change view f) tell w).2.volume view.volume).store =
          (f view.root (w.volume view.volume).store).2 ∧
        (telling (change view f) tell w).2.volumes.size = w.volumes.size :=
    ⟨store_change w view there f, size _⟩
  rw [← and_assoc]
  refine ⟨?_, handles_ask w view request⟩
  cases request with
  | openFile name =>
    simp only [Request.ask, opening_openFile, Request.effect]
    cases locate view.root (w.volume view.volume).store name with
    | error e => exact ⟨rfl, rfl⟩
    | ok located => exact ⟨rfl, rfl⟩
  | create name mode =>
    have made := store_change w view there fun root => create root name mode
    simp only [Request.ask, opening_createFile, Request.effect]
    rw [change_eq] at made ⊢
    cases (create view.root name mode (w.volume view.volume).store).1 with
    | error e => exact ⟨made, size _⟩
    | ok located => exact ⟨made, size _⟩
  | mkdirAll dir mode => exact changed _ _
  | write name data mode => exact changed _ _
  | remove name => exact changed _ _
  | removeAll name => exact changed _ _
  | stat name => exact ⟨rfl, rfl⟩
  | read name => exact ⟨rfl, rfl⟩
  | list dir => exact ⟨rfl, rfl⟩
  | glob pattern => exact ⟨rfl, rfl⟩
  | sub dir => exact ⟨rfl, rfl⟩

theorem Request.sound_effect {s : Store Entry} (sound : s.Sound) (root : Text) (request : Request) :
    (request.effect root s).Sound := by
  cases request with
  | mkdirAll dir mode => exact (grows_mkdirAll root dir mode s).sound sound
  | create name mode => exact (grows_create root name mode s).sound sound
  | write name data mode => exact sound_write sound root name data mode
  | remove name => exact sound_remove sound root name
  | removeAll name => exact sound_removeAll sound root name
  | openFile _ | stat _ | read _ | list _ | glob _ | sub _ => exact sound

theorem Handle.sound_effect {s : Store Entry} (sound : s.Sound) (h : Handle) : (h.effect s).Sound := by
  unfold Handle.effect
  split
  · exact sound
  · exact sound_write sound _ _ _ _

/-! ## One call after the other -/

/-- What a call makes of the handles. -/
def Call.handles (s : Session) : Call → Array Handle
  | .on v request => more s.world.memoryHandles (request.opened ⟨0, s.root v⟩ s.store)
  | .read i size => s.world.memoryHandles.setIfInBounds i ((handle s.world i).read size).2
  | .write i data => s.world.memoryHandles.setIfInBounds i ((handle s.world i).write data).2
  | .list i n => s.world.memoryHandles.setIfInBounds i
      ((handle s.world i).list n (listing (handle s.world i).view (handle s.world i).name s.world)).2
  | .stat _ => s.world.memoryHandles
  | .close i => s.world.memoryHandles.setIfInBounds i (handle s.world i).close

/-- What a call makes of the handle that it is on. -/
def Call.turn (w : World) (h : Handle) : Call → Handle
  | .read _ size => (h.read size).2
  | .write _ data => (h.write data).2
  | .list _ n => (h.list n (listing h.view h.name w)).2
  | .close _ => h.close
  | .on _ _ | .stat _ => h

/-- The handle whose state a call looks at and changes. -/
def Call.number? : Call → Option Nat
  | .read i _ | .write i _ | .list i _ | .close i => some i
  | .on _ _ | .stat _ => none

namespace Handle

/-- Two states of a handle that hand over the same to the same place. -/
structure Alike (h h' : Handle) : Prop where
  view : h'.view = h.view
  name : h'.name = h.name
  mode : h'.mode = h.mode
  writer : h'.writer = h.writer
  wrote : h'.wrote = h.wrote

theorem Alike.refl (h : Handle) : h.Alike h := ⟨rfl, rfl, rfl, rfl, rfl⟩

theorem alike_read (h : Handle) (size : Int) : h.Alike (h.read size).2 := by
  unfold Handle.read
  split
  · exact .refl h
  · split
    · exact .refl h
    · split
      · exact .refl h
      · exact ⟨rfl, rfl, rfl, rfl, rfl⟩

/-- Listing changes what a handle knows of its listing, and nothing else. -/
theorem list_turned (h : Handle) (n : Int) (current : Except Error (List Info)) :
    ∃ listed listing cursor, (h.list n current).2 = { h with listed, listing, cursor } := by
  unfold Handle.list
  cases h.listed with
  | true =>
    cases page : nextPage h.listing h.cursor n with
    | error fault => exact ⟨h.listed, h.listing, h.cursor, by simp [page]⟩
    | ok shown => exact ⟨h.listed, h.listing, shown.2, by simp [page]⟩
  | false =>
    cases current with
    | error e => exact ⟨h.listed, h.listing, h.cursor, rfl⟩
    | ok entries =>
      cases page : nextPage entries h.cursor n with
      | error fault => exact ⟨true, entries, h.cursor, by simp [page, Except.map]⟩
      | ok shown => exact ⟨true, entries, shown.2, by simp [page, Except.map]⟩

theorem alike_list (h : Handle) (n : Int) (current : Except Error (List Info)) :
    h.Alike (h.list n current).2 := by
  obtain ⟨listed, listing, cursor, turned⟩ := h.list_turned n current
  rw [turned]
  exact ⟨rfl, rfl, rfl, rfl, rfl⟩

theorem alike_close (h : Handle) : h.Alike h.close := by
  unfold Handle.close
  split
  · exact ⟨rfl, rfl, rfl, rfl, rfl⟩
  · exact ⟨rfl, rfl, rfl, rfl, rfl⟩

/-- Writing to a handle is refused, or it collects the data behind what it has. -/
theorem write_cases (h : Handle) (data : Bytes) :
    (∃ fault, h.write data = (.error fault, h)) ∨ ∃ collected, h.writer = some collected ∧
      h.write data = (.ok data.length, { h with writer := some (collected ++ data), wrote := true }) := by
  unfold Handle.write
  split
  · exact .inl ⟨_, rfl⟩
  · split
    · exact .inl ⟨_, rfl⟩
    · next collected found => exact .inr ⟨collected, found, rfl⟩

theorem view_write (h : Handle) (data : Bytes) : (h.write data).2.view = h.view := by
  rcases h.write_cases data with ⟨fault, eq⟩ | ⟨collected, -, eq⟩
  · rw [eq]
  · rw [eq]

end Handle

namespace Session

/-- The world has the filesystem's volume, and every view and handle is one of that filesystem. -/
structure Wired (s : Session) : Prop where
  volume : 0 < s.world.volumes.size
  roots : ∀ root ∈ s.roots, IsRoot root
  handles : ∀ h ∈ s.world.memoryHandles, h.view.volume = 0 ∧ IsRoot h.view.root

variable {s : Session}

theorem wired_start : start.Wired where
  volume := by decide
  roots := by
    intro root h
    obtain rfl : root = [.char '/'] := List.mem_singleton.1 h
    exact .top
  handles := fun h member => absurd member (Array.not_mem_empty h)

theorem Wired.root (wired : s.Wired) (v : Nat) : IsRoot (s.root v) := by
  rw [Session.root, List.getD_eq_getElem?_getD]
  cases found : s.roots[v]? with
  | none => exact .top
  | some root => exact wired.roots root (List.mem_of_getElem? found)

theorem handle_mem {w : World} {i : Nat} (there : i < w.memoryHandles.size) :
    handle w i ∈ w.memoryHandles := by
  simp [handle, there]

/-- A number without a handle stands for one that nothing can be done with. -/
theorem handle_of_size_le {w : World} {i : Nat} (outside : w.memoryHandles.size ≤ i) :
    handle w i = .ofDirectory ⟨0, []⟩ [] 0 := by
  simp [handle, outside]

theorem there_of_commit {w : World} {i : Nat} {data : Bytes} (handed : (handle w i).commit = some data) :
    i < w.memoryHandles.size := by
  by_contra outside
  rw [handle_of_size_le (Nat.le_of_not_lt outside)] at handed
  cases handed

/-- A volume that has an entry is there. -/
theorem there_of_stored {w : World} {n : Nat} {k : Text} (stored : ((w.volume n).store.get? k).isSome = true) :
    n < w.volumes.size := by
  by_contra outside
  have default : w.volume n = {} := by
    rw [World.volume, Array.getD_eq_getD_getElem?, Array.getElem?_eq_none (Nat.le_of_not_lt outside)]
    rfl
  rw [default] at stored
  cases stored

theorem Wired.volume_handle (wired : s.Wired) (i : Nat) : (handle s.world i).view.volume = 0 := by
  by_cases there : i < s.world.memoryHandles.size
  · exact (wired.handles _ (handle_mem there)).1
  · rw [handle_of_size_le (Nat.le_of_not_lt there)]
    rfl

theorem perform_on (s : Session) (v : Nat) (request : Request) :
    s.perform (.on v request) = ((request.ask ⟨0, s.root v⟩ s.world).1,
      ⟨(request.ask ⟨0, s.root v⟩ s.world).2, s.roots ++ newRoots (request.ask ⟨0, s.root v⟩ s.world).1⟩) :=
  rfl

theorem perform_read (s : Session) (i : Nat) (size : Int) :
    s.perform (.read i size) = (((handle s.world i).read size).1.map .content,
      ⟨setHandle s.world i ((handle s.world i).read size).2, s.roots⟩) :=
  rfl

theorem perform_write (s : Session) (i : Nat) (data : Bytes) :
    s.perform (.write i data) = (((handle s.world i).write data).1.map .count,
      ⟨setHandle s.world i ((handle s.world i).write data).2, s.roots⟩) :=
  rfl

theorem perform_list (s : Session) (i : Nat) (n : Int) :
    s.perform (.list i n) =
      (((handle s.world i).list n (listing (handle s.world i).view (handle s.world i).name s.world)).1.map .infos,
        ⟨setHandle s.world i
          ((handle s.world i).list n (listing (handle s.world i).view (handle s.world i).name s.world)).2, s.roots⟩) :=
  rfl

/-- Views keep their roots. -/
theorem root_perform {v : Nat} (there : v < s.roots.length) (c : Call) : (s.perform c).2.root v = s.root v := by
  cases c with
  | on v' request =>
    rw [perform_on, Session.root, Session.root, List.getD_eq_getElem?_getD, List.getD_eq_getElem?_getD]
    exact congrArg (·.getD [.char '/']) (List.getElem?_append_left there)
  | read _ _ | write _ _ | list _ _ | stat _ | close _ => rfl

theorem store_perform (wired : s.Wired) (c : Call) : (s.perform c).2.store = c.effect s := by
  cases c with
  | on v request => exact (ask_world s.world ⟨0, s.root v⟩ wired.volume request).1
  | close i =>
    have here := wired.volume_handle i
    simp only [perform, perform.act, telling_eq, closeHandle, Call.effect, Handle.effect, store]
    cases (handle s.world i).commit with
    | none => rfl
    | some data =>
      have changed := store_change (setHandle s.world i (handle s.world i).close)
        (handle s.world i).view (here ▸ wired.volume)
        fun root => write root (handle s.world i).name data (handle s.world i).mode
      rw [here] at changed
      exact changed
  | read i size => rfl
  | write i data => rfl
  | list i n => rfl
  | stat i => rfl

theorem sound_start : start.store.Sound := Store.sound_empty.put _ _

theorem sound_perform (wired : s.Wired) (sound : s.store.Sound) (c : Call) :
    (s.perform c).2.store.Sound := by
  rw [store_perform wired]
  cases c with
  | on v request => exact request.sound_effect sound (s.root v)
  | close i => exact (handle s.world i).sound_effect sound
  | read _ _ | write _ _ | list _ _ | stat _ => exact sound

theorem handles_perform (s : Session) (c : Call) :
    (s.perform c).2.world.memoryHandles = c.handles s := by
  cases c with
  | on v request => exact handles_ask s.world ⟨0, s.root v⟩ request
  | close i =>
    simp only [perform, perform.act, telling_eq, closeHandle, Call.handles]
    cases (handle s.world i).commit with
    | none => rfl
    | some data => rfl
  | read i size => rfl
  | write i data => rfl
  | list i n => rfl
  | stat i => rfl

/-- A call on something else leaves a handle as it is. -/
theorem handle_perform_ne (there : i < s.world.memoryHandles.size) {c : Call} (apart : c.number? ≠ some i) :
    handle (s.perform c).2.world i = handle s.world i := by
  have elsewhere {j : Nat} (h : Handle) (other : some j ≠ some i) :
      (s.world.memoryHandles.setIfInBounds j h).getD i (.ofDirectory ⟨0, []⟩ [] 0) = handle s.world i :=
    handle_setHandle_ne (Ne.symm (mt (congrArg some) other)) h
  rw [handle, handles_perform]
  cases c with
  | on v request =>
    rw [Call.handles]
    cases request.opened ⟨0, s.root v⟩ s.store with
    | none => rfl
    | some h =>
      rw [more, Array.getD_eq_getD_getElem?, Array.getElem?_push_lt there]
      simp [handle, there]
  | stat _ => rfl
  | read j _ | write j _ | list j _ | close j => exact elsewhere _ apart

theorem handle_perform_own {i : Nat} {c : Call} (there : i < s.world.memoryHandles.size) (own : c.number? = some i) :
    handle (s.perform c).2.world i = c.turn s.world (handle s.world i) := by
  have turned (h : Handle) :
      (s.world.memoryHandles.setIfInBounds i h).getD i (.ofDirectory ⟨0, []⟩ [] 0) = h := handle_setHandle there h
  rw [handle, handles_perform]
  cases c with
  | on _ _ | stat _ => cases own
  | read j _ | write j _ | list j _ | close j =>
    obtain rfl := Option.some.inj own
    exact turned _

/-- What holds of a handle, and of what a call makes of it, holds after the call. -/
theorem holds_perform {i : Nat} {c : Call} {P : Handle → Prop} (there : i < s.world.memoryHandles.size)
    (holds : P (handle s.world i))
    (turn : c.number? = some i → P (c.turn s.world (handle s.world i))) : P (handle (s.perform c).2.world i) := by
  by_cases own : c.number? = some i
  · rw [handle_perform_own there own]
    exact turn own
  · rwa [handle_perform_ne there own]

theorem size_le_perform (s : Session) (c : Call) :
    s.world.memoryHandles.size ≤ (s.perform c).2.world.memoryHandles.size := by
  rw [handles_perform]
  cases c with
  | on v request =>
    rw [Call.handles]
    cases request.opened ⟨0, s.root v⟩ s.store with
    | none => exact Nat.le_refl _
    | some h => simp [more]
  | stat j => exact Nat.le_refl _
  | read j _ | write j _ | list j _ | close j => simp [Call.handles]

theorem size_perform (wired : s.Wired) (c : Call) :
    (s.perform c).2.world.volumes.size = s.world.volumes.size := by
  cases c with
  | on v request => exact (ask_world s.world ⟨0, s.root v⟩ wired.volume request).2.1
  | close i =>
    simp only [perform, perform.act, telling_eq, closeHandle]
    cases (handle s.world i).commit with
    | none => rfl
    | some data => simp [change_eq, World.setVolume, setHandle]
  | read i size => rfl
  | write i data => rfl
  | list i n => rfl
  | stat i => rfl

theorem newRoots_telling {α : Type} {tell : α → Answer} (plain : ∀ a root, tell a ≠ .view root)
    (action : Action α) (w : World) : newRoots (telling action tell w).1 = [] := by
  rw [telling_eq]
  cases (action w).1 with
  | error e => rfl
  | ok a =>
    rw [Except.map]
    cases answer : tell a with
    | view root => exact absurd answer (plain a root)
    | _ => rfl

theorem newRoots_opening (action : Action File) (w : World) : newRoots (opening action w).1 = [] := by
  unfold opening
  split
  · rfl
  · rfl

/-- A view is answered to `sub` only, and its root key is that of the directory. -/
theorem newRoots_ask (view : View) (request : Request) (w : World) :
    (∃ dir, request = .sub dir ∧ Path.isValid dir = true ∧
        newRoots (request.ask view w).1 = [key view.root dir]) ∨
      newRoots (request.ask view w).1 = [] ∧
        ∀ dir, request = .sub dir → ∃ fault, (request.ask view w).1 = .error fault := by
  cases request with
  | sub dir =>
    simp only [Request.ask, telling_eq, Memory.ask]
    cases found : Memory.sub view.root (w.volume view.volume).store dir with
    | error fault => exact .inr ⟨rfl, fun _ _ => ⟨fault, rfl⟩⟩
    | ok k =>
      obtain ⟨valid, rfl, -⟩ := sub_eq_ok.1 found
      exact .inl ⟨dir, rfl, valid, rfl⟩
  | openFile name => exact .inr ⟨newRoots_opening .., by simp⟩
  | create name mode => exact .inr ⟨newRoots_opening .., by simp⟩
  | _ => exact .inr ⟨newRoots_telling (by intros; simp) .., by simp⟩

/-- A handle that a request opens is one of the view. -/
theorem view_opened {view : View} {store : Store Entry} {request : Request} {h : Handle}
    (opened : request.opened view store = some h) : h.view = view := by
  cases request with
  | openFile name =>
    simp only [Request.opened] at opened
    split at opened
    · cases opened
    · next e _ =>
      obtain rfl := Option.some.inj opened
      split
      · rfl
      · rfl
  | create name mode =>
    simp only [Request.opened] at opened
    split at opened
    · cases opened
    · obtain rfl := Option.some.inj opened
      rfl
  | _ => cases opened

/-- What holds of the views of a session, and of a view of a directory with them, goes on to hold of every view and
of the views that the handles are of. -/
theorem views_perform {P : View → Prop} {c : Call}
    (sub : ∀ root dir, P ⟨0, root⟩ → Path.isValid dir = true → P ⟨0, key root dir⟩)
    (roots : ∀ root ∈ s.roots, P ⟨0, root⟩) (handles : ∀ h ∈ s.world.memoryHandles, P h.view)
    (asked : ∀ v request, c = .on v request → P ⟨0, s.root v⟩) :
    (∀ root ∈ (s.perform c).2.roots, P ⟨0, root⟩) ∧ ∀ h ∈ (s.perform c).2.world.memoryHandles, P h.view := by
  constructor
  · cases c with
    | on v request =>
      intro root member
      rw [perform_on] at member
      rcases List.mem_append.1 member with old | new
      · exact roots root old
      · rcases newRoots_ask ⟨0, s.root v⟩ request s.world with ⟨dir, -, valid, told⟩ | ⟨told, -⟩
        · rw [told] at new
          obtain rfl := List.mem_singleton.1 new
          exact sub _ _ (asked v request rfl) valid
        · rw [told] at new
          exact absurd new List.not_mem_nil
    | _ => exact roots
  · -- Only opening makes a handle; every other call leaves the views that the handles are of.
    have same {i : Nat} {h' : Handle} (alike : h'.view = (handle s.world i).view) :
        ∀ h ∈ s.world.memoryHandles.setIfInBounds i h', P h.view := by
      intro h member
      by_cases there : i < s.world.memoryHandles.size
      · rcases Array.mem_or_eq_of_mem_setIfInBounds member with old | rfl
        · exact handles h old
        · rw [alike]
          exact handles _ (handle_mem there)
      · rw [Array.setIfInBounds_eq_of_size_le (Nat.le_of_not_lt there)] at member
        exact handles h member
    rw [handles_perform]
    cases c with
    | on v request =>
      intro h member
      simp only [Call.handles] at member
      cases new : request.opened ⟨0, s.root v⟩ s.store with
      | none =>
        rw [new] at member
        exact handles h member
      | some made =>
        rw [new] at member
        rcases Array.mem_push.1 member with old | rfl
        · exact handles h old
        · rw [view_opened new]
          exact asked v request rfl
    | read i size => exact same (Handle.alike_read ..).view
    | write i data => exact same (Handle.view_write ..)
    | list i n => exact same (Handle.alike_list ..).view
    | stat i => exact handles
    | close i => exact same (Handle.alike_close ..).view

theorem Wired.perform (wired : s.Wired) (c : Call) : (s.perform c).2.Wired := by
  obtain ⟨roots, handles⟩ := views_perform (P := fun view => view.volume = 0 ∧ IsRoot view.root) (c := c)
    (fun root dir isRoot valid => ⟨rfl, isRoot.2.sub valid⟩) (fun root member => ⟨rfl, wired.roots root member⟩)
    wired.handles fun v _ _ => ⟨rfl, wired.root v⟩
  exact ⟨by rw [size_perform wired]; exact wired.volume, fun root member => (roots root member).2, handles⟩

end Session

end Vfs.Memory
