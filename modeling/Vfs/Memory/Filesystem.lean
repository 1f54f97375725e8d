import Vfs.Filesystem.Basic

/-!
# Memory filesystems

A view of a volume as a filesystem. Every member looks the volume up in the world, asks or changes
its store, and puts it back; handles are numbered in the world.
-/

namespace Vfs.Memory

/-- A question to the store of a view. -/
def ask {α : Type} (view : View) (f : Text → Store Entry → Except Error α) : Action α := fun w =>
  (f view.root (w.volume view.volume).store, w)

/-- A change of the store of a view. -/
def change {α : Type} (view : View) (f : Text → Store Entry → Except Error α × Store Entry) :
    Action α := fun w =>
  match f view.root (w.volume view.volume).store with
  | (r, s) => (r, w.setVolume view.volume ((w.volume view.volume).after s))

/-- What is said about the entry under a key. -/
def describe (view : View) (located : Text × Entry) (w : World) : Info :=
  (w.volume view.volume).info view.volume located.1 located.2

/-- What is said about the entry under a name. -/
def stat (view : View) (name : Text) : Action Info := fun w =>
  ((locate view.root (w.volume view.volume).store name).map fun l => describe view l w, w)

/-- The listing of a directory as it is now. -/
def listing (view : View) (dir : Text) (w : World) : Except Error (List Info) :=
  (list view.root (w.volume view.volume).store dir).map fun ls => ls.map fun l => describe view l w

/-- The handle with a number. -/
def handle (w : World) (i : Nat) : Handle := w.memoryHandles.getD i (.ofDirectory ⟨0, []⟩ [] 0)

/-- The world with another state of a handle. -/
def setHandle (w : World) (i : Nat) (h : Handle) : World :=
  { w with memoryHandles := w.memoryHandles.setIfInBounds i h }

/-- What a handle does next. -/
def onHandle {α : Type} (i : Nat) (f : World → Handle → Except Error α × Handle) : Action α :=
  fun w =>
    match f w (handle w i) with
    | (r, h) => (r, setHandle w i h)

/-- Closes a handle and hands over what it collected. -/
def closeHandle (i : Nat) : Action Unit := fun w =>
  let h := handle w i
  let w := setHandle w i h.close
  match h.commit with
  | none => (.ok (), w)
  | some data =>
    match change h.view (fun root => write root h.name data h.mode) w with
    | (r, w) => (r.map fun _ => (), w)

/-- The file that a handle is. -/
def file (id i : Nat) (h : Handle) : File where
  id := id
  kind := .memory h.name h.mode
  members :=
    { read? := some fun size => onHandle i fun _ h => h.read size
      write? := some fun data => onHandle i fun _ h =>
        match h.write data with
        | (r, h) => (r.map Int.ofNat, h)
      stat? := some (stat h.view h.name)
      list? := some fun n => onHandle i fun w h => h.list n (listing h.view h.name w)
      close? := some (closeHandle i) }
  closed? := some fun w => (.ok (handle w i).closed, w)

/-- Makes a handle. -/
def newFile (h : Handle) : Action File := fun w =>
  (.ok (file w.serial w.memoryHandles.size h),
    { w with memoryHandles := w.memoryHandles.push h, serial := w.serial + 1 })

/-- Opens a file or directory for reading. -/
def openFile (view : View) (name : Text) : Action File := do
  let (_, e) ← ask view fun root s => locate root s name
  newFile (if e.directory then .ofDirectory view name e.mode else .ofContent view name e.mode e.data)

/-- Opens a file for writing, made if it is missing. -/
def createFile (view : View) (name : Text) (mode : Int) : Action File := do
  let _ ← change view fun root => create root name mode
  newFile (.ofNew view name mode)

/-- The filesystem of a view. -/
def filesystem (id : Nat) (view : View) : Filesystem where
  id := id
  kind := .memory view
  members :=
    { openFile? := some (openFile view)
      list? := some fun dir w => (listing view dir w, w)
      read? := some fun name => ask view fun root s => content root s name
      glob? := some fun pattern => ask view fun root s => glob root s pattern
      stat? := some (stat view)
      sub? := some fun dir w =>
        ((sub view.root (w.volume view.volume).store dir).map fun root =>
          .memory ⟨view.volume, root⟩, w)
      mkdirAll? := some fun dir mode => change view fun root => mkdirAll root dir mode
      create? := some (createFile view)
      write? := some fun name data mode => change view fun root s =>
        match write root name data mode s with
        | (r, s) => (r.map Int.ofNat, s)
      remove? := some fun name => change view fun root => remove root name
      removeAll? := some fun name => change view fun root => removeAll root name }

/-- A filesystem on a volume of its own, seen from `root`. -/
def newFilesystem (root : Text) : Action Filesystem := fun w =>
  (.ok (filesystem w.serial ⟨w.volumes.size, root⟩),
    { w with volumes := w.volumes.push (.fresh root), serial := w.serial + 1 })

end Vfs.Memory
