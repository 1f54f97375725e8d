import Vfs.Filesystem.Search

/-!
# Host filesystems

A directory of the host as a filesystem. A name is checked before the host sees anything of it, and
an error of the host is told with the operation and the name it came from. Whatever else goes wrong
passes as it is.
-/

namespace Vfs.Host

/-- The host path of a name, for an operation that refuses the name if it is not valid. -/
def hostPath (dir operation name : Text) : Except Error Text :=
  if Path.isValid name then
    .ok (if name = Path.here then dir else (Path.elements name).foldl Path.attach dir)
  else .error (Fault.invalid.at operation name)

/-- Does something at the host path of a name, and tells errors of the host with the operation and
the name. -/
def within {α : Type} (dir : Text) (operation name : Text) (act : Text → Action α) : Action α := do
  let path ← Action.ofExcept (hostPath dir operation name)
  Action.retell (act path) fun e => e.at operation name

/-- The permission bits of a mode, looked at. -/
def permissions (mode : Int) : Action Nat :=
  Action.ofExcept ((Mode.permissions mode).mapError Fault.error)

/-- What the host says about a path, under a name. -/
def describe (path name : Text) : Action Info := do
  let (mode, size) ← ask fun t => t.stat (.ofPath path)
  let id ← Action.fresh
  let said := HostStat.make name mode size (Instant.ofSeconds 0)
  Action.ofExcept ((said.map fun s => s.info id).mapError Fault.error)

/-- What the host says about a name. -/
def stat (dir name : Text) : Action Info :=
  within dir "Stat".text name fun path =>
    describe path (if name = Path.here then name else Path.lastElement name)

/-- The entries of a directory, by increasing name. -/
def list (dir name : Text) : Action (List Info) :=
  within dir "ReadDir".text name fun path => do
    let names ← ask fun t => t.list (.ofPath path)
    names.mapM fun child => describe (Path.attach path child) child

/-- The handle with a number. -/
def handle (w : World) (i : Nat) : Handle := w.hostHandles.getD i {}

/-- The world with another state of a handle. -/
def setHandle (w : World) (i : Nat) (h : Handle) : World :=
  { w with hostHandles := w.hostHandles.setIfInBounds i h }

/-- Delivers the next page of a directory; the listing is asked for where there is none. -/
def page (dir name : Text) (i : Nat) (n : Int) : Action (List Info) := do
  let listing ←
    match (handle (← get) i).listing with
    | some listing => pure listing
    | none => list dir name
  fun w =>
    match (handle w i).page n listing with
    | (r, h) => (r, setHandle w i h)

/-- Closes a handle and its stream. -/
def closeHandle (i : Nat) (stream : Option ByteStream) : Action Unit := do
  fun w => (.ok (), setHandle w i { handle w i with closed := true })
  match stream with
  | some stream => stream.close
  | none => pure ()
  fun w => (.ok (), setHandle w i (handle w i).close)

/-- The file that a handle is; a directory has no stream. -/
def file (dir name : Text) (stream : Option ByteStream) (id i : Nat) : File where
  id := id
  kind := .host name
  members :=
    { read? := some fun size =>
        match stream with
        | some stream => stream.read size
        | none => Action.fail (Fault.isDir.at "Read".text name)
      write? := some fun data =>
        match stream with
        | some stream => do return Int.ofNat (← stream.write data)
        | none => Action.fail (Fault.isDir.at "Write".text name)
      stat? := some (stat dir name)
      list? := some (page dir name i)
      close? := some (closeHandle i stream) }
  closed? := some fun w => (.ok (handle w i).closed, w)

/-- Makes a handle. -/
def newFile (dir name : Text) (stream : Option ByteStream) : Action File := fun w =>
  (.ok (file dir name stream w.serial w.hostHandles.size),
    { w with hostHandles := w.hostHandles.push {}, serial := w.serial + 1 })

/-- Opens a file or directory for reading. -/
def openFile (dir name : Text) : Action File :=
  within dir "Open".text name fun path => do
    if (← get).tree.holdsDirectory (.ofPath path) then newFile dir name none
    else newFile dir name (some (← openStream path))

/-- The content of a file. -/
def content (dir name : Text) : Action Bytes :=
  within dir "ReadFile".text name fun path => ask fun t =>
    (t.fileNumber (.ofPath path)).map t.content

/-- Makes a directory and the missing ones above it. -/
def mkdirAll (m : Mount) (name : Text) (mode : Int) : Action Unit :=
  within m.dir "MkdirAll".text name fun path => do m.ops.mkdirAll path (← permissions mode)

/-- Opens a file for writing, emptied; the directories above it are made if they are missing. -/
def createFile (m : Mount) (name : Text) (mode : Int) : Action File := do
  let stream ← within m.dir "Create".text name fun path => do
    let above := match Path.directory path with
      | [] => m.dir
      | above => above
    m.ops.mkdirAll above (← permissions mode)
    m.ops.create path
  newFile m.dir name (some stream)

/-- Replaces the content of a file and answers the number of bytes. -/
def write (m : Mount) (name : Text) (data : Bytes) (mode : Int) : Action Int := do
  let f ← createFile m name mode
  Action.ensuring (f.write data) f.close

/-- Takes out a file. -/
def remove (m : Mount) (name : Text) : Action Unit :=
  within m.dir "Remove".text name m.ops.remove

/-- Takes out whatever there is. -/
def removeAll (m : Mount) (name : Text) : Action Unit :=
  within m.dir "RemoveAll".text name m.ops.removeAll

/-- The part of a mounted directory below a name, which need not be there. -/
def sub (m : Mount) (name : Text) : Except Error Mount :=
  (hostPath m.dir "Sub".text name).map fun path => { m with dir := path }

/-- The filesystem of a mounted directory. -/
def filesystem (id : Nat) (m : Mount) : Filesystem where
  id := id
  kind := .host m.record
  members :=
    { openFile? := some (openFile m.dir)
      list? := some (list m.dir)
      read? := some (content m.dir)
      glob? := some (search (stat m.dir) (list m.dir))
      stat? := some (stat m.dir)
      sub? := some fun name w => ((sub m name).map .host, w)
      mkdirAll? := some (mkdirAll m)
      create? := some (createFile m)
      write? := some (write m)
      remove? := some (remove m)
      removeAll? := some (removeAll m) }

/-- A directory of the host with operations of its own. -/
def newFilesystem (dir : Text) (operations : Nat → Operations) : Action Filesystem := fun w =>
  (.ok (filesystem w.serial ⟨dir, operations w.records.size, w.records.size⟩),
    { w with records := w.records.push [], serial := w.serial + 1 })

end Vfs.Host
