import Vfs.Filesystem.Search
import Vfs.Memory.Filesystem
import Vfs.Host.Filesystem

/-!
# Asking any filesystem

Each operation uses the member a filesystem has for it. A question that the filesystem has no member
for is answered by opening the name and asking the handle; a change it has no member for fails as
not implemented.
-/

namespace Vfs

/-- The failure of an operation that a filesystem does not have. -/
def missingOperation {α : Type} (operation : String) (name : Text) : Action α :=
  Action.fail (Fault.notImplemented.at operation.text name)

/-- A place made into a filesystem. -/
def Place.filesystem : Place Filesystem → Action Filesystem
  | .memory view => do return Memory.filesystem (← Action.fresh) view
  | .host mount => do return Host.filesystem (← Action.fresh) mount
  | .given fs => pure fs

namespace Filesystem

/-- Opens a name for reading. -/
def openFile (fs : Filesystem) (name : Text) : Action File :=
  match fs.members.openFile? with
  | some openFile => openFile name
  | none => noMember fs.kind.name "open"

/-- Opens a name, asks the handle, and closes it whatever it answers. -/
def withFile {α : Type} (fs : Filesystem) (name : Text) (ask : File → Action α) : Action α := do
  let f ← fs.openFile name
  Action.ensuring (ask f) f.close

/-- What is said about a name. -/
def stat (fs : Filesystem) (name : Text) : Action Info :=
  match fs.members.canStat, fs.members.stat? with
  | true, some stat => stat name
  | _, _ => fs.withFile name File.stat

/-- The content of a file. -/
def read (fs : Filesystem) (name : Text) : Action Bytes :=
  match fs.members.canRead, fs.members.read? with
  | true, some read => read name
  | _, _ => fs.withFile name fun f => f.read (-1)

/-- Entries by increasing name; those of one name stay in their order. -/
def sortByName (entries : List Info) : List Info :=
  entries.mergeSort fun a b => Text.le a.name b.name

/-- The entries of a directory. -/
def list (fs : Filesystem) (dir : Text) : Action (List Info) :=
  match fs.members.canList, fs.members.list? with
  | true, some list => list dir
  | _, _ => do
    let entries ← fs.withFile dir fun f =>
      if f.members.isDirectory then f.list (-1) else missingOperation "ReadDir" dir
    return sortByName entries

/-- Where the part of a filesystem below a name is; the whole is the filesystem itself. -/
def place (fs : Filesystem) (dir : Text) : World → Except Error (Place Filesystem) × World :=
  if Path.isValid dir then
    if dir = Path.here then fun w => (.ok (.given fs), w)
    else match fs.members.canSub, fs.members.sub? with
      | true, some sub => sub dir
      | _, _ => fun w => (.error (Fault.notImplemented.at "Sub".text dir), w)
  else fun w => (.error (Fault.invalid.at "Sub".text dir), w)

/-- The part of a filesystem below a name. -/
def sub (fs : Filesystem) (dir : Text) : Action Filesystem := do
  let place ← (fun w => fs.place dir w : Action (Place Filesystem))
  place.filesystem

/-- The names that match a pattern, found by listing. -/
def search (fs : Filesystem) (pattern : Text) : Action (List Text) :=
  Vfs.search fs.stat fs.list pattern

/-- The names that match a pattern. -/
def glob (fs : Filesystem) (pattern : Text) : Action (List Text) :=
  match fs.members.canGlob, fs.members.glob? with
  | true, some glob => glob pattern
  | _, _ => fs.search pattern

/-- Makes a directory and the missing ones above it. -/
def mkdirAll (fs : Filesystem) (dir : Text) (mode : Int) : Action Unit :=
  match fs.members.canWrite, fs.members.mkdirAll? with
  | true, some mkdirAll => mkdirAll dir mode
  | _, _ => missingOperation "MkdirAll" dir

/-- Opens a file for writing. -/
def create (fs : Filesystem) (name : Text) (mode : Int) : Action File :=
  match fs.members.canWrite, fs.members.create? with
  | true, some create => create name mode
  | _, _ => missingOperation "CreateFile" name

/-- Replaces the content of a file. -/
def write (fs : Filesystem) (name : Text) (data : Bytes) (mode : Int) : Action Int :=
  match fs.members.canWrite, fs.members.write? with
  | true, some write => write name data mode
  | _, _ => missingOperation "WriteFile" name

/-- Takes out a file. -/
def remove (fs : Filesystem) (name : Text) : Action Unit :=
  match fs.members.canRemove, fs.members.remove? with
  | true, some remove => remove name
  | _, _ => missingOperation "RemoveFile" name

/-- Takes out an entry and everything below it. -/
def removeAll (fs : Filesystem) (path : Text) : Action Unit :=
  match fs.members.canRemove, fs.members.removeAll? with
  | true, some removeAll => removeAll path
  | _, _ => missingOperation "RemoveAll" path

end Filesystem

end Vfs
