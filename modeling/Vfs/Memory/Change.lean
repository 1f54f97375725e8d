import Vfs.Memory.Lookup

/-!
# Changing a memory filesystem

Each change is a step of the store: it answers and leaves a store, also when it fails half way. A
mode is looked at only where an entry is made.
-/

namespace Vfs.Memory

/-- Makes the missing directories among some levels, one after the other; a level that is a file
stops it. -/
def makeLevels (dir : Text) (mode : Int) : List Level → Store Entry → Except Error Unit × Store Entry
  | [], s => (.ok (), s)
  | level :: rest, s =>
    match s.get? level.key with
    | some e =>
      if e.directory then makeLevels dir mode rest s
      else (.error (Fault.invalid.at "MkdirAll".text dir), s)
    | none =>
      match Mode.permissions mode with
      | .error fault => (.error fault.error, s)
      | .ok bits => makeLevels dir mode rest (s.put level.key (.newDirectory level.name bits))

/-- Makes a directory and every missing one on the way to it, from the root down. -/
def mkdirAll (root dir : Text) (mode : Int) (s : Store Entry) : Except Error Unit × Store Entry :=
  if Path.isValid dir then makeLevels dir mode (levels root dir) s
  else (.error (Fault.invalid.at "MkdirAll".text dir), s)

/-- The file under a name with its key, made without content if it is missing. -/
def create (root name : Text) (mode : Int) (s : Store Entry) :
    Except Error (Text × Entry) × Store Entry :=
  if Path.isValid name then
    match mkdirAll root (Path.parent name) mode s with
    | (.error e, s) => (.error e, s)
    | (.ok (), s) =>
      let k := key root name
      match s.get? k with
      | some e =>
        if e.directory then (.error (Fault.invalid.at "Create".text name), s) else (.ok (k, e), s)
      | none =>
        match Mode.permissions mode with
        | .error fault => (.error fault.error, s)
        | .ok bits =>
          let e := Entry.newFile (Path.lastElement name) bits
          (.ok (k, e), s.put k e)
  else (.error (Fault.invalid.at "Create".text name), s)

/-- Replaces the content of a file, made if it is missing, and answers the number of bytes. -/
def write (root name : Text) (data : Bytes) (mode : Int) (s : Store Entry) :
    Except Error Nat × Store Entry :=
  match create root name mode s with
  | (.error e, s) => (.error e, s)
  | (.ok (k, e), s) => (.ok data.length, s.put k { e with data := data })

/-- Takes out the entry under a name, if there is one. -/
def remove (root name : Text) (s : Store Entry) : Except Error Unit × Store Entry :=
  if Path.isValid name then (.ok (), s.remove (key root name))
  else (.error (Fault.invalid.at "RemoveFile".text name), s)

/-- Takes out the entry under a name and everything below it. -/
def removeAll (root name : Text) (s : Store Entry) : Except Error Unit × Store Entry :=
  if Path.isValid name then (.ok (), s.removeAll (key root name))
  else (.error (Fault.invalid.at "RemoveAll".text name), s)

end Vfs.Memory
