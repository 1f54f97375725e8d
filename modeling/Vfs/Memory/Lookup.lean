import Vfs.Memory.Key
import Vfs.Entry.Basic

/-!
# Asking a memory filesystem

Questions about names, answered from a store and the root key it is seen from. Nothing here changes
the store. An entry is answered with the key it is stored under, which says which entry it is.
-/

namespace Vfs.Memory

/-- The entry under a name. -/
def locate (root : Text) (s : Store Entry) (name : Text) : Except Error (Text × Entry) :=
  if Path.isValid name then
    match s.get? (key root name) with
    | none => .error (Fault.notExist.at "Open".text name)
    | some e => .ok (key root name, e)
  else .error (Fault.invalid.at "Open".text name)

/-- The entries of a directory, by increasing key. -/
def list (root : Text) (s : Store Entry) (dir : Text) : Except Error (List (Text × Entry)) :=
  match locate root s dir with
  | .error e => .error e
  | .ok (k, e) =>
    if e.directory then .ok ((s.children k).filterMap fun c => (s.get? c).map (c, ·))
    else .error (Fault.notDir.at "ReadDir".text dir)

/-- The content of a file. -/
def content (root : Text) (s : Store Entry) (name : Text) : Except Error Bytes :=
  match locate root s name with
  | .error e => .error e
  | .ok (_, e) =>
    if e.directory then .error (Fault.invalid.at "ReadFile".text name) else .ok e.data

/-- The names that match a pattern, by increasing key. -/
def glob (root : Text) (s : Store Entry) (pattern : Text) : Except Error (List Text) :=
  match s.matching root pattern with
  | .error fault => .error fault.error
  | .ok keys => .ok (keys.map (relative root))

/-- The root key of the filesystem below a directory. -/
def sub (root : Text) (s : Store Entry) (dir : Text) : Except Error Text :=
  if Path.isValid dir then
    match locate root s dir with
    | .error e => .error e
    | .ok (k, e) => if e.directory then .ok k else .error (Fault.invalid.at "Sub".text dir)
  else .error (Fault.invalid.at "Sub".text dir)

end Vfs.Memory
