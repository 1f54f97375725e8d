import Vfs.Path.Valid
import Vfs.Store.Basic

/-!
# Names and store keys

A memory filesystem sees a store from a root key. `key` finds the key of a name, `relative` the name
of a key, and `levels` the directories that lead to a name, the root first, each with its key and
the name it is stored under.
-/

namespace Vfs.Memory

/-- The key of a name seen from `root`. -/
def key (root name : Text) : Text := Path.clean (Path.attach root name)

/-- The name that a key has from `root`; a key outside is the root itself. -/
def relative (root k : Text) : Text :=
  if (Store.branch root).isPrefixOf k then k.drop (Store.branch root).length else Path.here

/-- A directory on the way to a name. -/
structure Level where
  key : Text
  name : Text
  deriving DecidableEq, Repr

/-- The directories below `k` along a row of elements. -/
def deeper (k : Text) : List Text → List Level
  | [] => []
  | e :: es => ⟨Path.attach k e, e⟩ :: deeper (Path.attach k e) es

/-- The name a root is stored under. -/
def rootName (root : Text) : Text :=
  match Path.lastElement root with
  | [] => Path.here
  | e => e

/-- The directories from the root down to `dir`. -/
def levels (root dir : Text) : List Level :=
  ⟨root, rootName root⟩ :: if dir = Path.here then [] else deeper root (Path.elements dir)

end Vfs.Memory
