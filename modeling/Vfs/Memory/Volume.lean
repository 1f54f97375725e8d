import Vfs.Memory.Change
import Vfs.Info

/-!
# Volumes

A volume is a store that remembers the entries taken out of it: whoever was told of an entry can ask
what became of it. An entry is known by its key and by how many entries were taken out under that
key before it.
-/

namespace Vfs.Memory

/-- A store and the entries taken out of it, oldest first. -/
structure Volume where
  store : Store Entry := {}
  retired : List (Text × Entry) := []
  deriving Repr

/-- A part of a volume: everything seen from a root key. -/
structure View where
  volume : Nat
  root : Text
  deriving DecidableEq, Repr

namespace Volume

/-- A volume with one directory, stored under `root` as it is written. -/
def fresh (root : Text) : Volume :=
  ⟨Store.empty.put root (.newDirectory Path.here Mode.standard), []⟩

/-- The entries taken out under a key, oldest first. -/
def past (v : Volume) (k : Text) : List Entry :=
  (v.retired.filter fun r => r.1 = k).map (·.2)

/-- The volume after a step of its store. A step either adds entries or takes some out; those taken
out are remembered. -/
def after (v : Volume) (s : Store Entry) : Volume :=
  if s.keys.size < v.store.keys.size then
    ⟨s, v.retired ++ v.store.toList.filter fun r => !s.contains r.1⟩
  else ⟨s, v.retired⟩

/-- What the volume with number `n` says about an entry under a key. -/
def info (v : Volume) (n : Nat) (k : Text) (e : Entry) : Info :=
  e.info (.stored n k (v.past k).length)

/-- The entry under a key that came after `generation` others, stored or not. -/
def entryOf? (v : Volume) (k : Text) (generation : Nat) : Option Entry :=
  match (v.past k)[generation]? with
  | some e => some e
  | none => v.store.get? k

end Volume

end Vfs.Memory
