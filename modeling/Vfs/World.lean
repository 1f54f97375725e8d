import Vfs.Memory.Handle
import Vfs.Host.Stream
import Vfs.Host.Call

/-!
# The world that filesystems act on

The `World` holds everything that outlives a single call: volumes, the tree of the host, and the
state of every handle and stream, each known by its number. An `Action` answers or fails and leaves
a world either way, so that what was done before a failure stays done.
-/

namespace Vfs

/-- Everything that filesystems read and change. -/
structure World where
  volumes : Array Memory.Volume := #[]
  memoryHandles : Array Memory.Handle := #[]
  tree : Host.Tree := {}
  streams : Array Host.Stream := #[]
  hostHandles : Array Host.Handle := #[]
  /-- The calls that were recorded in place of being made, one row for each record. -/
  records : Array (List Host.Call) := #[]
  /-- The number of objects made so far. -/
  serial : Nat := 0

/-- Something that answers or fails, and changes the world. -/
abbrev Action (α : Type) := ExceptT Error (StateM World) α

namespace World

/-- The volume with a number. -/
def volume (w : World) (n : Nat) : Memory.Volume := w.volumes.getD n {}

/-- The world with another volume under a number. -/
def setVolume (w : World) (n : Nat) (v : Memory.Volume) : World :=
  { w with volumes := w.volumes.setIfInBounds n v }

/-- What an answer about an entry says now. A stored entry may have new content; what a host said
stays as it was said. -/
def refresh (w : World) (info : Info) : Info :=
  match info.origin with
  | .made _ => info
  | .stored n k generation =>
    match (w.volume n).entryOf? k generation with
    | some e => e.info info.origin
    | none => info

/-- No directory is nested deeper: every key and every row of names of a host is shorter. -/
def nesting (w : World) : Nat :=
  let longest (lengths : List Nat) : Nat := lengths.foldl max 0
  longest (w.volumes.toList.map fun v => longest (v.store.keys.toList.map List.length)) +
    w.tree.depth

/-- The number of bytes held anywhere; nothing takes more reads to the end. -/
def extent (w : World) : Nat :=
  total (w.volumes.toList.map fun v => total (v.store.values.pairs.map fun p => p.2.data.length)) +
    total (w.memoryHandles.toList.map fun h => (h.reader.getD []).length) +
    total (w.tree.contents.toList.map List.length) +
    total (w.streams.toList.map fun
      | .reading _ _ pending _ => pending.length
      | _ => 0)

end World

namespace Action

variable {α : Type}

/-- Fails. -/
def fail (e : Error) : Action α := fun w => (.error e, w)

/-- Answers or fails as given. -/
def ofExcept (r : Except Error α) : Action α := fun w => (r, w)

/-- A number that no other object has. -/
def fresh : Action Nat := fun w => (.ok w.serial, { w with serial := w.serial + 1 })

/-- Does `last` after `body`, however `body` ends; a failure of `last` is told in place of what
`body` did. -/
def ensuring (body : Action α) (last : Action Unit) : Action α := fun w =>
  match body w with
  | (r, w) =>
    match last w with
    | (.error e, w) => (.error e, w)
    | (.ok (), w) => (r, w)

/-- Goes on with `handler` where `body` fails with an error of the host. -/
def rescue (body : Action α) (handler : Error → Action α) : Action α := fun w =>
  match body w with
  | (.error e, w) => if e.isSystem then handler e w else (.error e, w)
  | (.ok a, w) => (.ok a, w)

/-- Answers `otherwise` where `body` fails with an error of the host. -/
def orElse (body : Action α) (otherwise : α) : Action α := body.rescue fun _ => pure otherwise

/-- Tells an error of the host in other words. -/
def retell (body : Action α) (tell : Error → Error) : Action α := body.rescue fun e => fail (tell e)

end Action

end Vfs
