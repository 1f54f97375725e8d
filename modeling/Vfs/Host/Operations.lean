import Vfs.World
import Vfs.Host.Tree.Removal

/-!
# The changes a host makes

A filesystem changes its host through `Operations`, so that a host can be stood in for: `failing`
operations fail as they are told to, and `recorded` ones only write their call down.
-/

namespace Vfs.Host

/-- An open file of a host. -/
structure ByteStream where
  read : Int → Action Bytes
  write : Bytes → Action Nat
  close : Action Unit

/-- The changes a filesystem can ask for. -/
structure Operations where
  /-- Opens a file for writing, emptied. -/
  create : Text → Action ByteStream
  /-- Makes a directory with a mode, and those above it; it may be there already. -/
  mkdirAll : Text → Nat → Action Unit
  /-- Takes out a file. -/
  remove : Text → Action Unit
  /-- Takes out whatever there is. -/
  removeAll : Text → Action Unit

/-- A question about the tree. -/
def ask {α : Type} (f : Tree → Except Fault α) : Action α := fun w =>
  ((f w.tree).mapError Fault.error, w)

/-- A change of the tree. -/
def change {α : Type} (f : Tree → Except Fault α × Tree) : Action α := fun w =>
  match f w.tree with
  | (r, t) => (r.mapError Fault.error, { w with tree := t })

/-- Reads from a stream. -/
def readStream (i : Nat) (size : Int) : Action Bytes := fun w =>
  match (w.streams.getD i (.sink true)).read w.tree.content size with
  | (r, st) => (r.mapError Fault.error, { w with streams := w.streams.setIfInBounds i st })

/-- Writes to a stream. -/
def writeStream (i : Nat) (data : Bytes) : Action Nat := fun w =>
  match (w.streams.getD i (.sink true)).write w.tree data with
  | (r, t, st) =>
    (r.mapError Fault.error, { w with tree := t, streams := w.streams.setIfInBounds i st })

/-- Closes a stream. -/
def closeStream (i : Nat) : Action Unit := fun w =>
  match (w.streams.getD i (.sink true)).close w.tree with
  | (t, st) => (.ok (), { w with tree := t, streams := w.streams.setIfInBounds i st })

/-- The stream with a number. -/
def ByteStream.ofNumber (i : Nat) : ByteStream where
  read := readStream i
  write := writeStream i
  close := closeStream i

/-- A new stream. -/
def newStream (st : Stream) : Action ByteStream := fun w =>
  (.ok (.ofNumber w.streams.size), { w with streams := w.streams.push st })

/-- Opens the file under a path for reading. -/
def openStream (path : Text) : Action ByteStream := do
  newStream (.reader (← ask fun t => t.fileNumber (.ofPath path)))

/-- The changes of the tree itself. -/
def Operations.standard : Operations where
  create path := do newStream (.writer (← change fun t => t.truncate (.ofPath path)))
  mkdirAll path mode := change fun t => t.mkdirs (.ofPath path) mode
  remove path := change fun t => t.unlink (.ofPath path)
  removeAll path := change fun t => t.removeAll (.ofPath path)

/-- Writes a call down. -/
def record (i : Nat) (call : Call) : Action Unit := fun w =>
  (.ok (), { w with records := w.records.modify i (· ++ [call]) })

/-- The operations of which the listed ones only write their call down in a record. A file that is
created in this way forgets what is written to it. -/
def Operations.recorded (ops : Operations) (i : Nat) (verbs : List Verb) : Operations where
  create path :=
    if Verb.create ∈ verbs then do record i ⟨.create, path, none⟩; newStream (.sink false)
    else ops.create path
  mkdirAll path mode :=
    if Verb.mkdirAll ∈ verbs then record i ⟨.mkdirAll, path, some mode⟩ else ops.mkdirAll path mode
  remove path :=
    if Verb.remove ∈ verbs then record i ⟨.remove, path, none⟩ else ops.remove path
  removeAll path :=
    if Verb.removeAll ∈ verbs then record i ⟨.removeAll, path, none⟩ else ops.removeAll path

/-- The operations of which the listed ones fail. -/
def Operations.failing (ops : Operations) (failures : List (Verb × Error)) : Operations :=
  let error? (verb : Verb) : Option Error := (failures.find? (·.1 = verb)).map (·.2)
  { create := fun path => ((error? .create).map Action.fail).getD (ops.create path)
    mkdirAll := fun path mode => ((error? .mkdirAll).map Action.fail).getD (ops.mkdirAll path mode)
    remove := fun path => ((error? .remove).map Action.fail).getD (ops.remove path)
    removeAll := fun path => ((error? .removeAll).map Action.fail).getD (ops.removeAll path) }

/-- A directory of the host as it is used: its path, the operations to change it, and the record
that calls are written down in. -/
structure Mount where
  dir : Text
  ops : Operations
  record : Nat

end Vfs.Host
