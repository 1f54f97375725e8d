import Vfs.Filesystem.Walk

/-!
# Copying a tree

A tree is copied along a walk of its source: a directory is made at the same path of the
destination, a file is created there and filled chunk by chunk. The first failure ends the copy; an
error of the host is logged with the path it happened at.
-/

namespace Vfs

/-- How serious a line of the log is. -/
inductive LogLevel where
  | debug
  | warning
  deriving DecidableEq, Repr

/-- What a copy did: the lines it logged and how it ended. -/
structure CopyReport where
  log : List (LogLevel × Text)
  outcome : Except Error Unit

namespace Filesystem

/-- The number of bytes read at once. -/
def chunkSize : Int := 32 * 1024

/-- The permission bits that an entry is copied with; an entry without any gets the standard
ones. -/
def copyMode (info : Info) : Int :=
  match Mode.permissionBits info.mode with
  | 0 => Mode.standard
  | bits => bits

/-- Writes what a file delivers, chunk by chunk, until it delivers nothing. -/
def pour (reader writer : File) : Nat → Action Unit
  | 0 => Action.fail Fault.unbounded.error
  | fuel + 1 => do
    let chunk ← reader.read chunkSize
    if chunk.isEmpty then return ()
    let _ ← writer.write chunk
    pour reader writer fuel

/-- Copies one file. -/
def copyFile (dest source : Filesystem) (path : Text) (mode : Int) : Action Unit :=
  source.withFile path fun reader => do
    let writer ← dest.create path mode
    Action.ensuring (do pour reader writer ((← get).extent + 1)) writer.close

/-- Copies what a walk of the source has reached. -/
def copyEntry (dest source : Filesystem) (path : Text) (info : Info) : Action Unit :=
  if info.directory then dest.mkdirAll path (copyMode info)
  else copyFile dest source path (copyMode info)

/-- The log of a copy that went along a trace. -/
def copyLog (root : Text) (t : Trace) : List (LogLevel × Text) :=
  let steps := t.visited.map fun (path, info) =>
    (LogLevel.debug, (if info.directory then "copy_fs: mkdir ".text else "copy_fs: copy ".text)
      ++ path)
  match t.outcome with
  | .ok () => steps
  | .error e =>
    let last := ((t.visited.getLast?).map (·.1)).getD root
    steps ++ if e.isSystem then
      [(.warning, "copy_fs aborted at ".text ++ last ++ ": ".text ++ e.message)] else []

/-- Copies the tree at `root` to the same path of `dest`, which must be one that can be written. -/
def copy (dest source : Filesystem) (root : Text) : StateM World CopyReport :=
  if dest.members.canWrite then do
    let t ← source.walkWith (copyEntry dest source) root
    return ⟨copyLog root t, t.outcome⟩
  else return ⟨[], .error (Fault.notImplemented.at "CopyFS".text root)⟩

end Filesystem

end Vfs
