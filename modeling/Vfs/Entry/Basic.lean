import Vfs.Mode
import Vfs.Instant

/-!
# Entries

An `Entry` is a stored file or directory. `Entry.make` refuses a mode word whose type disagrees with
what the entry is meant to be. A `HostStat` is what a host says about one of its files.
-/

namespace Vfs

/-- A stored file or directory. -/
structure Entry where
  /-- The last element of the path, `.` for a root. -/
  name : Text
  /-- The content of a file. -/
  data : Bytes := []
  mode : Nat := Mode.regular
  directory : Bool := false
  deriving DecidableEq, Repr

namespace Entry

/-- The word that messages show for a truth value. -/
def truth (b : Bool) : Text := if b then "True".text else "False".text

/-- An entry whose mode word says the same as `directory`. -/
def make (name : Text) (data : Bytes) (mode : Int) (directory : Bool) : Except Fault Entry :=
  match Mode.check mode with
  | .error fault => .error fault
  | .ok word =>
    if Mode.isDirectory word = directory then .ok ⟨name, data, word, directory⟩
    else .error (.badValue ("mode ".text ++ Text.octal mode ++
      " disagrees with directory=".text ++ truth directory))

/-- The number of bytes of a file, 0 for a directory. -/
def size (e : Entry) : Nat := if e.directory then 0 else e.data.length

/-- A new directory. -/
def newDirectory (name : Text) (permissions : Nat) : Entry :=
  ⟨name, [], Mode.directory ||| permissions, true⟩

/-- A new file without content. -/
def newFile (name : Text) (permissions : Nat) : Entry :=
  ⟨name, [], Mode.regular ||| permissions, false⟩

end Entry

/-- What a host says about a file or directory. -/
structure HostStat where
  name : Text
  size : Int
  mode : Nat
  modified : Instant
  deriving DecidableEq, Repr

/-- The statement of a host about `name`. A directory has size 0 whatever the host says. -/
def HostStat.make (name : Text) (mode size : Int) (modified : Instant) : Except Fault HostStat :=
  match Mode.check mode with
  | .error fault => .error fault
  | .ok word =>
    match modified.check with
    | .error fault => .error fault
    | .ok modified => .ok ⟨name, if Mode.isDirectory word then 0 else size, word, modified⟩

end Vfs
