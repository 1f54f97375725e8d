import Vfs.Filesystem.Dispatch

/-!
# Filesystems made of functions

A delegate has every member, each answered by a function it was given. A function it was not given
fails as not implemented, except that making directories and closing then do nothing. `delegate`
gives the functions that forward to another filesystem: every question, answered by any means the
filesystem has, and those changes that it has members for. `checkDelegate` says what the other one
must have at least.
-/

namespace Vfs
namespace Filesystem

/-- A filesystem that only opens, by a function that may be missing. -/
def opener (id : Nat) (openFile? : Option (Text → Action File)) : Filesystem where
  id := id
  kind := .opener
  members :=
    { openFile? := some fun name =>
        match openFile? with
        | some openFile => openFile name
        | none => missingOperation "Open" name }

/-- A filesystem of functions, some of which may be missing. -/
def ofFunctions (id : Nat) (m : Members Filesystem) : Filesystem where
  id := id
  kind := .delegate
  members :=
    { openFile? := some (m.openFile?.getD (missingOperation "Open"))
      list? := some (m.list?.getD (missingOperation "ReadDir"))
      read? := some (m.read?.getD (missingOperation "ReadFile"))
      glob? := some (m.glob?.getD (missingOperation "Glob"))
      stat? := some (m.stat?.getD (missingOperation "Stat"))
      sub? := some (m.sub?.getD fun dir w => (.error (Fault.notImplemented.at "Sub".text dir), w))
      mkdirAll? := some (m.mkdirAll?.getD fun _ _ => pure ())
      create? := some (m.create?.getD fun name _ => missingOperation "CreateFile" name)
      write? := some (m.write?.getD fun name _ _ => missingOperation "WriteFile" name)
      remove? := some (m.remove?.getD (missingOperation "RemoveFile"))
      removeAll? := some (m.removeAll?.getD (missingOperation "RemoveAll")) }

/-- The functions that forward to a filesystem. -/
def delegate (fs : Filesystem) : Members Filesystem where
  openFile? := some fs.openFile
  list? := some fs.list
  read? := some fs.read
  glob? := some fs.glob
  stat? := some fs.stat
  sub? := some fs.place
  mkdirAll? := if fs.members.canWrite then fs.members.mkdirAll? else none
  create? := if fs.members.canWrite then fs.members.create? else none
  write? := if fs.members.canWrite then fs.members.write? else none
  remove? := if fs.members.canRemove then fs.members.remove? else none
  removeAll? := if fs.members.canRemove then fs.members.removeAll? else none

/-- Only what opens can be forwarded to. -/
def checkDelegate (fs : Filesystem) : Action Unit :=
  if fs.members.canOpen then pure () else noMember fs.kind.name "open"

/-- An object of a named sort, without members. -/
def bare (sort : String) (id : Nat) : Filesystem := ⟨id, .bare sort, {}⟩

end Filesystem

namespace File

/-- The failure of a function that a file was not given. -/
def missingFunction {α : Type} : Action α := Action.fail Fault.notImplemented.error

/-- A file of functions, some of which may be missing. -/
def ofFunctions (id : Nat) (m : FileMembers) : File where
  id := id
  kind := .delegate
  members :=
    { read? := some (m.read?.getD fun _ => missingFunction)
      write? := some (m.write?.getD fun _ => missingFunction)
      stat? := some (m.stat?.getD missingFunction)
      list? := some (m.list?.getD fun _ => missingFunction)
      close? := some (m.close?.getD (pure ())) }

/-- Only what can be described, read and closed can be forwarded to. -/
def checkDelegate (f : File) : Action Unit :=
  if f.members.stat?.isNone then noMember f.kind.title "stat"
  else if f.members.read?.isNone then noMember f.kind.title "read"
  else if f.members.close?.isNone then noMember f.kind.title "close"
  else pure ()

/-- An object with just the given members. -/
def bare (kind : FileKind) (id : Nat) (m : FileMembers) : File := ⟨id, kind, m, none⟩

/-- The functions that forward to a file. -/
def delegate (f : File) : FileMembers where
  read? := some f.read
  write? := if f.members.isWriter then f.members.write? else none
  stat? := some f.stat
  list? := if f.members.isDirectory then f.members.list? else none
  close? := some f.close

end File

end Vfs
