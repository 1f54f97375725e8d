import Vfs.Host.Operations

/-!
# Files and filesystems

A file or a filesystem is whatever has the right members: each member is there or not, and what is
there decides what can be done with it. Members are actions, so that any way to answer them makes a
filesystem. A part of a filesystem that is asked for is told as a `Place`, which is made into a
filesystem where it is used.
-/

namespace Vfs

/-- What sort of file it is. -/
inductive FileKind where
  /-- A handle of a memory filesystem, with its name and its mode. -/
  | memory (name : Text) (mode : Int)
  /-- A handle of a host filesystem, with its name. -/
  | host (name : Text)
  /-- A file made of functions, which has every member. -/
  | delegate
  /-- An object that has just the members it is given, and no way to be used and closed in one go;
  `title` is the name of its sort with the place it comes from. -/
  | bare (name title : String)
  deriving DecidableEq, Repr

/-- The name of a sort of files. -/
def FileKind.name : FileKind → String
  | .memory _ _ => "MemFile"
  | .host _ => "OSFile"
  | .delegate => "FileDelegator"
  | .bare name _ => name

/-- The name of a sort of files in complaints. -/
def FileKind.title : FileKind → String
  | .bare _ title => title
  | kind => kind.name

/-- A plain object. -/
def FileKind.plain : FileKind := .bare "SimpleNamespace" "types.SimpleNamespace"

/-- What can be done with an open file. -/
structure FileMembers where
  read? : Option (Int → Action Bytes) := none
  write? : Option (Bytes → Action Int) := none
  stat? : Option (Action Info) := none
  list? : Option (Int → Action (List Info)) := none
  close? : Option (Action Unit) := none

/-- An open file. -/
structure File where
  id : Nat
  kind : FileKind
  members : FileMembers
  closed? : Option (Action Bool) := none

namespace FileMembers

/-- It can be read, described and closed. -/
def isFile (m : FileMembers) : Bool := m.read?.isSome && m.stat?.isSome && m.close?.isSome

/-- It is a file that can be listed. -/
def isDirectory (m : FileMembers) : Bool := m.isFile && m.list?.isSome

/-- It is a file that can be written. -/
def isWriter (m : FileMembers) : Bool := m.isFile && m.write?.isSome

end FileMembers

/-- The failure to do what an object of a named sort has no member for. -/
def noMember {α : Type} (sort member : String) : Action α :=
  Action.fail (Fault.noMember sort.text member.text).error

namespace File

def read (f : File) (size : Int) : Action Bytes :=
  match f.members.read? with
  | some read => read size
  | none => noMember f.kind.title "read"

def write (f : File) (data : Bytes) : Action Int :=
  match f.members.write? with
  | some write => write data
  | none => noMember f.kind.title "write"

def stat (f : File) : Action Info := f.members.stat?.getD (noMember f.kind.title "stat")

def list (f : File) (n : Int) : Action (List Info) :=
  match f.members.list? with
  | some list => list n
  | none => noMember f.kind.title "read_dir"

def close (f : File) : Action Unit := f.members.close?.getD (noMember f.kind.title "close")

def isClosed (f : File) : Action Bool := f.closed?.getD (noMember f.kind.title "closed")

/-- Uses a file and closes it however that ends. -/
def useThenClose {α : Type} (f : File) (body : File → Action α) : Action α :=
  match f.kind with
  | .bare _ title =>
    Action.fail (Fault.plain (.other "TypeError".text)
      (.char '\x27' :: title.text ++ "' object does not support the context manager protocol".text)).error
  | _ => Action.ensuring (body f) f.close

end File

/-- Where a part of a filesystem is, `F` being the type of filesystems there are already. -/
inductive Place (F : Type) where
  | memory (view : Memory.View)
  | host (mount : Host.Mount)
  /-- A filesystem that is there already. -/
  | given (fs : F)

/-- What can be done with a filesystem. -/
structure Members (F : Type) where
  openFile? : Option (Text → Action File) := none
  list? : Option (Text → Action (List Info)) := none
  read? : Option (Text → Action Bytes) := none
  glob? : Option (Text → Action (List Text)) := none
  stat? : Option (Text → Action Info) := none
  sub? : Option (Text → World → Except Error (Place F) × World) := none
  mkdirAll? : Option (Text → Int → Action Unit) := none
  create? : Option (Text → Int → Action File) := none
  write? : Option (Text → Bytes → Int → Action Int) := none
  remove? : Option (Text → Action Unit) := none
  removeAll? : Option (Text → Action Unit) := none

namespace Members

variable {F : Type}

def canOpen (m : Members F) : Bool := m.openFile?.isSome

def canList (m : Members F) : Bool := m.canOpen && m.list?.isSome

def canRead (m : Members F) : Bool := m.canOpen && m.read?.isSome

def canGlob (m : Members F) : Bool := m.canOpen && m.glob?.isSome

def canStat (m : Members F) : Bool := m.canOpen && m.stat?.isSome

def canSub (m : Members F) : Bool := m.canOpen && m.sub?.isSome

/-- It can make directories and write files. -/
def canWrite (m : Members F) : Bool :=
  m.canOpen && m.mkdirAll?.isSome && m.create?.isSome && m.write?.isSome

/-- It can take out files and trees. -/
def canRemove (m : Members F) : Bool := m.canOpen && m.remove?.isSome && m.removeAll?.isSome

end Members

/-- What sort of filesystem it is. -/
inductive FilesystemKind where
  | memory (view : Memory.View)
  /-- A directory of the host, and the record its calls go to. -/
  | host (record : Nat)
  /-- A filesystem that only opens. -/
  | opener
  /-- A filesystem made of functions, which has every member. -/
  | delegate
  /-- No filesystem at all, but an object of a named sort. -/
  | bare (name : String)
  deriving DecidableEq, Repr

/-- The name of a sort of filesystems. -/
def FilesystemKind.name : FilesystemKind → String
  | .memory _ => "MemFS"
  | .host _ => "OSFS"
  | .opener => "OpenFSDelegator"
  | .delegate => "FSDelegator"
  | .bare name => name

/-- A filesystem. -/
structure Filesystem where
  id : Nat
  kind : FilesystemKind
  members : Members Filesystem

/-- The sets of things that can be done with a filesystem. -/
inductive Capability where
  | read
  | write
  | remove
  deriving DecidableEq, Repr

/-- What can be done with a filesystem, in sets. -/
def Filesystem.capabilities (fs : Filesystem) : List Capability :=
  (if fs.members.canOpen then [.read] else []) ++
    (if fs.members.canWrite then [.write] else []) ++
    if fs.members.canRemove then [.remove] else []

end Vfs
