import Vfs.Host.Tree.Query

/-!
# Making directories and files

Directories are made from the root down, so that those made before a failure stay. A file that is
opened for writing loses its content at once; what is written comes over what it holds by then.
-/

namespace Vfs.Host.Tree

/-- Makes an entry at a free place. -/
def add (t : Tree) (row : List Text) (node : Node) : Except Fault Tree :=
  if t.changeable row then .ok (t.put row node) else .error denied

/-- Makes one directory. -/
def mkdir (t : Tree) (r : Route) (mode : Nat) : Except Fault Unit × Tree :=
  match t.slot r with
  | .error fault => (.error fault, t)
  | .ok .nameless | .ok (.taken _ _) => (.error alreadyExists, t)
  | .ok (.free row) =>
    match t.add row (.directory (Mode.directory ||| (mode &&& 0o1777 &&& unmasked))) with
    | .error fault => (.error fault, t)
    | .ok t => (.ok (), t)

/-- Makes a directory that may be there already. -/
def mkdirOr (t : Tree) (r : Route) (mode : Nat) : Except Fault Unit × Tree :=
  match t.mkdir r mode with
  | (.error fault, t) =>
    if fault.kind.isSystem && t.holdsDirectory r then (.ok (), t) else (.error fault, t)
  | (.ok (), t) => (.ok (), t)

/-- Makes the directory at the end of some steps, given last step first, and the missing ones above
it, which get the standard mode. A last step `.` makes nothing more where those above were missing. -/
def mkdirsUp (mode closing : Nat) : List Step → Tree → Except Fault Unit × Tree
  | [], t => t.mkdirOr ⟨[], closing⟩ mode
  | last :: up, t =>
    let r : Route := ⟨(last :: up).reverse, closing⟩
    if t.holds r.above then t.mkdirOr r mode
    else match mkdirsUp Mode.standard 0 up t with
      | (.ok (), t) => if last.name = Path.here then (.ok (), t) else t.mkdirOr r mode
      | (.error fault, t) =>
        if fault.kind = .alreadyExists then
          if last.name = Path.here then (.ok (), t) else t.mkdirOr r mode
        else (.error fault, t)

/-- Makes a directory and the missing ones above it. -/
def mkdirs (t : Tree) (r : Route) (mode : Nat) : Except Fault Unit × Tree :=
  mkdirsUp mode r.closing r.steps.reverse t

/-- Empties a file for writing, or makes it, and answers its number. -/
def truncate (t : Tree) (r : Route) : Except Fault Nat × Tree :=
  match t.slot r with
  | .error fault => (.error fault, t)
  | .ok .nameless | .ok (.taken _ (.directory _)) => (.error isDirectory, t)
  | .ok (.taken _ (.file number)) =>
    if r.slash then (.error isDirectory, t)
    else (.ok number, { t with contents := t.contents.setIfInBounds number [] })
  | .ok (.free row) =>
    if r.slash then (.error isDirectory, t)
    else match t.add row (.file t.contents.size) with
      | .error fault => (.error fault, t)
      | .ok t => (.ok t.contents.size, { t with contents := t.contents.push [] })

/-- Content with some bytes written over it from a position on. A gap in front of them is filled
with zeros. -/
def patch (content : Bytes) (position : Nat) (data : Bytes) : Bytes :=
  if data = [] then content
  else content.take position ++ List.replicate (position - content.length) 0 ++ data ++
    content.drop (position + data.length)

/-- Writes over a file from a position on. -/
def overwrite (t : Tree) (number position : Nat) (data : Bytes) : Tree :=
  { t with contents := t.contents.setIfInBounds number (patch (t.content number) position data) }

end Vfs.Host.Tree
