import Vfs.Host.Tree.Query

/-!
# Taking entries out

A file goes under its name alone; a directory must be empty, or is emptied first. A host that empties
a directory goes through everything below it, oldest first, and stops at a directory that it may not
list: what it has been through is gone by then, but for the directories that lead there.
-/

namespace Vfs.Host.Tree

/-- Takes out an entry. -/
def drop (t : Tree) (row : List Text) : Except Fault Unit × Tree :=
  if t.changeable row then (.ok (), t.erase row) else (.error denied, t)

/-- Takes out a file. -/
def unlink (t : Tree) (r : Route) : Except Fault Unit × Tree :=
  match t.slot r with
  | .error fault => (.error fault, t)
  | .ok .nameless | .ok (.taken _ (.directory _)) => (.error isDirectory, t)
  | .ok (.free _) => (.error missing, t)
  | .ok (.taken row (.file _)) => if r.slash then (.error notDirectory, t) else t.drop row

/-- Takes out a directory that is empty. -/
def rmdir (t : Tree) (r : Route) : Except Fault Unit × Tree :=
  match t.slot r with
  | .error fault => (.error fault, t)
  | .ok .nameless =>
    (.error (match r.names.getLast? with
      | none => busy
      | some e => if e = Path.here then invalidArgument else notEmpty), t)
  | .ok (.free _) => (.error missing, t)
  | .ok (.taken _ (.file _)) => (.error notDirectory, t)
  | .ok (.taken row (.directory _)) =>
    if (t.names row).isEmpty then t.drop row else (.error notEmpty, t)

/-- Takes out everything below `row`. -/
def emptied (t : Tree) (row : List Text) : Tree :=
  { t with nodes := ⟨t.nodes.pairs.filter fun n => n.1.2 = row || !row.isPrefixOf n.1.2⟩ }

/-- Takes out what is below `row` and comes before `stop`, but for the directories that lead to
`stop`. -/
def emptiedUpTo (t : Tree) (row stop : List Text) : Tree :=
  let gone := ((t.rowsFrom row).takeWhile (· ≠ stop)).filter fun below => !below.isPrefixOf stop
  gone.foldl erase t

/-- Takes out whatever a route leads to: a directory is emptied first, then its route is followed
once more to take it out as well. A directory that may not be listed stops it; one that may not be
changed has nothing in it to be taken out. -/
def removeAll (t : Tree) (r : Route) : Except Fault Unit × Tree :=
  match t.find r with
  | .error _ => (.ok (), t)
  | .ok (_, .file _) => t.unlink r
  | .ok (row, .directory _) =>
    match (t.rowsFrom row).find? t.barred with
    | none => (t.emptied row).rmdir r
    | some stop => (.error denied, t.emptiedUpTo row stop)

end Vfs.Host.Tree
