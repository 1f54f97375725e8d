import Vfs.Host.Tree.Basic

/-!
# Asking a host

Questions about what is at the end of a route, and everything below a directory in the order in which
a host goes through it. Nothing here changes the tree.
-/

namespace Vfs.Host

namespace Tree

/-- There is something at the end of the route. -/
def holds (t : Tree) (r : Route) : Bool :=
  match t.find r with
  | .ok _ => true
  | .error _ => false

/-- There is a directory at the end of the route. -/
def holdsDirectory (t : Tree) (r : Route) : Bool :=
  match t.find r with
  | .ok (_, .directory _) => true
  | _ => false

/-- The number of the file at the end of a route. -/
def fileNumber (t : Tree) (r : Route) : Except Fault Nat :=
  match t.find r with
  | .error fault => .error fault
  | .ok (_, .file number) => .ok number
  | .ok (_, .directory word) =>
    if t.allows .listing word then .error isDirectory else .error denied

/-- Mode word and size of what stands at the end of a route. -/
def stat (t : Tree) (r : Route) : Except Fault (Nat × Nat) :=
  match t.find r with
  | .error fault => .error fault
  | .ok (_, .directory word) => .ok (word, 0)
  | .ok (_, .file number) => .ok (standardFile, (t.content number).length)

/-- The names in a directory, in increasing order. -/
def list (t : Tree) (r : Route) : Except Fault (List Text) :=
  match t.find r with
  | .error fault => .error fault
  | .ok (_, .file _) => .error notDirectory
  | .ok (row, .directory word) =>
    if t.allows .listing word then .ok ((t.names row).mergeSort Text.le) else .error denied

/-- No row of names is longer. -/
def depth (t : Tree) : Nat := (t.rows.map fun n => n.1.length).foldl max 0

/-- The rows down to `levels` levels below a directory: each directory before what is in it, what is
in one directory by age, the oldest first. -/
def rowsWithin (t : Tree) : Nat → List Text → List (List Text)
  | 0, _ => []
  | levels + 1, row =>
    (t.names row).reverse.flatMap fun e => (row ++ [e]) :: t.rowsWithin levels (row ++ [e])

/-- A directory and everything below it, in the order in which a host goes through it. -/
def rowsFrom (t : Tree) (row : List Text) : List (List Text) := row :: t.rowsWithin t.depth row

end Tree

end Vfs.Host
