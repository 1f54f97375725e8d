import Vfs.Host.Route
import Vfs.Store.Assoc
import Vfs.Entry.Basic

/-!
# The tree of a host

A host keeps directories and files, each under the row of names that leads to it from the root. A
file has a number, and its content stands under the number, so that whoever has it open keeps it
when the name is gone. There are no links; new entries lose the bits of the host's mask. A directory
can be listed, changed and entered as far as the bits of its owner say so, unless the host asks on
behalf of someone privileged.

`Tree.find` follows a route to its end, and fails where a host does: at the first step out of something
that is no directory, or that may not be entered, or to an element that is too long or missing.
`Tree.slot` stops one step before the end, for an operation that makes an entry or takes one out.
-/

namespace Vfs.Host

/-- What stands under a row of names. -/
inductive Node where
  | directory (mode : Nat)
  | file (number : Nat)
  deriving DecidableEq, Repr

/-- Directories and files. The root itself is always there. -/
structure Tree where
  /-- What stands under each row but the empty one, the newest first. The rows are stamped with their
  lengths. -/
  nodes : Assoc (Nat × List Text) Node := {}
  /-- The content of the file with a number, which outlives its name. -/
  contents : Array Bytes := #[]
  /-- The bits of directories stand in nobody's way. -/
  privileged : Bool := false
  deriving Repr

/-- The bits that new entries may keep. -/
def unmasked : Nat := 0o7755

/-- The mode word of every directory that is made on the way to another. -/
def standardDirectory : Nat := Mode.directory ||| (Mode.standard &&& unmasked)

/-- The mode word of every file. -/
def standardFile : Nat := Mode.regular ||| 0o644

/-- What is done with a directory. -/
inductive Access where
  | listing
  | entering
  /-- Making an entry or taking one out. -/
  | changing
  deriving DecidableEq, Repr

/-- The bits that allow it to the owner. -/
def Access.bits : Access → Nat
  | .listing => 0o400
  | .entering => 0o100
  | .changing => 0o300

/-- What an operation that makes an entry or takes one out finds at the end of its route. -/
inductive Slot where
  /-- The route ends in `.` or `..`, or is empty: it leads to a directory but names no entry. -/
  | nameless
  /-- No entry has the name yet. -/
  | free (row : List Text)
  | taken (row : List Text) (node : Node)
  deriving DecidableEq, Repr

namespace Tree

/-- What stands under a row of names. -/
def node? (t : Tree) (row : List Text) : Option Node :=
  if row = [] then some (.directory standardDirectory) else t.nodes.get? (stamped row)

/-- The tree with a node under a row of names. -/
def put (t : Tree) (row : List Text) (node : Node) : Tree :=
  { t with nodes := t.nodes.insert (stamped row) node }

/-- The tree without what stands under a row of names. -/
def erase (t : Tree) (row : List Text) : Tree := { t with nodes := t.nodes.erase (stamped row) }

/-- Every row of names that leads somewhere, and what stands there; the root is left out. -/
def rows (t : Tree) : List (List Text × Node) := t.nodes.pairs.map fun n => (n.1.2, n.2)

/-- The names in the directory `row`, the newest first: the last ones of the rows that go on from it
by one name. -/
def names (t : Tree) (row : List Text) : List Text :=
  let length := row.length + 1
  t.nodes.pairs.filterMap fun n =>
    if n.1.1 = length && row.isPrefixOf n.1.2 then n.1.2.getLast? else none

/-- The content of the file with a number. -/
def content (t : Tree) (number : Nat) : Bytes := t.contents.getD number []

/-- The access is allowed in a directory with this mode word. -/
def allows (t : Tree) (access : Access) (word : Nat) : Bool :=
  t.privileged || word &&& access.bits = access.bits

/-- What stands under `row` is a directory that may not be listed. -/
def barred (t : Tree) (row : List Text) : Bool :=
  match t.node? row with
  | some (.directory word) => !t.allows .listing word
  | _ => false

/-- What stands under `row` is a directory that may be entered. -/
def enter (t : Tree) (row : List Text) : Except Fault Unit :=
  match t.node? row with
  | none => .error missing
  | some (.file _) => .error notDirectory
  | some (.directory word) => if t.allows .entering word then .ok () else .error denied

/-- Takes a step from the directory `row`. Whether it leads to something is seen where the next step
is taken, or at the end of the route. -/
def step (t : Tree) (row : List Text) (e : Text) : Except Fault (List Text) :=
  match t.enter row with
  | .error fault => .error fault
  | .ok () =>
    if e = Path.here then .ok row
    else if e = Path.above then .ok row.dropLast
    else if Text.byteLength e > longestElement then .error nameTooLong
    else .ok (row ++ [e])

/-- Takes one step after the other. -/
def follow (t : Tree) : List Text → List Text → Except Fault (List Text)
  | row, [] => .ok row
  | row, e :: steps =>
    match t.step row e with
    | .error fault => .error fault
    | .ok row => t.follow row steps

/-- Where a route leads, and what stands there. -/
def find (t : Tree) (r : Route) : Except Fault (List Text × Node) :=
  match r.check with
  | .error fault => .error fault
  | .ok () =>
    match t.follow [] r.names with
    | .error fault => .error fault
    | .ok row =>
      match t.node? row with
      | none => .error missing
      | some (.file number) => if r.slash then .error notDirectory else .ok (row, .file number)
      | some (.directory word) => .ok (row, .directory word)

/-- What an operation that makes an entry or takes one out finds at the end of a route. -/
def slot (t : Tree) (r : Route) : Except Fault Slot :=
  match r.check with
  | .error fault => .error fault
  | .ok () =>
    match r.names.getLast? with
    | none => .ok .nameless
    | some e =>
      match t.follow [] r.above.names with
      | .error fault => .error fault
      | .ok row =>
        match t.enter row with
        | .error fault => .error fault
        | .ok () =>
          if e = Path.here ∨ e = Path.above then .ok .nameless
          else if Text.byteLength e > longestElement then .error nameTooLong
          else match t.node? (row ++ [e]) with
            | none => .ok (.free (row ++ [e]))
            | some node => .ok (.taken (row ++ [e]) node)

/-- The directory that holds `row` may be changed. -/
def changeable (t : Tree) (row : List Text) : Bool :=
  match t.node? row.dropLast with
  | some (.directory word) => t.allows .changing word
  | _ => false

end Tree

end Vfs.Host
