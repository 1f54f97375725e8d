import Vfs.Filesystem.Dispatch

/-!
# Walking a tree

A walk reaches a path, then, if it is a directory, lists it and walks its children in the order they
are listed. The listing is asked for only after the directory itself was visited, so a visit can
change what is found below. A `Trace` tells what was reached, in order, and how the walk ended; the
first failure ends it.
-/

namespace Vfs

/-- What a walk did: each path it reached with what was said of it then, and how it ended. -/
structure Trace where
  visited : List (Text × Info) := []
  outcome : Except Error Unit := .ok ()

namespace Trace

/-- A walk that came to nothing but an error. -/
def failed (e : Error) : Trace := ⟨[], .error e⟩

/-- The trace of one step more, which comes first. -/
def cons (path : Text) (info : Info) (t : Trace) : Trace := ⟨(path, info) :: t.visited, t.outcome⟩

/-- Walks one after the other, up to the first that fails. -/
def sequence {α : Type} (walk : α → StateM World Trace) : List α → StateM World Trace
  | [] => pure {}
  | a :: rest => do
    let t ← walk a
    match t.outcome with
    | .error _ => return t
    | .ok () =>
      let t' ← sequence walk rest
      return ⟨t.visited ++ t'.visited, t'.outcome⟩

end Trace

namespace Filesystem

/-- Walks the tree at a path down to `depth` levels and visits what it reaches. -/
def walkTree (fs : Filesystem) (visit : Text → Info → Action Unit) :
    Nat → Text → Info → StateM World Trace
  | 0, _, _ => pure (.failed Fault.unbounded.error)
  | depth + 1, path, info => do
    let shown := (← get).refresh info
    match ← (visit path info).run with
    | .error e => return .cons path shown (.failed e)
    | .ok () =>
      if info.directory then
        match ← (fs.list path).run with
        | .error e => return .cons path shown (.failed e)
        | .ok children =>
          let t ← Trace.sequence
            (fun child => fs.walkTree visit depth (Path.child path child.name) child) children
          return .cons path shown t
      else return .cons path shown {}

/-- The levels to spare for trees that are not stored but answered by functions, and for those that
grow while they are walked. -/
def spareLevels : Nat := 980

/-- Walks the tree at `root` and visits what it reaches, down to `spareLevels` more than anything
stored is nested. -/
def walkWith (fs : Filesystem) (visit : Text → Info → Action Unit) (root : Text) :
    StateM World Trace := do
  match ← (fs.stat root).run with
  | .error e => return .failed e
  | .ok info => fs.walkTree visit (spareLevels + (← get).nesting) root info

/-- Walks the tree at `root`. -/
def walk (fs : Filesystem) (root : Text) : StateM World Trace :=
  fs.walkWith (fun _ _ => pure ()) root

end Filesystem

end Vfs
