import Vfs.Failure.Basic

/-!
# Which failures are one and the same

Two path failures are equal when their operations, their paths and their causes are; any other
failure is equal only to itself. The mark of a failure tells it from others: `Mark.sentinel` for the
failures there is one of, and a number for every failure that is built. The key a path failure is
hashed by holds the mark of its cause in place of the cause.
-/

namespace Vfs

/-- The failures that the library shares. -/
inductive Sentinel where
  | invalid
  | notExist
  | notDir
  | isDir
  | notImplemented
  deriving DecidableEq, Repr, Inhabited

/-- The fault that a shared failure stands for. -/
def Sentinel.fault : Sentinel → Fault
  | .invalid => Fault.invalid
  | .notExist => Fault.notExist
  | .notDir => Fault.notDir
  | .isDir => Fault.isDir
  | .notImplemented => Fault.notImplemented

/-- What tells a failure from every other one. -/
inductive Mark where
  | sentinel (s : Sentinel)
  | built (n : Nat)
  deriving DecidableEq, Repr

/-- A plan of a failure: which one to share, or what to build. -/
inductive Plan where
  | sentinel (s : Sentinel)
  | fault (f : Fault)
  | path (operation target : Text) (cause : Plan)
  deriving DecidableEq, Repr, Inhabited

namespace Plan

/-- Builds the planned failure, its marks numbered from `n`; answers the first free number too. -/
def build : Plan → Nat → Failure Mark × Nat
  | .sentinel s, n => (.plain (.sentinel s) s.fault, n)
  | .fault f, n => (.plain (.built n) f, n + 1)
  | .path operation target cause, n =>
    let (inner, n) := cause.build n
    (.path (.built n) operation target inner, n + 1)

/-- The planned failure without marks. -/
def error : Plan → Error
  | .sentinel s => s.fault.error
  | .fault f => f.error
  | .path operation target cause => cause.error.at operation target

end Plan

namespace Failure

variable {ι : Type} [DecidableEq ι]

/-- What tells this failure from others. -/
def identity : Failure ι → ι
  | .plain mark _ => mark
  | .path mark _ _ _ => mark

/-- Two failures count as equal. -/
def same : Failure ι → Failure ι → Bool
  | .plain m _, .plain n _ => m = n
  | .path _ operation target cause, .path _ operation' target' cause' =>
    operation = operation' && target = target' && same cause cause'
  | _, _ => false

/-- What a failure is hashed by: a path failure by its operation, its path and the mark of its
cause, any other failure by its own mark. -/
def hashKey : Failure ι → Option (Text × Text) × ι
  | .plain mark _ => (none, mark)
  | .path _ operation target cause => (some (operation, target), cause.identity)

end Failure

end Vfs
