import Vfs.Text

/-!
# Calls to a host

The changes a filesystem asks its host for, as a record of them is kept.
-/

namespace Vfs.Host

/-- A change of the host. -/
inductive Verb where
  | create
  | mkdirAll
  | remove
  | removeAll
  deriving DecidableEq, Repr

/-- One call: the change, the host path, and the mode if directories are made. -/
structure Call where
  verb : Verb
  path : Text
  mode : Option Nat := none
  deriving DecidableEq, Repr

end Vfs.Host
