import Vfs.Failure.Basic

/-!
# Mode words

A mode word holds the type of an entry and its permission bits. A caller may hand over any integer;
only where a word is looked at must it fit into 32 bits, and `check` says how one that does not is
refused.
-/

namespace Vfs.Mode

/-- The type bits of a directory. -/
def directory : Nat := 0o40000

/-- The type bits of a regular file. -/
def regular : Nat := 0o100000

/-- All type bits. -/
def typeMask : Nat := 0o170000

/-- All permission bits. -/
def permissionMask : Nat := 0o7777

/-- The permission bits where nothing else is asked for. -/
def standard : Nat := 0o777

/-- The word, if it can be looked at. -/
def check (mode : Int) : Except Fault Nat :=
  if mode < 0 then
    .error (.plain .overflow "can't convert negative value to unsigned int".text)
  else if mode < 0x100000000 then .ok mode.toNat
  else if mode < 0x10000000000000000 then .error (.plain .overflow "mode out of range".text)
  else .error (.plain .overflow "Python int too large to convert to C unsigned long".text)

/-- The type bits of a word. -/
def typeBits (word : Nat) : Nat := word &&& typeMask

/-- The permission bits of a word. -/
def permissionBits (word : Nat) : Nat := word &&& permissionMask

/-- The word is one of a directory. -/
def isDirectory (word : Nat) : Bool := typeBits word = directory

/-- The permission bits of a word that can be looked at. -/
def permissions (mode : Int) : Except Fault Nat := (check mode).map permissionBits

end Vfs.Mode
