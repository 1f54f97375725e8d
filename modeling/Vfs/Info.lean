import Vfs.Entry.Basic

/-!
# What a filesystem says about an entry

An `Info` is the answer to a question about one entry, alone or in a listing. Its `Origin` says
which object it is: an entry of a volume stays one object while it is stored, so that asking twice
answers with the same origin, while every statement of a host is an object of its own.
-/

namespace Vfs

/-- Which object an answer is. -/
inductive Origin where
  /-- The entry stored in a volume under a key, after `generation` others under the same key. -/
  | stored (volume : Nat) (key : Text) (generation : Nat)
  /-- An object made for this answer. -/
  | made (id : Nat)
  deriving DecidableEq, Repr

/-- What a filesystem says about an entry. -/
structure Info where
  name : Text
  size : Int
  mode : Nat
  directory : Bool
  origin : Origin
  deriving DecidableEq, Repr

/-- What an entry says about itself. -/
def Entry.info (e : Entry) (origin : Origin) : Info := ⟨e.name, e.size, e.mode, e.directory, origin⟩

/-- What a host says about an entry. -/
def HostStat.info (s : HostStat) (id : Nat) : Info :=
  ⟨s.name, s.size, s.mode, Mode.isDirectory s.mode, .made id⟩

end Vfs
