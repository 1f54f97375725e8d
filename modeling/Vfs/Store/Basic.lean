import Vfs.Store.Assoc
import Vfs.Store.Search
import Vfs.Glob.Match
import Vfs.Failure.Fault

/-!
# The store

A store holds values under slash-separated keys. It keeps the keys in a sorted row beside the map
from stamped keys to values, so that everything below a key is one stretch of the row, which begins where
the key with a closing slash would stand. Any text can be a key.
-/

namespace Vfs

/-- Values under keys, and the keys in increasing order. -/
structure Store (α : Type) where
  keys : Array Text := #[]
  values : Assoc (Nat × Text) α := {}
  deriving Repr

namespace Store

variable {α : Type}

/-- A store without keys. -/
def empty : Store α := {}

/-- The value under a key. -/
def get? (s : Store α) (key : Text) : Option α := s.values.get? (stamped key)

/-- There is a value under the key. -/
def contains (s : Store α) (key : Text) : Bool := s.values.contains (stamped key)

/-- The store with `a` under `key`. -/
def put (s : Store α) (key : Text) (a : α) : Store α :=
  let keys :=
    if s.contains key then s.keys
    else s.keys.insertIdxIfInBounds (lowerBound s.keys key) key
  ⟨keys, s.values.insert (stamped key) a⟩

/-- The position of a key in the row. -/
def index? (keys : Array Text) (key : Text) : Option Nat :=
  let i := lowerBound keys key
  if keys[i]? == some key then some i else none

/-- The value under `key`, if it stands in the row, and the store without it. -/
def take (s : Store α) (key : Text) : Option α × Store α :=
  match index? s.keys key with
  | none => (none, s)
  | some i => (s.get? key, ⟨s.keys.eraseIdxIfInBounds i, s.values.erase (stamped key)⟩)

/-- The store without `key`. -/
def remove (s : Store α) (key : Text) : Store α := (s.take key).2

/-- What every key below `above` begins with. -/
def branch (above : Text) : Text :=
  if above.getLast? = some (.char '/') then above else above ++ [.char '/']

/-- The stretch of the row that holds the keys below `above`, from the first bound up to the second.
A key that is its own branch, as the root is, stands at the front of its stretch and is left out. -/
def below (keys : Array Text) (above : Text) : Nat × Nat :=
  let stem := branch above
  let start := lowerBound keys stem
  let first := if keys[start]? == some above then start + 1 else start
  let run := (keys.toList.drop first).takeWhile stem.isPrefixOf
  (first, first + run.length)

/-- The keys below `above`, in order. -/
def keysBelow (keys : Array Text) (above : Text) : List Text :=
  let (first, last) := below keys above
  (keys.extract first last).toList

/-- The store without `key` and every key below it. -/
def removeAll (s : Store α) (key : Text) : Store α :=
  let s := s.remove key
  let (first, last) := below s.keys key
  let gone := (s.keys.extract first last).toList
  ⟨s.keys.extract 0 first ++ s.keys.extract last s.keys.size,
    gone.foldl (fun values k => values.erase (stamped k)) s.values⟩

/-- The keys below a stored key whose remainder behind its branch passes a test, in order. -/
def select (s : Store α) (key : Text) (test : Text → Bool) : List Text :=
  let length := (branch key).length
  match index? s.keys key with
  | none => []
  | some _ => (keysBelow s.keys key).filter fun k => test (k.drop length)

/-- The keys directly below a key that is stored, in order. -/
def children (s : Store α) (key : Text) : List Text := s.select key fun rest => !rest.contains (.char '/')

/-- The keys below a stored key whose remainder matches a pattern, in order. -/
def matching (s : Store α) (key pattern : Text) : Except Fault (List Text) :=
  match Glob.scan pattern with
  | none => .error Fault.badPattern
  | some tokens => .ok (s.select key (Glob.matchTokens tokens))

/-- Keys with their values, in order. -/
def toList (s : Store α) : List (Text × α) :=
  s.keys.toList.filterMap fun k => (s.get? k).map (k, ·)

end Store

end Vfs
