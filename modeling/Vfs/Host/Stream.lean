import Vfs.Host.Tree.Creation
import Vfs.Amount
import Vfs.Entry.Page
import Vfs.Info

/-!
# Streams of a host

A stream is an open file of a host. One that reads takes content from its file in whole blocks and
keeps what was not asked for yet. One that writes keeps what it is given until that is more than a
block or the stream is closed. A sink takes bytes and forgets them.
-/

namespace Vfs.Host

/-- The state of an open file. -/
inductive Stream where
  /-- Takes content from a file; `position` is the first byte not taken, `pending` what was taken
  and not delivered. -/
  | reading (number position : Nat) (pending : Bytes) (closed : Bool)
  /-- Gives content to a file; `position` is the first byte not given, `pending` what was taken and
  not given. -/
  | writing (number position : Nat) (pending : Bytes) (closed : Bool)
  | sink (closed : Bool)
  deriving Repr

/-- The number of bytes in a block. -/
def blockSize : Nat := 4096

namespace Stream

/-- A stream that reads the file with a number from its beginning. -/
def reader (number : Nat) : Stream := .reading number 0 [] false

/-- A stream that writes to the file with a number from its beginning. -/
def writer (number : Nat) : Stream := .writing number 0 [] false

/-- Takes up to `wanted` more bytes from what is left of a file: whole blocks straight away, and one
block more for the rest, of which what is not wanted stays pending. -/
def take (left : Bytes) (wanted : Nat) : Bytes × Bytes :=
  let whole := blockSize * (wanted / blockSize)
  let block := if wanted = whole then [] else (left.drop whole).take blockSize
  (left.take whole ++ block.take (wanted - whole), block.drop (wanted - whole))

/-- Delivers up to `size` bytes of the file with the content `whole`, all that are left if `size` is
-1. -/
def fetch (whole : Bytes) (number position : Nat) (pending : Bytes) (size : Int) :
    Except Fault Bytes × Stream :=
  let left := whole.drop position
  if size < 0 then (.ok (pending ++ left), .reading number (position + left.length) [] false)
  else if size ≤ pending.length then
    (.ok (pending.take size.toNat), .reading number position (pending.drop size.toNat) false)
  else match Amount.reserve size with
    | .error fault => (.error fault, .reading number position pending false)
    | .ok () =>
      let (more, kept) := take left (size.toNat - pending.length)
      (.ok (pending ++ more), .reading number (position + more.length + kept.length) kept false)

/-- Reads from a stream. What is asked for is looked at before the state of the stream. -/
def read (content : Nat → Bytes) (size : Int) : Stream → Except Fault Bytes × Stream
  | .writing number position pending closed =>
    (.error (.unsupported "read".text), .writing number position pending closed)
  | .reading number position pending closed =>
    let same := Stream.reading number position pending closed
    match Amount.check size with
    | .error fault => (.error fault, same)
    | .ok size =>
      if size < -1 then (.error (.badValue "read length must be non-negative or -1".text), same)
      else if closed then (.error (.badValue "read of closed file".text), same)
      else fetch (content number) number position pending size
  | .sink closed =>
    match Amount.check size with
    | .error fault => (.error fault, .sink closed)
    | .ok _ =>
      if closed then (.error (.badValue "I/O operation on closed file.".text), .sink closed)
      else (.ok [], .sink closed)

/-- Takes some bytes for a file. Where they are too many to be pending with the others, those go to
the file first; and where they are more than a block, they follow at once. -/
def give (t : Tree) (number position : Nat) (pending data : Bytes) : Tree × Stream :=
  if pending.length + data.length ≤ blockSize then
    (t, .writing number position (pending ++ data) false)
  else
    let t := t.overwrite number position pending
    let position := position + pending.length
    if data.length ≤ blockSize then (t, .writing number position data false)
    else (t.overwrite number position data, .writing number (position + data.length) [] false)

/-- Takes some bytes and answers their number. -/
def write (t : Tree) (data : Bytes) : Stream → Except Fault Nat × Tree × Stream
  | .reading number position pending closed =>
    (.error (.unsupported "write".text), t, .reading number position pending closed)
  | .writing number position pending true =>
    (.error (.badValue "write to closed file".text), t, .writing number position pending true)
  | .writing number position pending false => (.ok data.length, give t number position pending data)
  | .sink true => (.error (.badValue "I/O operation on closed file.".text), t, .sink true)
  | .sink false => (.ok data.length, t, .sink false)

/-- Closes the stream. What is pending goes to the file. -/
def close (t : Tree) : Stream → Tree × Stream
  | .reading number position pending _ => (t, .reading number position pending true)
  | .writing number position pending false =>
    (t.overwrite number position pending, .writing number (position + pending.length) [] true)
  | .writing number position pending true => (t, .writing number position pending true)
  | .sink _ => (t, .sink true)

end Stream

/-- The state of a handle on a host file or directory, apart from the stream it may have. -/
structure Handle where
  /-- The listing, once it was asked for; closing lets it go. -/
  listing : Option (List Info) := none
  cursor : Nat := 0
  closed : Bool := false
  deriving Repr

namespace Handle

/-- Delivers the next page of the listing. -/
def page (h : Handle) (n : Int) (listing : List Info) : Except Error (List Info) × Handle :=
  let h := { h with listing := some listing }
  match nextPage listing h.cursor n with
  | .error fault => (.error fault.error, h)
  | .ok (page, cursor) => (.ok page, { h with cursor := cursor })

/-- The handle after closing it. -/
def close (h : Handle) : Handle := { h with listing := none, closed := true }

end Handle

end Vfs.Host
