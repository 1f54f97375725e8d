import Vfs.Memory.Volume
import Vfs.Amount
import Vfs.Entry.Page

/-!
# Handles of a memory filesystem

A handle opened on a file delivers the content the file had when it was opened. A handle of a file
being created collects what is written to it and hands it to the filesystem when it is closed. A
handle on a directory asks for the listing once and delivers it page by page. Reading and writing
look at whether the handle is closed; listing does not.
-/

namespace Vfs.Memory

/-- The state of a handle. -/
structure Handle where
  view : View
  name : Text
  /-- The mode that collected content is handed over with. -/
  mode : Int
  /-- What is left to read, of a handle opened on a file. -/
  reader : Option Bytes := none
  /-- What was written, of a handle of a file being created. -/
  writer : Option Bytes := none
  /-- Something was written, if only nothing at all. -/
  wrote : Bool := false
  /-- The listing was asked for. -/
  listed : Bool := false
  listing : List Info := []
  cursor : Nat := 0
  closed : Bool := false
  deriving Repr

namespace Handle

/-- A handle on a directory. -/
def ofDirectory (view : View) (name : Text) (mode : Int) : Handle := { view, name, mode }

/-- A handle on a file with the given content. -/
def ofContent (view : View) (name : Text) (mode : Int) (data : Bytes) : Handle :=
  { view, name, mode, reader := some data }

/-- A handle of a file being created. -/
def ofNew (view : View) (name : Text) (mode : Int) : Handle :=
  { view, name, mode, writer := some [] }

/-- The refusal of a closed handle. -/
def closedFault (h : Handle) : Fault :=
  .badValue ("I/O operation on closed file: ".text ++ h.name)

/-- The refusal of a handle that is not made for what is asked: a directory, or a file opened the
other way. -/
def unfit (h : Handle) (operation verb : Text) : Error :=
  match h.reader, h.writer with
  | none, none => Fault.isDir.at operation h.name
  | _, _ => (Fault.unsupported verb).error

/-- Delivers up to `size` bytes, all that are left if `size` is negative. -/
def read (h : Handle) (size : Int) : Except Error Bytes × Handle :=
  if h.closed then (.error h.closedFault.error, h)
  else match h.reader with
    | none => (.error (h.unfit "Read".text "read".text), h)
    | some left =>
      match Amount.check size with
      | .error fault => (.error fault.error, h)
      | .ok size =>
        let n := if size < 0 then left.length else size.toNat
        (.ok (left.take n), { h with reader := some (left.drop n) })

/-- Collects some bytes and answers their number. -/
def write (h : Handle) (data : Bytes) : Except Error Nat × Handle :=
  if h.closed then (.error h.closedFault.error, h)
  else match h.writer with
    | none => (.error (h.unfit "Write".text "write".text), h)
    | some collected =>
      (.ok data.length, { h with writer := some (collected ++ data), wrote := true })

/-- Delivers the next page of the listing. `current` is what the filesystem answers when it is asked
for the listing now. -/
def list (h : Handle) (n : Int) (current : Except Error (List Info)) :
    Except Error (List Info) × Handle :=
  let fetched : Except Error Handle :=
    if h.listed then .ok h
    else current.map fun entries => { h with listed := true, listing := entries }
  match fetched with
  | .error e => (.error e, h)
  | .ok h =>
    match nextPage h.listing h.cursor n with
    | .error fault => (.error fault.error, h)
    | .ok (page, cursor) => (.ok page, { h with cursor := cursor })

/-- What closing hands to the filesystem, if anything. Closing again hands it over again. -/
def commit (h : Handle) : Option Bytes :=
  if h.wrote then some (h.writer.getD []) else none

/-- The handle after closing it; a listing is let go unless something is handed over. -/
def close (h : Handle) : Handle :=
  if h.wrote then { h with closed := true } else { h with closed := true, listing := [] }

end Handle

end Vfs.Memory
