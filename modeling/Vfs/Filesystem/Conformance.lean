import Vfs.Filesystem.Dispatch

/-!
# Checking a filesystem

Two scripts that a filesystem must pass. `checkWrites` creates, updates and removes files below a
directory, along with some creations that must fail. `checkFiles` asks about files in every way
there is and compares the answers. The first disagreement is the failure of the check.
-/

namespace Vfs.Filesystem

/-- A check fails. -/
def disagree {α : Type} (detail : Text) : Action α := Action.fail (Fault.assertion detail).error

/-- Does something whose errors of the host count as disagreement. -/
def expecting {α : Type} (label : Text) (body : Action α) : Action α :=
  body.retell fun e => (Fault.assertion (label ++ e.message)).error

/-- What is written to a file, in two parts. -/
def parts : List Bytes := ["hello".toUTF8.toList, ",world".toUTF8.toList]

/-- The files to create, below the directory, and whether that must fail. -/
def writeCases : List (String × Bool) :=
  [("file.txt", false), ("dir/file.txt", false), ("dir", true), ("dir/file.txt/invalid", true),
    ("file.txt/.", true), ("dir/file.txt", false)]

/-- Writes the parts to a new file one after the other and answers the number of bytes. -/
def writeParts (f : File) : List Bytes → Action Int
  | [] => pure 0
  | part :: rest => do
    let n ← f.write part
    return n + (← writeParts f rest)

/-- Fills a new file and reads it back. -/
def checkWritten (fs : Filesystem) (f : File) (name : Text) : Action Unit := do
  let written ← (writeParts f parts).rescue fun e => do
    f.close
    disagree (name ++ ": write: ".text ++ e.message)
  expecting (name ++ ": close: ".text) f.close
  let want := parts.flatten
  if written ≠ want.length then
    disagree (name ++ ": write size got ".text ++ Text.ofInt written ++ "; want ".text ++
      Text.ofNat want.length)
  let got ← fs.withFile name fun r => r.read (-1)
  if got ≠ want then
    disagree (name ++ ": read got ".text ++ Text.quotedBytes got ++ "; want ".text ++
      Text.quotedBytes want)

/-- One file to create, which may have to fail. -/
def checkCreate (fs : Filesystem) (name : Text) (mustFail : Bool) : Action Unit := do
  let created ← Action.rescue (some <$> fs.create name Mode.standard) fun e =>
    if mustFail then pure none else disagree (name ++ ": create_file: ".text ++ e.message)
  match created with
  | none => pure ()
  | some f =>
    if mustFail then do
      f.close
      disagree (name ++ ": create_file raised no error".text)
    else checkWritten fs f name

/-- The filesystem can write and remove below a directory. -/
def checkWrites (fs : Filesystem) (dir : Text) : Action Unit := do
  let below (name : String) : Text := dir ++ .char '/' :: name.text
  writeCases.forM fun (name, mustFail) => checkCreate fs (below name) mustFail
  expecting "file.txt: remove_file: ".text (fs.remove (below "file.txt"))
  expecting "dir: remove_all: ".text (fs.removeAll (below "dir"))

/-- One file is seen alike in every way. -/
def checkFile (fs : Filesystem) (name : Text) : Action Unit := do
  let data ← expecting (name ++ ": open: ".text) (fs.withFile name fun f => f.read (-1))
  if (← fs.read name) ≠ data then
    disagree (name ++ ": read_file disagrees with open+read".text)
  let info ← fs.stat name
  if info.directory then disagree (name ++ ": stat reports a directory".text)
  let info := (← get).refresh info
  if info.size ≠ data.length then
    disagree (name ++ ": stat size ".text ++ Text.ofInt info.size ++ "; want ".text ++
      Text.ofNat data.length)
  let above := Path.parent name
  let listed := (← fs.list above).map Info.name
  if listed ≠ listed.mergeSort Text.le then
    disagree (above ++ ": read_dir not sorted: ".text ++ Text.quotedList listed)
  if Path.lastElement name ∉ listed then
    disagree (above ++ ": read_dir missing ".text ++ Path.lastElement name)
  let found ← fs.glob (Glob.escape name)
  if found ≠ [name] then
    disagree (name ++ ": glob got ".text ++ Text.quotedList found ++ "; want ".text ++
      Text.quotedList [name])

/-- Every file of a list, which must not be empty, is seen alike in every way. -/
def checkFiles (fs : Filesystem) (names : List Text) : Action Unit := do
  if names.isEmpty then disagree "expected at least one file to check".text
  names.forM (checkFile fs)

end Vfs.Filesystem
