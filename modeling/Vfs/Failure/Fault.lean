import Vfs.Text.Quoted

/-!
# Faults

A `Fault` is what went wrong, before anything says where. Faults of the host carry a number and a
text; other faults, and host faults raised without a number, carry a message only. The sentinel
faults are the ones the library raises itself.
-/

namespace Vfs

/-- The class of a fault. -/
inductive FaultKind where
  /-- A host error of no particular class. -/
  | system
  | notFound
  | alreadyExists
  | notDirectory
  | isDirectory
  | permission
  /-- A handle cannot do what is asked; a host error and a bad value at once. -/
  | unsupported
  | notImplemented
  | badValue
  | badPattern
  | overflow
  | endOfFile
  | assertion
  /-- Another class of host errors. -/
  | otherSystem (name : Text)
  /-- Another class of faults. -/
  | other (name : Text)
  deriving DecidableEq, Repr

/-- The name of a class of faults. -/
def FaultKind.name : FaultKind → Text
  | .system => "OSError".text
  | .notFound => "FileNotFoundError".text
  | .alreadyExists => "FileExistsError".text
  | .notDirectory => "NotADirectoryError".text
  | .isDirectory => "IsADirectoryError".text
  | .permission => "PermissionError".text
  | .unsupported => "UnsupportedOperation".text
  | .notImplemented => "NotImplementedError".text
  | .badValue => "ValueError".text
  | .badPattern => "PatternError".text
  | .overflow => "OverflowError".text
  | .endOfFile => "EOFError".text
  | .assertion => "AssertionError".text
  | .otherSystem name => name
  | .other name => name

/-- The class belongs to the errors of the host. -/
def FaultKind.isSystem : FaultKind → Bool
  | .system | .notFound | .alreadyExists | .notDirectory | .isDirectory | .permission => true
  | .unsupported | .otherSystem _ => true
  | _ => false

/-- The classes of host errors that have numbers of their own, with those numbers. -/
def FaultKind.numbered : List (FaultKind × List Int) :=
  [(.notFound, [2]), (.permission, [1, 13]), (.alreadyExists, [17]), (.notDirectory, [20]),
    (.isDirectory, [21]), (.otherSystem "BlockingIOError".text, [11, 114, 115]),
    (.otherSystem "BrokenPipeError".text, [32, 108]),
    (.otherSystem "ChildProcessError".text, [10]),
    (.otherSystem "ConnectionAbortedError".text, [103]),
    (.otherSystem "ConnectionRefusedError".text, [111]),
    (.otherSystem "ConnectionResetError".text, [104]),
    (.otherSystem "InterruptedError".text, [4]),
    (.otherSystem "ProcessLookupError".text, [3]), (.otherSystem "TimeoutError".text, [110])]

/-- The class of a host error that is raised by its number alone. -/
def FaultKind.ofNumber (n : Int) : FaultKind :=
  ((FaultKind.numbered.find? fun k => n ∈ k.2).map (·.1)).getD .system

/-- The classes that can be asked for by name. -/
def FaultKind.named : List FaultKind :=
  [.system, .notImplemented, .badValue, .badPattern, .overflow, .endOfFile, .assertion,
    .otherSystem "ConnectionError".text] ++ FaultKind.numbered.map (·.1)

/-- The class of a name. The general class of host errors has two more names; a name that is not known
is a class outside the host's errors. -/
def FaultKind.ofName (name : Text) : FaultKind :=
  if name = "IOError".text ∨ name = "EnvironmentError".text then .system
  else (FaultKind.named.find? fun k => k.name = name).getD (.other name)

/-- What went wrong. -/
structure Fault where
  kind : FaultKind
  /-- Number and text of a host error. -/
  code : Option (Int × Text) := none
  /-- The message of a fault without a number. -/
  detail : Text := []
  deriving DecidableEq, Repr

namespace Fault

/-- A fault as one line. -/
def message (f : Fault) : Text :=
  match f.code with
  | some (n, text) => "[Errno ".text ++ Text.ofInt n ++ "] ".text ++ text
  | none => f.detail

/-- The number of a host error. -/
def number (f : Fault) : Option Int := f.code.map (·.1)

/-- The text of a host error. -/
def text (f : Fault) : Option Text := f.code.map (·.2)

/-- A host error of the class that belongs to its number. -/
def host (n : Int) (text : Text) : Fault := ⟨.ofNumber n, some (n, text), []⟩

/-- A fault that is told by a message only. -/
def plain (kind : FaultKind) (detail : Text) : Fault := ⟨kind, none, detail⟩

/-- The message that a fault of a class tells when it is given a text: the text, or the quoted text if
what is missing is a key. -/
def told (kind : FaultKind) (text : Text) : Text :=
  if kind = .other "KeyError".text ∧ text ≠ [] then Text.quoted text else text

/-- A fault raised on demand: of a class (the general class of host errors if none is named), with
a number and a text, or with a message alone. A host error asked for without a class takes the class
of its number; a fault outside the host's errors shows number and text as a pair. -/
def ofClass (name : Option Text) (number : Option Int) (text message : Text) : Fault :=
  let kind := (name.map FaultKind.ofName).getD .system
  match number with
  | none => plain kind (told kind message)
  | some n =>
    if kind = .system then host n text
    else if kind.isSystem then ⟨kind, some (n, text), []⟩
    else plain kind (.char '(' :: Text.ofInt n ++ ", ".text ++ Text.quoted text ++ [.char ')'])

/-- The number that host errors give to an invalid argument. -/
def invalidNumber : Int := 22

def invalid : Fault := host invalidNumber "invalid argument".text
def notExist : Fault := host 2 "file does not exist".text
def notDir : Fault := host 20 "not a directory".text
def isDir : Fault := host 21 "is a directory".text
def notImplemented : Fault := plain .notImplemented "not implemented".text

/-- A pattern that is no glob pattern. -/
def badPattern : Fault := plain .badPattern "syntax error in pattern".text

/-- A directory handle has nothing left to list. -/
def endOfDirectory : Fault := plain .endOfFile "end of directory".text

/-- A handle that cannot do the named thing. -/
def unsupported (verb : Text) : Fault := plain .unsupported verb

/-- A value that is out of place. -/
def badValue (detail : Text) : Fault := plain .badValue detail

/-- A conformance check that does not hold. -/
def assertion (detail : Text) : Fault := plain .assertion detail

/-- An object of a named sort that has no member of that name. -/
def noMember (sort member : Text) : Fault :=
  plain (.other "AttributeError".text)
    (.char '\x27' :: sort ++ "' object has no attribute '".text ++ member ++ [.char '\x27'])

/-- A tree nested deeper than any that is stored, or content that does not end. -/
def unbounded : Fault :=
  plain (.other "RecursionError".text) "maximum recursion depth exceeded".text

end Fault

end Vfs
