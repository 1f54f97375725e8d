import Vfs.Failure.Fault

/-!
# Failures

A `Failure` is a fault, or an operation on a path that failed because of another failure. The class
of a path failure is read off its immediate cause; the predicates `isNotExist`, `isInvalid` and
`isNotImplemented` look at the innermost fault. Each failure carries a mark of type `ι` that tells
failures apart which are alike; most of the library has no use for it and takes `Error`, whose mark
says nothing.
-/

namespace Vfs

/-- The class of a path failure. -/
inductive PathKind where
  | general
  | invalid
  | notExist
  | notDirectory
  | isDirectory
  | notImplemented
  deriving DecidableEq, Repr

/-- The name of a class of path failures. -/
def PathKind.name : PathKind → Text
  | .general => "PathError".text
  | .invalid => "InvalidPathError".text
  | .notExist => "NotExistError".text
  | .notDirectory => "NotDirError".text
  | .isDirectory => "IsDirError".text
  | .notImplemented => "NotImplementedPathError".text

/-- The class of faults that a class of path failures belongs to as well. -/
def PathKind.faultKind : PathKind → FaultKind
  | .notExist => .notFound
  | .notDirectory => .notDirectory
  | .isDirectory => .isDirectory
  | .general | .invalid | .notImplemented => .system

/-- A fault, or an operation on a path that another failure made fail. -/
inductive Failure (ι : Type) where
  | plain (mark : ι) (fault : Fault)
  | path (mark : ι) (operation target : Text) (cause : Failure ι)
  deriving DecidableEq, Repr

/-- A failure that nothing tells apart from one just like it. -/
abbrev Error := Failure Unit

namespace Failure

variable {ι : Type}

/-- The number that the innermost fault carries. -/
def number : Failure ι → Option Int
  | .plain _ fault => fault.number
  | .path _ _ _ cause => cause.number

/-- The class of a path failure with the given cause. The class of the cause decides first, and only
then its number. -/
def wrapKind : Failure ι → PathKind
  | .plain _ fault =>
    if fault.kind = .notFound then .notExist
    else if fault.kind = .notDirectory then .notDirectory
    else if fault.kind = .isDirectory then .isDirectory
    else if fault.kind = .notImplemented then .notImplemented
    else if fault.number = some Fault.invalidNumber then .invalid
    else .general
  | .path _ _ _ cause =>
    match cause.wrapKind with
    | .notExist => .notExist
    | .notDirectory => .notDirectory
    | .isDirectory => .isDirectory
    | .general | .invalid | .notImplemented =>
      if cause.number = some Fault.invalidNumber then .invalid else .general

/-- The class of a failure among the classes of faults. -/
def kind : Failure ι → FaultKind
  | .plain _ fault => fault.kind
  | .path _ _ _ cause => cause.wrapKind.faultKind

/-- The name of the class of a failure. -/
def name : Failure ι → Text
  | .plain _ fault => fault.kind.name
  | .path _ _ _ cause => cause.wrapKind.name

/-- The failure counts as an error of the host; every path failure does. -/
def isSystem (f : Failure ι) : Bool := f.kind.isSystem

/-- The fault at the bottom. -/
def root : Failure ι → Fault
  | .plain _ fault => fault
  | .path _ _ _ cause => cause.root

/-- Something does not exist. -/
def isNotExist (f : Failure ι) : Bool := f.root.kind = .notFound

/-- An argument is invalid. -/
def isInvalid (f : Failure ι) : Bool := f.root.number = some Fault.invalidNumber

/-- A capability is missing. -/
def isNotImplemented (f : Failure ι) : Bool := f.root.kind = .notImplemented

/-- A path failure as one line, from the text of its cause. -/
def pathMessage (operation target reason : Text) : Text :=
  operation ++ .char ' ' :: target ++ .char ':' :: .char ' ' :: reason

/-- How a path failure tells its cause: by the text that the cause carries, or by the whole message
of the cause where that text is missing or empty. -/
def reason : Failure ι → Text
  | .plain _ fault =>
    match fault.text with
    | some (c :: rest) => c :: rest
    | _ => fault.message
  | .path _ operation target cause =>
    match cause.reason with
    | [] => pathMessage operation target []
    | c :: rest => c :: rest

/-- A failure as one line. -/
def message : Failure ι → Text
  | .plain _ fault => fault.message
  | .path _ operation target cause => pathMessage operation target cause.reason

/-- The fields of a path failure as messages show them. -/
def shown (operation target : Text) (cause : Failure ι) : Text :=
  cause.wrapKind.name ++ "(op=".text ++ Text.quoted operation ++ ", path=".text ++
    Text.quoted target ++ ", err=".text ++ Text.quoted cause.reason ++ [.char ')']

end Failure

/-- A fault as an error. -/
def Fault.error (f : Fault) : Error := .plain () f

/-- An operation on a path that a fault made fail. -/
def Fault.at (f : Fault) (operation target : Text) : Error := .path () operation target f.error

/-- An operation on a path that an error made fail. -/
def Failure.at (e : Error) (operation target : Text) : Error := .path () operation target e

end Vfs
