import Vfs.Failure.Fault
import Vfs.Path.Clean
import Vfs.Text.Encoding

/-!
# Routes

A host does not look at a path as a whole. It takes one step after the other from the root down: the
name of a child, `.` for the directory it stands in, or `..` for the directory above. A `Route` is
those steps, and the slashes that close the path, which ask for a directory. It does not matter how
many slashes stand in one place, but each of them counts where a path is measured; `path_ofPath`
says that nothing is lost. A host is told bytes: names that stand for the same bytes are one name to
it, the one it hands back (`names`).
-/

namespace Vfs.Host

/-- An element of a path that is not empty, as it was given, with the number of slashes in front of
it. -/
structure Step where
  slashes : Nat
  name : Text
  deriving DecidableEq, Repr

/-- A path as a host follows it. -/
structure Route where
  steps : List Step
  /-- The number of slashes that close the path. -/
  closing : Nat := 0
  deriving DecidableEq, Repr

def missing : Fault := .host 2 "No such file or directory".text
def denied : Fault := .host 13 "Permission denied".text
def busy : Fault := .host 16 "Device or resource busy".text
def alreadyExists : Fault := .host 17 "File exists".text
def notDirectory : Fault := .host 20 "Not a directory".text
def isDirectory : Fault := .host 21 "Is a directory".text
def invalidArgument : Fault := .host 22 "Invalid argument".text
def nameTooLong : Fault := .host 36 "File name too long".text
def notEmpty : Fault := .host 39 "Directory not empty".text
def embeddedNull : Fault := .badValue "embedded null byte".text

/-- The refusal of a path with surrogates that stand for nothing. It tells where the first of them is,
and where the surrogates end that it stands among. -/
def unencodable (path : Text) : Fault :=
  let first := (path.takeWhile CodePoint.isEncodable).length
  let run := (path.drop first).takeWhile CodePoint.isSurrogate
  .plain (.other "UnicodeEncodeError".text) <|
    (match run with
      | [c] => "'utf-8' codec can't encode character '\\u".text ++ Text.padded 16 4 c.toNat ++
          "' in position ".text ++ Text.ofNat first
      | _ => "'utf-8' codec can't encode characters in position ".text ++ Text.ofNat first ++
          .char '-' :: Text.ofNat (first + run.length - 1)) ++ ": surrogates not allowed".text

/-- The most bytes an element may have. -/
def longestElement : Nat := 255

/-- The most bytes a path may have. -/
def longestPath : Nat := 4095

namespace Route

/-- The route of some elements of a path, in front of which stand `slashes` slashes. An empty element
is no step; it means one slash more in front of the next. One slash less stands behind the last
element than the elements are counted with. -/
def ofElements (slashes : Nat) : List Text → Route
  | [] => ⟨[], slashes - 1⟩
  | e :: rest =>
    if e = [] then ofElements (slashes + 1) rest
    else
      let r := ofElements 1 rest
      ⟨⟨slashes, e⟩ :: r.steps, r.closing⟩

/-- The route that a path describes. -/
def ofPath (p : Text) : Route := ofElements 0 (Path.elements p)

/-- The names of the steps, as the host hands them back. -/
def names (r : Route) : List Text := r.steps.map fun s => s.name.received

/-- The path closes with a slash. -/
def slash (r : Route) : Bool := r.closing ≠ 0

/-- The route to the directory that the last step is taken in. -/
def above (r : Route) : Route := ⟨r.steps.dropLast, 0⟩

/-- The path that a route describes. -/
def path (r : Route) : Text :=
  (r.steps.flatMap fun s => List.replicate s.slashes (.char '/') ++ s.name) ++
    List.replicate r.closing (.char '/')

/-- The number of bytes of the path. -/
def byteLength (r : Route) : Nat := r.path.byteLength

theorem path_ofElements (slashes : Nat) {es : List Text} (h : es ≠ []) :
    (ofElements slashes es).path = List.replicate slashes (.char '/') ++ Path.joined es := by
  induction es generalizing slashes with
  | nil => exact absurd rfl h
  | cons e rest ih =>
    cases rest with
    | nil =>
      by_cases he : e = []
      · simp [ofElements, he, path, Path.joined]
      · simp [ofElements, he, path, Path.joined]
    | cons f fs =>
      rw [Path.joined_cons_of_ne_nil e (by simp), ofElements]
      by_cases he : e = []
      · rw [if_pos he, ih (slashes + 1) (by simp), List.replicate_succ']
        simp [he]
      · have behind := ih 1 (by simp)
        rw [if_neg he]
        simp only [path, List.flatMap_cons, List.append_assoc] at behind ⊢
        rw [behind]
        rfl

/-- Nothing of a path is lost. -/
theorem path_ofPath (p : Text) : (ofPath p).path = p := by
  rw [ofPath, path_ofElements 0 (Path.elements_ne_nil p), Path.joined_elements]
  rfl

/-- The refusal of a route that a host does not even begin to follow. -/
def check (r : Route) : Except Fault Unit :=
  if !r.path.isEncodable then .error (unencodable r.path)
  else if r.path.contains (.char '\x00') then .error embeddedNull
  else if r.byteLength > longestPath then .error nameTooLong
  else .ok ()

end Route

end Vfs.Host
