import Vfs.Path.Elements

/-!
# The shortest equivalent of a path

`clean` shortens a path by its text alone: empty and `.` elements go, `..` cancels the ordinary
element before it, and above the root `..` means the root. The elements kept so far are a stack,
last one first. `Normal` is the shape of the result, said without `clean`.
-/

namespace Vfs.Path

/-- The element that names the directory itself. -/
def here : Text := [.char '.']

/-- The element that names the directory above. -/
def above : Text := [.char '.', .char '.']

/-- A path that starts at the root. -/
def isRooted (p : Text) : Bool := p.head? = some (.char '/')

/-- Adds one element to the stack of elements kept so far. -/
def push (rooted : Bool) (stack : List Text) (e : Text) : List Text :=
  if e = [] ∨ e = here then stack
  else if e ≠ above then e :: stack
  else match stack with
    | [] => if rooted then [] else [above]
    | top :: rest => if top = above then above :: stack else rest

/-- The elements that are left of a list of elements, in order. -/
def reduce (rooted : Bool) (es : List Text) : List Text :=
  (es.foldl (push rooted) []).reverse

/-- Writes elements as a path; no elements at all are the root or the directory itself. -/
def ofReduced (rooted : Bool) (es : List Text) : Text :=
  if rooted then .char '/' :: joined es
  else if es = [] then here
  else joined es

/-- The path without empty, `.` and cancelled elements; the empty path is `.`. -/
def clean (p : Text) : Text :=
  ofReduced (isRooted p) (reduce (isRooted p) (elements p))

/-- The non-empty elements of a list with slashes between them, cleaned; nothing if there are none. -/
def join (es : List Text) : Text :=
  match es.filter (· ≠ []) with
  | [] => []
  | parts => clean (joined parts)

/-- The directory that holds a path, `.` if the path names no directory. -/
def parent (p : Text) : Text := clean (directory p)

/-- The elements of a clean path: none is empty or `.`, none holds a slash, and `..` stands only
at the front of a path that does not start at the root. -/
structure Reduced (rooted : Bool) (es : List Text) : Prop where
  ordinary : ∀ e ∈ es, e ≠ [] ∧ e ≠ here ∧ .char '/' ∉ e
  climbs : ∃ ups names, es = ups ++ names ∧ (∀ e ∈ ups, e = above) ∧ (∀ e ∈ names, e ≠ above) ∧
    (rooted = true → ups = [])

/-- A path written from reduced elements. -/
def Normal (p : Text) : Prop :=
  ∃ rooted es, Reduced rooted es ∧ p = ofReduced rooted es

end Vfs.Path
