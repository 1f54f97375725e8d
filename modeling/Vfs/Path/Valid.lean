import Vfs.Path.Clean

/-!
# Names a filesystem accepts

A filesystem is asked about names relative to its root: `.` for the root itself, otherwise elements
with single slashes between them, none of them empty, `.` or `..`.
-/

namespace Vfs.Path

/-- An element that names a child. -/
def isChildName (e : Text) : Bool := e ≠ [] && e ≠ here && e ≠ above

/-- A name that a filesystem accepts. -/
def isValid (name : Text) : Bool :=
  name = here || (elements name).all isChildName

theorem isChildName_iff {e : Text} : isChildName e = true ↔ e ≠ [] ∧ e ≠ here ∧ e ≠ above := by
  simp [isChildName, and_assoc]

theorem isValid_iff {name : Text} :
    isValid name = true ↔ name = here ∨ ∀ e ∈ elements name, e ≠ [] ∧ e ≠ here ∧ e ≠ above := by
  simp [isValid, isChildName_iff, List.all_eq_true]

/-- A child of the directory `dir`, both seen from the same root. -/
def child (dir name : Text) : Text :=
  if dir = here then name else attach dir name

end Vfs.Path
