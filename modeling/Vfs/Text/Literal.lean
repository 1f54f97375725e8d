import Vfs.Text.Quoted

/-!
# Literals

A setting can be given any plain value. `Literal` is such a value; `Literal.render` is how messages
show it, and `Literal.isTrue` says which values count as given.
-/

namespace Vfs

/-- A plain value. -/
inductive Literal where
  | nothing
  | flag (b : Bool)
  | whole (n : Int)
  /-- A number with a fraction, as it is written. -/
  | decimal (written : Text)
  | text (t : Text)
  | list (items : List Literal)
  | table (entries : List (Text × Literal))
  deriving Inhabited

namespace Literal

mutual

/-- A value as messages show it. -/
def render : Literal → Text
  | .nothing => "None".text
  | .flag true => "True".text
  | .flag false => "False".text
  | .whole n => Text.ofInt n
  | .decimal written => written
  | .text t => Text.quoted t
  | .list items => Text.bracketed (renderAll items)
  | .table entries => .char '\x7b' :: List.intercalate [.char ',', .char ' '] (renderEntries entries) ++ [.char '\x7d']

/-- Every value of a list as messages show it. -/
def renderAll : List Literal → List Text
  | [] => []
  | v :: rest => render v :: renderAll rest

/-- Every entry of a table as messages show it. -/
def renderEntries : List (Text × Literal) → List Text
  | [] => []
  | (key, v) :: rest => (Text.quoted key ++ .char ':' :: .char ' ' :: render v) :: renderEntries rest

end

/-- A value as part of a sentence: a text stands there as it is. -/
def shown : Literal → Text
  | .text t => t
  | value => value.render

/-- The value counts as given: it is neither nothing, nor false, zero or empty. -/
def isTrue : Literal → Bool
  | .nothing => false
  | .flag b => b
  | .whole n => n ≠ 0
  | .decimal written => written.any fun c => .char '1' ≤ c && c ≤ .char '9'
  | .text t => t ≠ []
  | .list items => !items.isEmpty
  | .table entries => !entries.isEmpty

end Literal

end Vfs
