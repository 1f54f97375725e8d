import Vfs.Glob.Scan
import Vfs.Failure.Fault

/-!
# Matching a name

`matchTokens` decides whether a whole text is made of one piece for each token. A `star` tries every
slash-free beginning of what is left, the empty one first.
-/

namespace Vfs.Glob

/-- Some slash-free beginning of the text leaves a rest that `k` accepts. -/
def matchStar (k : Text → Bool) : Text → Bool
  | [] => k []
  | c :: rest => k (c :: rest) || (c ≠ .char '/' && matchStar k rest)

/-- The whole text is one piece for each token. -/
def matchTokens : List Token → Text → Bool
  | [] => fun s => s.isEmpty
  | .star :: ts => matchStar (matchTokens ts)
  | t :: ts => fun s =>
    match s with
    | [] => false
    | c :: rest => t.admits c && matchTokens ts rest

/-- The whole name matches the pattern, which must be well formed. -/
def isMatch (pattern name : Text) : Except Fault Bool :=
  match scan pattern with
  | none => .error Fault.badPattern
  | some tokens => .ok (matchTokens tokens name)

/-- The characters that are not literal outside a class. -/
def isMeta (c : CodePoint) : Bool := c = .char '*' || c = .char '?' || c = .char '[' || c = .char '\\'

/-- The pattern is more than a plain name. -/
def hasMeta (p : Text) : Bool := p.any isMeta

/-- The pattern that matches a name and nothing else: every character that a pattern could read
differently stands behind a backslash. -/
def escape (name : Text) : Text :=
  name.flatMap fun c => if isMeta c || c = .char ']' then [.char '\\', c] else [c]

end Vfs.Glob
