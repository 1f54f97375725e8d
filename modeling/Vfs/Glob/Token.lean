import Vfs.Text

/-!
# Tokens of a glob pattern

A pattern is a row of tokens. A token other than `star` stands for exactly one character; `star`
stands for any run of characters without a slash. Only a class can admit a slash, and a newline is a
character like any other. `Fits` says which texts a row of tokens stands for, piece by piece.
-/

namespace Vfs.Glob

/-- One step of a pattern. -/
inductive Token where
  /-- Any characters but slashes, possibly none. -/
  | star
  /-- One character other than a slash. -/
  | any
  /-- The given character. -/
  | literal (c : CodePoint)
  /-- One character inside some range, or outside every range if `negated`. -/
  | oneOf (negated : Bool) (ranges : List (CodePoint × CodePoint))
  deriving DecidableEq, Repr

/-- The character lies in the closed range. -/
def inRange (c : CodePoint) (r : CodePoint × CodePoint) : Bool := decide (r.1 ≤ c) && decide (c ≤ r.2)

/-- The characters that a token admits, one at a time. -/
def Token.admits : Token → CodePoint → Bool
  | .star, c => c ≠ .char '/'
  | .any, c => c ≠ .char '/'
  | .literal d, c => c = d
  | .oneOf negated ranges, c => ranges.any (inRange c) != negated

/-- The piece of text that one token stands for. -/
def Token.Fits (t : Token) (piece : Text) : Prop :=
  match t with
  | .star => .char '/' ∉ piece
  | .any => ∃ c, piece = [c] ∧ c ≠ .char '/'
  | .literal d => piece = [d]
  | .oneOf negated ranges =>
    ∃ c, piece = [c] ∧ ((∃ r ∈ ranges, r.1 ≤ c ∧ c ≤ r.2) ↔ negated = false)

/-- A text is one piece for each token, in order. -/
inductive Fits : List Token → Text → Prop
  | nil : Fits [] []
  | cons {t : Token} {ts : List Token} {piece rest : Text} :
      t.Fits piece → Fits ts rest → Fits (t :: ts) (piece ++ rest)

end Vfs.Glob
