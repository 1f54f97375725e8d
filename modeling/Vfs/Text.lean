import Vfs.Text.CodePoint

/-!
# Text and bytes

Names, paths, patterns and messages are `Text`, a list of code points, so that every rule on them is
a recursion on a list. File content is `Bytes`. Texts are ordered by code point, first difference
first. `String.text` is the text that a literal in quotes stands for.
-/

namespace Vfs

/-- A sequence of code points. -/
abbrev Text := List CodePoint

end Vfs

/-- The text of a string. -/
def String.text (s : String) : Vfs.Text := s.toList.map .char

namespace Vfs

/-- The content of a file. -/
abbrev Bytes := List UInt8

/-- The sum of some numbers. -/
def total (ns : List Nat) : Nat := ns.foldr (· + ·) 0

theorem total_cons (n : Nat) (ns : List Nat) : total (n :: ns) = n + total ns := rfl

namespace Text

/-- `a` comes before `b` or equals it, by code point. -/
def le (a b : Text) : Bool := !decide (b < a)

/-- Drops every trailing `c`. -/
def dropTrailing (c : CodePoint) (t : Text) : Text := (t.reverse.dropWhile (· = c)).reverse

/-- The decimal numeral of an integer. -/
def ofInt (n : Int) : Text := (toString n).text

/-- The decimal numeral of a natural number. -/
def ofNat (n : Nat) : Text := (Nat.toDigits 10 n).map .char

end Text

end Vfs
