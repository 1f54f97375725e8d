import Vfs.Text.Printable

/-!
# Quoted text

A text is quoted between two equal marks: apostrophes, or double quotes when it holds an apostrophe
and no double quote. The mark itself and the backslash stand behind a backslash, line ends and tabs
have letters, and a character that is not shown as it is has its code point in two, four or eight
hexadecimal digits. Bytes are quoted alike, every byte outside printable ASCII with two digits.
-/

namespace Vfs.Text

/-- A numeral in a base, filled up with zeros on the left. -/
def padded (base width n : Nat) : Text :=
  let digits := (Nat.toDigits base n).map .char
  List.replicate (width - digits.length) (.char '0') ++ digits

/-- An octal numeral with its sign and base. -/
def octal (n : Int) : Text :=
  (if n < 0 then [.char '-'] else []) ++ .char '0' :: .char 'o' :: (Nat.toDigits 8 n.natAbs).map .char

/-- The mark that a text is quoted between. -/
def mark (t : Text) : CodePoint :=
  if t.contains (.char '\x27') && !t.contains (.char '\x22') then .char '\x22' else .char '\x27'

/-- One character between marks. -/
def quotedChar (mark c : CodePoint) : Text :=
  if c = mark ∨ c = .char '\\' then [.char '\\', c]
  else if c = .char '\n' then [.char '\\', .char 'n']
  else if c = .char '\r' then [.char '\\', .char 'r']
  else if c = .char '\t' then [.char '\\', .char 't']
  else if isPrintable c then [c]
  else if c.toNat ≤ 0xff then .char '\\' :: .char 'x' :: padded 16 2 c.toNat
  else if c.toNat ≤ 0xffff then .char '\\' :: .char 'u' :: padded 16 4 c.toNat
  else .char '\\' :: .char 'U' :: padded 16 8 c.toNat

/-- A text between its marks. -/
def quoted (t : Text) : Text :=
  let m := mark t
  m :: t.flatMap (quotedChar m) ++ [m]

/-- One byte between marks. -/
def quotedByte (mark : CodePoint) (b : UInt8) : Text :=
  if b < 0x7f then quotedChar mark (.char (Char.ofNat b.toNat))
  else .char '\\' :: .char 'x' :: padded 16 2 b.toNat

/-- Bytes between their marks, behind a `b`. -/
def quotedBytes (bs : Bytes) : Text :=
  let m := mark (bs.map fun b => .char (Char.ofNat b.toNat))
  .char 'b' :: m :: bs.flatMap (quotedByte m) ++ [m]

/-- Texts between brackets, with a comma and a blank between neighbours. -/
def bracketed (items : List Text) : Text :=
  .char '[' :: List.intercalate [.char ',', .char ' '] items ++ [.char ']']

/-- Quoted texts between brackets. -/
def quotedList (ts : List Text) : Text := bracketed (ts.map quoted)

end Vfs.Text
