import Vfs.Failure.Fault

/-!
# Amounts of bytes

A caller may ask for any number of bytes. A reader takes a number that fits into a signed word of 64
bits, and, where it fetches the bytes from elsewhere, one that leaves room for what stands in front
of them in memory.
-/

namespace Vfs.Amount

/-- The largest signed word. -/
def largest : Int := 0x7fffffffffffffff

/-- The bytes that stand in front of the content in memory. -/
def header : Int := 33

/-- The amount, if it fits into a word. -/
def check (n : Int) : Except Fault Int :=
  if n < -largest - 1 ∨ largest < n then
    .error (.plain .overflow "cannot fit 'int' into an index-sized integer".text)
  else .ok n

/-- Sets memory aside for an amount that fits into a word; there is enough of it. -/
def reserve (n : Int) : Except Fault Unit :=
  if largest - header < n then .error (.plain .overflow "byte string is too large".text) else .ok ()

end Vfs.Amount
