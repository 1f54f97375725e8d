import Vfs.Text

/-!
# Text as bytes

A host knows names and paths as bytes. A character stands for its bytes in UTF-8. A byte that is part of no
character is read as a surrogate, and such a surrogate stands for its byte again; the other surrogates stand for
nothing, and a host cannot be told a text that holds one. What a host is told it may hand back differently:
surrogates whose bytes make up a character come back as that character.
-/

namespace Vfs
set_option autoImplicit false

namespace CodePoint

/-- The surrogate that a byte is read as. -/
def ofByte (b : UInt8) : CodePoint := .surrogate ⟨0x400 + b.toNat, by have := b.toNat_lt; omega⟩

def isSurrogate : CodePoint → Bool
  | .char _ => false
  | .surrogate _ => true

/-- The code point stands for bytes. -/
def isEncodable : CodePoint → Bool
  | .char _ => true
  | .surrogate offset => 0x480 ≤ offset.val && offset.val < 0x500

/-- The bytes that a code point stands for. -/
def bytes : CodePoint → Bytes
  | .char c => String.utf8EncodeChar c
  | .surrogate offset =>
    if isEncodable (.surrogate offset) then [UInt8.ofNat (offset.val - 0x400)] else []

end CodePoint

namespace Text

/-- A host can be told the text: each of its code points stands for bytes. -/
def isEncodable (t : Text) : Bool := t.all CodePoint.isEncodable

/-- The bytes that a text stands for. -/
def bytes (t : Text) : Bytes := t.flatMap CodePoint.bytes

/-- The number of bytes that a text stands for. -/
def byteLength (t : Text) : Nat := t.bytes.length

/-- The character that some bytes begin with. -/
def firstChar? (bs : Bytes) : Option Char := (bs.take 4).toByteArray.utf8DecodeChar? 0

/-- The text of some bytes behind the first `skip` ones. -/
def decodeFrom : Nat → Bytes → Text
  | _, [] => []
  | skip + 1, _ :: bs => decodeFrom skip bs
  | 0, b :: bs =>
    match firstChar? (b :: bs) with
    | some c => .char c :: decodeFrom (c.utf8Size - 1) bs
    | none => .ofByte b :: decodeFrom 0 bs

/-- The text that some bytes are read as. -/
def decode (bs : Bytes) : Text := decodeFrom 0 bs

/-- A text as a host hands it back. -/
def received (t : Text) : Text := if t.isEncodable then decode t.bytes else t

/-- A host can be told the text and hands it back as it is. -/
def Kept (t : Text) : Prop := t.isEncodable = true ∧ t.received = t

instance (t : Text) : Decidable t.Kept := inferInstanceAs (Decidable (_ ∧ _))

theorem byteLength_append (s t : Text) : byteLength (s ++ t) = byteLength s + byteLength t := by
  rw [byteLength, bytes, List.flatMap_append, List.length_append]
  rfl

end Text

end Vfs
