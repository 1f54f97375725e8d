/-!
# Code points

A code point is a character or one of the surrogates, which stand for no character. Code points are
ordered by their numbers.
-/

namespace Vfs

/-- A code point. -/
inductive CodePoint where
  | char (c : Char)
  /-- A surrogate, counted from the first. -/
  | surrogate (offset : Fin 0x800)
  deriving DecidableEq, Repr

namespace CodePoint

/-- The number of the first surrogate. -/
def firstSurrogate : Nat := 0xd800

/-- The number of a code point. -/
def toNat : CodePoint → Nat
  | .char c => c.toNat
  | .surrogate offset => firstSurrogate + offset

instance : LT CodePoint := ⟨fun a b => a.toNat < b.toNat⟩
instance : LE CodePoint := ⟨fun a b => a.toNat ≤ b.toNat⟩

instance (a b : CodePoint) : Decidable (a < b) := inferInstanceAs (Decidable (a.toNat < b.toNat))
instance (a b : CodePoint) : Decidable (a ≤ b) := inferInstanceAs (Decidable (a.toNat ≤ b.toNat))

@[simp] theorem not_lt {a b : CodePoint} : ¬a < b ↔ b ≤ a := Nat.not_lt

/-- No character has the number of a surrogate. -/
theorem toNat_char_ne (c : Char) (offset : Fin 0x800) : c.toNat ≠ firstSurrogate + offset := by
  have bound := offset.isLt
  have valid : c.toNat < 0xd800 ∨ 0xdfff < c.toNat ∧ c.toNat < 0x110000 := c.valid
  rw [firstSurrogate]
  omega

theorem toNat_inj {a b : CodePoint} : a.toNat = b.toNat ↔ a = b := by
  refine ⟨fun same => ?_, congrArg toNat⟩
  cases a with
  | char c =>
    cases b with
    | char d => rw [Char.toNat_inj.1 same]
    | surrogate j => exact absurd same (toNat_char_ne c j)
  | surrogate i =>
    cases b with
    | char d => exact absurd same.symm (toNat_char_ne d i)
    | surrogate j => rw [Fin.ext (Nat.add_left_cancel same)]

instance : Std.IsLinearOrder CodePoint := by
  apply Std.IsLinearOrder.of_le
  case le_antisymm => exact ⟨fun _ _ below above => toNat_inj.1 (Nat.le_antisymm below above)⟩
  case le_trans => exact ⟨Nat.le_trans⟩
  case le_total => exact ⟨fun a b => Nat.le_total a.toNat b.toNat⟩

instance : Std.LawfulOrderLT CodePoint := ⟨fun _ _ => Nat.lt_iff_le_and_not_ge⟩

end CodePoint

end Vfs
