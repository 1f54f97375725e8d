import Vfs.Proofs.Glob.Grammar

/-!
# The language of a pattern

The matcher accepts the texts that are made of one piece for each token (`matchTokens_iff_fits`): a star is
tried on every beginning without a slash, and every other token stands for one character. With the grammar
this says what a pattern means, in `isMatch_language`.
-/

namespace Vfs.Glob
set_option autoImplicit false

variable {t : Token} {ts : List Token} {s : Text}

/-- A star is tried on every beginning without a slash. -/
theorem matchStar_iff {k : Text → Bool} :
    matchStar k s = true ↔ ∃ piece rest, .char '/' ∉ piece ∧ k rest = true ∧ s = piece ++ rest := by
  induction s with
  | nil =>
    constructor
    · intro passes
      exact ⟨[], [], by simp, passes, rfl⟩
    · rintro ⟨piece, rest, -, passes, split⟩
      obtain ⟨rfl, rfl⟩ := List.append_eq_nil_iff.1 split.symm
      exact passes
  | cons c s ih =>
    rw [matchStar, Bool.or_eq_true, Bool.and_eq_true, decide_eq_true_eq, ih]
    constructor
    · rintro (passes | ⟨plain, piece, rest, free, passes, rfl⟩)
      · exact ⟨[], c :: s, by simp, passes, rfl⟩
      · exact ⟨c :: piece, rest, by simp [free, Ne.symm plain], passes, rfl⟩
    · rintro ⟨piece, rest, free, passes, split⟩
      cases piece with
      | nil =>
        left
        rw [split]
        exact passes
      | cons d piece =>
        obtain ⟨rfl, rfl⟩ := List.cons.inj split
        rw [List.mem_cons, not_or] at free
        exact .inr ⟨Ne.symm free.1, piece, rest, free.2, passes, rfl⟩

/-- A token other than a star stands for one character, one that it admits. -/
theorem fits_iff_admits (single : t ≠ .star) {piece : Text} :
    t.Fits piece ↔ ∃ c, t.admits c = true ∧ piece = [c] := by
  cases t with
  | star => exact absurd rfl single
  | any => simp [Token.Fits, Token.admits, and_comm]
  | literal d => simp [Token.Fits, Token.admits]
  | oneOf negated ranges =>
    have inside (c : CodePoint) : ranges.any (inRange c) = true ↔ ∃ r ∈ ranges, r.1 ≤ c ∧ c ≤ r.2 := by
      simp [inRange]
    constructor
    · rintro ⟨c, rfl, admitted⟩
      rw [← inside] at admitted
      refine ⟨c, ?_, rfl⟩
      cases negated with
      | false => simpa [Token.admits] using admitted
      | true => simpa [Token.admits] using admitted
    · rintro ⟨c, admitted, rfl⟩
      refine ⟨c, rfl, ?_⟩
      rw [← inside]
      cases negated with
      | false => simpa [Token.admits] using admitted
      | true => simpa [Token.admits] using admitted

theorem fits_nil_iff : Fits [] s ↔ s = [] := by
  constructor
  · intro fits
    cases fits
    rfl
  · rintro rfl
    exact .nil

theorem fits_cons_iff : Fits (t :: ts) s ↔ ∃ piece rest, t.Fits piece ∧ Fits ts rest ∧ s = piece ++ rest := by
  constructor
  · intro fits
    cases fits with
    | cons first rest => exact ⟨_, _, first, rest, rfl⟩
  · rintro ⟨piece, rest, first, later, rfl⟩
    exact .cons first later

theorem matchTokens_single (single : t ≠ .star) :
    matchTokens (t :: ts) s = true ↔ ∃ c rest, t.admits c = true ∧ matchTokens ts rest = true ∧ s = c :: rest := by
  rw [matchTokens]
  · cases s with
    | nil => simp
    | cons c rest => simp
  · exact single

/-- The matcher accepts just the texts that are made of one piece for each token. -/
theorem matchTokens_iff_fits : matchTokens ts s = true ↔ Fits ts s := by
  induction ts generalizing s with
  | nil => rw [matchTokens, List.isEmpty_iff, fits_nil_iff]
  | cons t ts ih =>
    rw [fits_cons_iff]
    by_cases star : t = .star
    · subst star
      rw [matchTokens, matchStar_iff]
      simp only [ih, Token.Fits]
    · rw [matchTokens_single star]
      constructor
      · rintro ⟨c, rest, admitted, passes, rfl⟩
        exact ⟨[c], rest, (fits_iff_admits star).2 ⟨c, admitted, rfl⟩, ih.1 passes, rfl⟩
      · rintro ⟨piece, rest, first, later, rfl⟩
        obtain ⟨c, admitted, rfl⟩ := (fits_iff_admits star).1 first
        exact ⟨c, rest, admitted, ih.2 later, rfl⟩

/-- **The language of patterns.** A pattern is refused just when the grammar does not spell it. One that is
spelled matches the texts that are made of one piece for each of its tokens, and no others. -/
theorem isMatch_language (p s : Text) :
    (isMatch p s = .error Fault.badPattern ↔ ¬∃ ts, Spells ts p) ∧
      ∀ ts, Spells ts p → ∃ matched, isMatch p s = .ok matched ∧ (matched = true ↔ Fits ts s) := by
  constructor
  · simp only [← scan_eq_some_iff]
    cases read : scan p with
    | none => simp [isMatch, read]
    | some ts => simp [isMatch, read]
  · intro ts spelled
    refine ⟨matchTokens ts s, ?_, matchTokens_iff_fits⟩
    rw [isMatch, scan_eq_some_iff.2 spelled]

end Vfs.Glob
