import Vfs.Glob.Match

/-!
# Patterns that begin with a plain name

An escaped name is read as one literal for each of its characters (`scan_escape`), whatever stands behind
it, and literals match the name and nothing else (`matchTokens_literals`).
-/

namespace Vfs.Glob
set_option autoImplicit false

/-- A character that no pattern reads differently is a literal. -/
theorem scan_plain {c : CodePoint} (plain : isMeta c = false) (rest : Text) :
    scan (c :: rest) = (scan rest).map (Token.literal c :: ·) := by
  have others : c ≠ .char '*' ∧ c ≠ .char '?' ∧ c ≠ .char '[' ∧ c ≠ .char '\\' := by
    simpa [isMeta, and_assoc] using plain
  rw [scan]
  · exact others.1
  · exact others.2.1
  · exact others.2.2.2
  · exact others.2.2.1

theorem scan_escaped (c : CodePoint) (rest : Text) :
    scan (.char '\\' :: c :: rest) = (scan rest).map (Token.literal c :: ·) := by
  rw [scan]

theorem scan_escape (name rest : Text) :
    scan (escape name ++ rest) = (scan rest).map (name.map Token.literal ++ ·) := by
  induction name with
  | nil => simp [escape]
  | cons c name ih =>
    have first : scan (escape (c :: name) ++ rest) =
        (scan (escape name ++ rest)).map (Token.literal c :: ·) := by
      rw [escape, List.flatMap_cons]
      split
      · exact scan_escaped c _
      · next plain =>
        have plain : isMeta c = false := by
          simp only [Bool.or_eq_true, not_or, Bool.not_eq_true] at plain
          exact plain.1
        exact scan_plain plain _
    rw [first, ih, Option.map_map]
    rfl

/-- Literals match a text that begins with their characters, if the other tokens match the rest. -/
theorem matchTokens_literals (name : Text) (tokens : List Token) (text : Text) :
    matchTokens (name.map Token.literal ++ tokens) text = true ↔
      ∃ rest, text = name ++ rest ∧ matchTokens tokens rest = true := by
  induction name generalizing text with
  | nil => simp
  | cons c name ih =>
    cases text with
    | nil => simp [matchTokens]
    | cons d text =>
      have step : matchTokens ((c :: name).map Token.literal ++ tokens) (d :: text) = true ↔
          d = c ∧ matchTokens (name.map Token.literal ++ tokens) text = true := by
        simp [matchTokens, Token.admits]
      rw [step, ih]
      constructor
      · rintro ⟨rfl, rest, rfl, passes⟩
        exact ⟨rest, rfl, passes⟩
      · rintro ⟨rest, split, passes⟩
        obtain ⟨rfl, rfl⟩ := List.cons.inj split
        exact ⟨rfl, rest, rfl, passes⟩

end Vfs.Glob
