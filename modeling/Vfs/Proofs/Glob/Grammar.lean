import Vfs.Proofs.Glob.Literal

/-!
# The grammar of patterns

Each reader of a pattern takes what the grammar spells and leaves what stands behind it: a character of a
class, its items up to the closing bracket, a token. So a pattern is read as a row of tokens just when the
tokens spell it (`scan_eq_some_iff`). Only an item looks at what stands behind it, for the dash of a range;
in a pattern that is spelled no dash stands there, since no item begins with one (`SpellsItems.head`).
-/

namespace Vfs.Glob
set_option autoImplicit false

variable {c : CodePoint} {r : CodePoint × CodePoint} {rs : List (CodePoint × CodePoint)} {t : Token}
  {ts : List Token} {p q rest : Text}

/-! ## Classes -/

/-- One character of a class is read as it is written, whatever stands behind it. -/
theorem classChar_eq_some_iff : classChar p = some (c, rest) ↔ ∃ q, SpellsChar c q ∧ p = q ++ rest := by
  constructor
  · intro read
    unfold classChar at read
    split at read
    · cases read
    · split at read
      · cases read
      · cases read
        exact ⟨[.char '\\', c], .escaped c, rfl⟩
    · next other =>
      split at read
      · cases read
      · next plain =>
        rw [not_or] at plain
        cases read
        exact ⟨[c], .plain plain.1 plain.2 other, rfl⟩
  · rintro ⟨q, spelled, rfl⟩
    cases spelled with
    | escaped => rfl
    | plain dash bracket backslash =>
      rw [List.singleton_append, classChar, if_neg (not_or.2 ⟨dash, bracket⟩)]
      exact backslash

/-- What is spelled inside a class begins with neither a dash nor a bracket. -/
theorem SpellsChar.head (spelled : SpellsChar c p) : ∃ d more, p = d :: more ∧ d ≠ .char '-' ∧ d ≠ .char ']' := by
  cases spelled with
  | escaped => exact ⟨.char '\\', [c], rfl, by decide, by decide⟩
  | plain dash bracket _ => exact ⟨c, [], rfl, dash, bracket⟩

theorem SpellsItem.head (spelled : SpellsItem r p) : ∃ d more, p = d :: more ∧ d ≠ .char '-' ∧ d ≠ .char ']' := by
  cases spelled with
  | single char => exact char.head
  | range lo _ _ =>
    obtain ⟨d, more, rfl, dash, bracket⟩ := lo.head
    exact ⟨d, _, rfl, dash, bracket⟩

theorem SpellsItems.head (spelled : SpellsItems rs p) : ∃ d more, p = d :: more ∧ d ≠ .char '-' ∧ d ≠ .char ']' := by
  cases spelled with
  | single item => exact item.head
  | cons item _ =>
    obtain ⟨d, more, rfl, dash, bracket⟩ := item.head
    exact ⟨d, _, rfl, dash, bracket⟩

theorem spellsItem_of_classItem (read : classItem p = some (r, rest)) : ∃ q, SpellsItem r q ∧ p = q ++ rest := by
  unfold classItem at read
  split at read
  · cases read
  · next lo more first =>
    obtain ⟨q, low, rfl⟩ := classChar_eq_some_iff.1 first
    split at read
    · cases read
    · next hi more' second =>
      obtain ⟨q', high, rfl⟩ := classChar_eq_some_iff.1 second
      split at read
      · cases read
      · next ordered =>
        cases read
        exact ⟨q ++ .char '-' :: q', .range low high (CodePoint.not_lt.1 ordered), by simp⟩
  · next lo more _ first =>
    obtain ⟨q, char, rfl⟩ := classChar_eq_some_iff.1 first
    cases read
    exact ⟨q, .single char, rfl⟩

/-- An item is read as it is written, unless a dash behind it makes it the start of a range. -/
theorem classItem_append (spelled : SpellsItem r q) (apart : rest.head? ≠ some (.char '-')) :
    classItem (q ++ rest) = some (r, rest) := by
  cases spelled with
  | single char =>
    have read : classChar (q ++ rest) = some (_, rest) := classChar_eq_some_iff.2 ⟨q, char, rfl⟩
    rw [classItem, read]
    split
    · next refused => cases refused
    · next lo more found =>
      cases found
      exact absurd rfl apart
    · next lo more _ found =>
      cases found
      rfl
  | @range lo hi p q low high ordered =>
    have first : classChar ((p ++ .char '-' :: q) ++ rest) = some (lo, .char '-' :: (q ++ rest)) :=
      classChar_eq_some_iff.2 ⟨p, low, by simp⟩
    have second : classChar (q ++ rest) = some (hi, rest) := classChar_eq_some_iff.2 ⟨q, high, rfl⟩
    simp only [classItem, first, second, if_neg (CodePoint.not_lt.2 ordered)]

/-- The items of a class are read up to the bracket that closes it. -/
theorem classItems_eq_some_iff :
    classItems p = some (rs, rest) ↔ ∃ q, SpellsItems rs q ∧ p = q ++ .char ']' :: rest := by
  constructor
  · intro read
    fun_induction classItems p generalizing rs rest with
    | case1 => cases read
    | case2 p r more found =>
      cases read
      obtain ⟨q, item, rfl⟩ := spellsItem_of_classItem found
      exact ⟨q, .single item, rfl⟩
    | case3 p r more _ found ih =>
      obtain ⟨⟨rs', after⟩, later, pair⟩ := Option.map_eq_some_iff.1 read
      cases pair
      obtain ⟨q, item, rfl⟩ := spellsItem_of_classItem found
      obtain ⟨q', items, rfl⟩ := ih later
      exact ⟨q ++ q', .cons item items, (List.append_assoc ..).symm⟩
  · rintro ⟨q, spelled, rfl⟩
    induction spelled with
    | @single r q item =>
      have read : classItem (q ++ .char ']' :: rest) = some (r, .char ']' :: rest) := classItem_append item (by simp)
      rw [classItems]
      split
      · next refused => rw [read] at refused; cases refused
      · next found => rw [read] at found; cases found; rfl
      · next other found => rw [read] at found; cases found; exact absurd rfl (other _)
    | @cons r rs q q' item items ih =>
      obtain ⟨d, more, start, dash, bracket⟩ := items.head
      have read : classItem ((q ++ q') ++ .char ']' :: rest) = some (r, q' ++ .char ']' :: rest) := by
        rw [List.append_assoc]
        exact classItem_append item (by simp [start, dash])
      rw [classItems]
      split
      · next refused => rw [read] at refused; cases refused
      · next found =>
        rw [read, start] at found
        cases found
        exact absurd rfl bracket
      · next found =>
        rw [read] at found
        cases found
        rw [ih]
        rfl

/-! ## Patterns -/

theorem caret_of_ne (plain : p.head? ≠ some (.char '^')) : caret p = (false, p) := by
  unfold caret
  split
  · exact absurd rfl plain
  · rfl

/-- What follows the caret, with the caret put back where there was one. -/
theorem spellsToken_of_classItems (read : classItems (caret p).2 = some (rs, rest)) :
    ∃ q, SpellsToken (.oneOf (caret p).1 rs) (.char '[' :: q) ∧ p = q ++ rest := by
  obtain ⟨q, items, split⟩ := classItems_eq_some_iff.1 read
  by_cases negated : p.head? = some (.char '^')
  · obtain ⟨inner, rfl⟩ := List.head?_eq_some_iff.1 negated
    obtain rfl : inner = q ++ .char ']' :: rest := split
    exact ⟨.char '^' :: (q ++ [CodePoint.char ']']), .outside items, by simp⟩
  · rw [caret_of_ne negated] at split ⊢
    obtain rfl : p = q ++ .char ']' :: rest := split
    refine ⟨q ++ [CodePoint.char ']'], .inside items fun start => negated ?_, by simp⟩
    obtain ⟨more, rfl⟩ := List.head?_eq_some_iff.1 start
    rfl

/-- A token is read as it is written, and what stands behind it is read as if it stood alone. -/
theorem scan_append (spelled : SpellsToken t p) (q : Text) : scan (p ++ q) = (scan q).map (t :: ·) := by
  cases spelled with
  | star => rw [List.singleton_append, scan]
  | any => rw [List.singleton_append, scan]
  | escaped c => exact scan_escaped c q
  | @plain c star any bracket backslash =>
    exact scan_plain (by simp [isMeta, star, any, bracket, backslash]) q
  | @inside rs p items start =>
    have opened : (.char '[' :: p ++ [.char ']']) ++ q = .char '[' :: (p ++ .char ']' :: q) := by simp
    have caret : caret (p ++ .char ']' :: q) = (false, p ++ .char ']' :: q) := by
      obtain ⟨d, more, rfl, -, -⟩ := items.head
      exact caret_of_ne start
    have read : classItems (Glob.caret (p ++ .char ']' :: q)).2 = some (rs, q) := by
      rw [caret]
      exact classItems_eq_some_iff.2 ⟨p, items, rfl⟩
    rw [opened, scan]
    split
    · next refused => rw [read] at refused; cases refused
    · next found => rw [read] at found; cases found; rw [caret]
  | @outside rs p items =>
    have opened : (.char '[' :: .char '^' :: p ++ [.char ']']) ++ q =
        .char '[' :: .char '^' :: (p ++ .char ']' :: q) := by simp
    have read : classItems (Glob.caret (.char '^' :: (p ++ .char ']' :: q))).2 = some (rs, q) :=
      classItems_eq_some_iff.2 ⟨p, items, rfl⟩
    rw [opened, scan]
    split
    · next refused => rw [read] at refused; cases refused
    · next found => rw [read] at found; cases found; rfl

/-- A pattern is read as a row of tokens just when the tokens spell it. -/
theorem scan_eq_some_iff : scan p = some ts ↔ Spells ts p := by
  constructor
  · intro read
    fun_induction scan p generalizing ts with
    | case1 =>
      cases read
      exact .nil
    | case2 rest ih =>
      obtain ⟨ts, later, rfl⟩ := Option.map_eq_some_iff.1 read
      exact .cons .star (ih later)
    | case3 rest ih =>
      obtain ⟨ts, later, rfl⟩ := Option.map_eq_some_iff.1 read
      exact .cons .any (ih later)
    | case4 => cases read
    | case5 c rest ih =>
      obtain ⟨ts, later, rfl⟩ := Option.map_eq_some_iff.1 read
      exact .cons (.escaped c) (ih later)
    | case6 => cases read
    | case7 inner rs rest found ih =>
      obtain ⟨ts, later, rfl⟩ := Option.map_eq_some_iff.1 read
      obtain ⟨q, spelled, rfl⟩ := spellsToken_of_classItems found
      exact .cons spelled (ih later)
    | case8 c rest star any backslash bracket ih =>
      obtain ⟨ts, later, rfl⟩ := Option.map_eq_some_iff.1 read
      exact .cons (.plain star any bracket backslash) (ih later)
  · intro spelled
    induction spelled with
    | nil => rw [scan]
    | cons token _ ih => rw [scan_append token, ih, Option.map_some]

end Vfs.Glob
