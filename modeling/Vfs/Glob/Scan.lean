import Vfs.Glob.Token

/-!
# Reading a pattern

`scan` reads a pattern from left to right and gives up on a malformed one: a backslash at the end,
a class that is not closed or has no item, a range that runs backwards, or a bare `-`, `]` or
nothing where a class needs a character. `Spells` is the same grammar as a relation between tokens
and the patterns that spell them.
-/

namespace Vfs.Glob
set_option autoImplicit false

/-- One character inside a class, and the rest of the pattern. -/
def classChar : Text → Option (CodePoint × Text)
  | [] => none
  | .char '\\' :: rest =>
    match rest with
    | [] => none
    | c :: rest => some (c, rest)
  | c :: rest => if c = .char '-' ∨ c = .char ']' then none else some (c, rest)

/-- One item of a class, a character or a range, and the rest of the pattern. -/
def classItem (p : Text) : Option ((CodePoint × CodePoint) × Text) :=
  match classChar p with
  | none => none
  | some (lo, .char '-' :: rest) =>
    match classChar rest with
    | none => none
    | some (hi, rest) => if hi < lo then none else some ((lo, hi), rest)
  | some (lo, rest) => some ((lo, lo), rest)

theorem length_of_classChar {p rest : Text} {c : CodePoint} (h : classChar p = some (c, rest)) :
    rest.length < p.length := by
  unfold classChar at h
  split at h
  · simp at h
  · split at h
    · simp at h
    · simp only [Option.some.injEq, Prod.mk.injEq] at h
      obtain ⟨-, rfl⟩ := h
      simp only [List.length_cons]
      omega
  · split at h
    · simp at h
    · simp only [Option.some.injEq, Prod.mk.injEq] at h
      obtain ⟨-, rfl⟩ := h
      simp

theorem length_of_classItem {p rest : Text} {r : CodePoint × CodePoint} (h : classItem p = some (r, rest)) :
    rest.length < p.length := by
  unfold classItem at h
  split at h
  · simp at h
  · next lo more hlo =>
    have hmore := length_of_classChar hlo
    split at h
    · simp at h
    · next hi more' hhi =>
      have := length_of_classChar hhi
      split at h
      · simp at h
      · simp only [Option.some.injEq, Prod.mk.injEq] at h
        obtain ⟨-, rfl⟩ := h
        simp only [List.length_cons] at hmore
        omega
  · next lo more _ hlo =>
    simp only [Option.some.injEq, Prod.mk.injEq] at h
    obtain ⟨-, rfl⟩ := h
    exact length_of_classChar hlo

/-- The items of a class up to its closing bracket, at least one, and the rest of the pattern. -/
def classItems (p : Text) : Option (List (CodePoint × CodePoint) × Text) :=
  match _found : classItem p with
  | none => none
  | some (r, .char ']' :: rest) => some ([r], rest)
  | some (r, rest) => (classItems rest).map fun (rs, after) => (r :: rs, after)
termination_by p.length
decreasing_by exact length_of_classItem _found

theorem length_of_classItems {p rest : Text} {rs : List (CodePoint × CodePoint)}
    (h : classItems p = some (rs, rest)) : rest.length < p.length := by
  fun_induction classItems p generalizing rs rest with
  | case1 => simp at h
  | case2 p r more hitem =>
    simp only [Option.some.injEq, Prod.mk.injEq] at h
    obtain ⟨-, rfl⟩ := h
    have := length_of_classItem hitem
    simp only [List.length_cons] at this
    omega
  | case3 p r more _ hitem ih =>
    obtain ⟨found, hfound, hpair⟩ := Option.map_eq_some_iff.1 h
    simp only [Prod.mk.injEq] at hpair
    have hshort := length_of_classItem hitem
    have := ih hfound
    rw [hpair.2] at this
    omega

/-- The inside of a class without the caret that negates it, and whether there was one. -/
def caret : Text → Bool × Text
  | .char '^' :: rest => (true, rest)
  | p => (false, p)

theorem length_caret (p : Text) : (caret p).2.length ≤ p.length := by
  unfold caret
  split <;> simp

/-- The tokens of a pattern, or nothing if it is malformed. -/
def scan (p : Text) : Option (List Token) :=
  match p with
  | [] => some []
  | .char '*' :: rest => (scan rest).map (Token.star :: ·)
  | .char '?' :: rest => (scan rest).map (Token.any :: ·)
  | .char '\\' :: rest =>
    match rest with
    | [] => none
    | c :: rest => (scan rest).map (Token.literal c :: ·)
  | .char '[' :: rest =>
    match _found : classItems (caret rest).2 with
    | none => none
    | some (ranges, rest') => (scan rest').map (Token.oneOf (caret rest).1 ranges :: ·)
  | c :: rest => (scan rest).map (Token.literal c :: ·)
termination_by p.length
decreasing_by
  all_goals simp only [List.length_cons]
  all_goals try omega
  have := length_of_classItems _found
  have := length_caret rest
  omega

/-- The two ways to write a character inside a class. -/
inductive SpellsChar : CodePoint → Text → Prop
  | escaped (c : CodePoint) : SpellsChar c [.char '\\', c]
  | plain {c : CodePoint} : c ≠ .char '-' → c ≠ .char ']' → c ≠ .char '\\' → SpellsChar c [c]

/-- The two ways to write an item of a class. -/
inductive SpellsItem : CodePoint × CodePoint → Text → Prop
  | single {c : CodePoint} {p : Text} : SpellsChar c p → SpellsItem (c, c) p
  | range {lo hi : CodePoint} {p q : Text} :
      SpellsChar lo p → SpellsChar hi q → lo ≤ hi → SpellsItem (lo, hi) (p ++ .char '-' :: q)

/-- The items of a class one after the other. -/
inductive SpellsItems : List (CodePoint × CodePoint) → Text → Prop
  | single {r : CodePoint × CodePoint} {p : Text} : SpellsItem r p → SpellsItems [r] p
  | cons {r : CodePoint × CodePoint} {rs : List (CodePoint × CodePoint)} {p q : Text} :
      SpellsItem r p → SpellsItems rs q → SpellsItems (r :: rs) (p ++ q)

/-- The ways to write one token. -/
inductive SpellsToken : Token → Text → Prop
  | star : SpellsToken .star [.char '*']
  | any : SpellsToken .any [.char '?']
  | escaped (c : CodePoint) : SpellsToken (.literal c) [.char '\\', c]
  | plain {c : CodePoint} : c ≠ .char '*' → c ≠ .char '?' → c ≠ .char '[' → c ≠ .char '\\' →
      SpellsToken (.literal c) [c]
  | inside {rs : List (CodePoint × CodePoint)} {p : Text} :
      SpellsItems rs p → p.head? ≠ some (.char '^') → SpellsToken (.oneOf false rs) (.char '[' :: p ++ [.char ']'])
  | outside {rs : List (CodePoint × CodePoint)} {p : Text} :
      SpellsItems rs p → SpellsToken (.oneOf true rs) (.char '[' :: .char '^' :: p ++ [.char ']'])

/-- The patterns that spell a row of tokens. -/
inductive Spells : List Token → Text → Prop
  | nil : Spells [] []
  | cons {t : Token} {ts : List Token} {p q : Text} :
      SpellsToken t p → Spells ts q → Spells (t :: ts) (p ++ q)

end Vfs.Glob
