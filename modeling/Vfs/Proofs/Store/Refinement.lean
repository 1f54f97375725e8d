import Vfs.Proofs.Store.Contents

/-!
# A store is a plain map

A history of changes is played on an empty store and, beside it, on a plain map from keys to values
that knows no order and no subtrees. `step_refines` is one change, `play_refines` the whole history:
both give the same answers, and the store that is left lists its subtrees and its children as the
keys of the plain map do.
-/

namespace Vfs.Store
set_option autoImplicit false

variable {α : Type}

/-- A change of a store. -/
inductive Change (α : Type) where
  | put (key : Text) (value : α)
  | remove (key : Text)
  | removeAll (above : Text)

/-- What a change of a store answers, and the store after it. -/
def step (s : Store α) : Change α → Option α × Store α
  | .put key a => (some a, s.put key a)
  | .remove key => s.take key
  | .removeAll above => (none, s.removeAll above)

/-- The answers of a history of changes, and the store after it. -/
def play (s : Store α) : List (Change α) → List (Option α) × Store α
  | [] => ([], s)
  | c :: rest => ((s.step c).1 :: (play (s.step c).2 rest).1, (play (s.step c).2 rest).2)

/-- A plain map from keys to values. -/
abbrev PlainMap (α : Type) := Text → Option α

namespace PlainMap

/-- What a change of a plain map answers, and the map after it. -/
def step (m : PlainMap α) : Change α → Option α × PlainMap α
  | .put key a => (some a, fun k => if k = key then some a else m k)
  | .remove key => (m key, fun k => if k = key then none else m k)
  | .removeAll above => (none, fun k => if k = above ∨ branch above <+: k then none else m k)

/-- The answers of a history of changes, and the map after it. -/
def play (m : PlainMap α) : List (Change α) → List (Option α) × PlainMap α
  | [] => ([], m)
  | c :: rest => ((m.step c).1 :: (play (m.step c).2 rest).1, (play (m.step c).2 rest).2)

/-- The keys of a row are just the keys of the map that are below `above` with a remainder that passes. -/
def Lists (m : PlainMap α) (above : Text) (passes : Text → Prop) (row : List Text) : Prop :=
  row.Pairwise (· < ·) ∧
    ∀ k, k ∈ row ↔ (m above).isSome ∧ (m k).isSome ∧ k ≠ above ∧
      ∃ rest, k = branch above ++ rest ∧ passes rest

end PlainMap

/-- A store holds what a plain map holds, its row and its map agree, and it lists what the plain map
does. -/
structure Refines (s : Store α) (m : PlainMap α) : Prop where
  look : ∀ k, s.get? k = m k
  row : s.keys.toList.Pairwise (· < ·)
  stored : ∀ k, k ∈ s.keys.toList ↔ (m k).isSome
  together : (s.values.pairs.map (·.1)).Perm (s.keys.toList.map stamped)
  children : ∀ above, m.Lists above (fun rest => .char '/' ∉ rest) (s.children above)
  malformed : ∀ above pattern, Glob.scan pattern = none →
    s.matching above pattern = .error Fault.badPattern
  matching : ∀ above pattern, Glob.scan pattern ≠ none → ∃ row, s.matching above pattern = .ok row ∧
    m.Lists above (fun rest => Glob.isMatch pattern rest = .ok true) row

theorem lists_select {s : Store α} (sound : s.Sound) {m : PlainMap α} (look : ∀ k, s.get? k = m k)
    (above : Text) {test : Text → Bool} {passes : Text → Prop}
    (decides : ∀ rest, test rest = true ↔ passes rest) :
    m.Lists above passes (s.select above test) := by
  obtain ⟨sorted, members⟩ := select_spec sound above test
  refine ⟨sorted, fun k => ?_⟩
  rw [members, look, look]
  refine and_congr_right fun _ => and_congr_right fun _ => ?_
  constructor
  · rintro ⟨⟨other, rest, rfl⟩, tested⟩
    rw [List.drop_left, decides] at tested
    exact ⟨other, rest, rfl, tested⟩
  · rintro ⟨other, rest, rfl, tested⟩
    refine ⟨⟨other, List.prefix_append ..⟩, ?_⟩
    rw [List.drop_left, decides]
    exact tested

theorem refines_of_look {s : Store α} (sound : s.Sound) {m : PlainMap α} (look : ∀ k, s.get? k = m k) :
    s.Refines m where
  look := look
  row := increasing_iff.1 sound.increasing
  stored := fun k => by rw [sound.agree, look]
  together := sound.perm
  children := fun above => lists_select sound look above fun rest => by simp
  malformed := fun above pattern refused => by simp only [Store.matching, refused]
  matching := by
    intro above pattern accepted
    obtain ⟨tokens, read⟩ := Option.ne_none_iff_exists'.1 accepted
    refine ⟨s.select above (Glob.matchTokens tokens), by simp only [Store.matching, read], ?_⟩
    refine lists_select sound look above fun rest => ?_
    simp only [Glob.isMatch, read, Except.ok.injEq]

theorem step_sound {s : Store α} (sound : s.Sound) (c : Change α) : (s.step c).2.Sound := by
  cases c with
  | put key a => exact sound.put key a
  | remove key => exact sound.remove key
  | removeAll above => exact sound.removeAll above

/-- One change answers the same on a store and on the plain map it holds, and leaves the same. -/
theorem step_refines {s : Store α} (sound : s.Sound) {m : PlainMap α} (look : ∀ k, s.get? k = m k)
    (c : Change α) : (s.step c).1 = (m.step c).1 ∧ ∀ k, (s.step c).2.get? k = (m.step c).2 k := by
  cases c with
  | put key a =>
    refine ⟨rfl, fun k => ?_⟩
    simp only [step, PlainMap.step, get?_put, look]
  | remove key =>
    refine ⟨(fst_take sound key).trans (look key), fun k => ?_⟩
    have left : (s.remove key).get? k = if k = key then none else s.get? k := get?_remove sound key k
    simp only [PlainMap.step, ← look]
    exact left
  | removeAll above =>
    refine ⟨rfl, fun k => ?_⟩
    simp only [step, PlainMap.step, get?_removeAll sound, ← look]
    by_cases same : k = above
    · simp [same]
    · simp [same, Under]

theorem play_sound (changes : List (Change α)) {s : Store α} (sound : s.Sound) :
    (s.play changes).2.Sound := by
  induction changes generalizing s with
  | nil => exact sound
  | cons c rest ih => exact ih (step_sound sound c)

theorem play_look (changes : List (Change α)) {s : Store α} (sound : s.Sound) {m : PlainMap α}
    (look : ∀ k, s.get? k = m k) :
    (s.play changes).1 = (m.play changes).1 ∧ ∀ k, (s.play changes).2.get? k = (m.play changes).2 k := by
  induction changes generalizing s m with
  | nil => exact ⟨rfl, look⟩
  | cons c rest ih =>
    obtain ⟨answer, next⟩ := step_refines sound look c
    obtain ⟨answers, last⟩ := ih (step_sound sound c) next
    refine ⟨?_, last⟩
    simp only [play, PlainMap.play, answer, answers]

/-- **A store is a plain map** that keeps its keys in order, after any history of changes. -/
theorem play_refines (changes : List (Change α)) :
    ((empty : Store α).play changes).1 = (PlainMap.play (fun _ => none) changes).1 ∧
      ((empty : Store α).play changes).2.Refines (PlainMap.play (fun _ => none) changes).2 := by
  obtain ⟨answers, look⟩ := play_look changes sound_empty (m := fun _ => none) fun _ => rfl
  exact ⟨answers, refines_of_look (play_sound changes sound_empty) look⟩

end Vfs.Store
