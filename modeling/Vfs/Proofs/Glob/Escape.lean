import Vfs.Proofs.Glob.Literal
import Vfs.Proofs.Path.Names

/-!
# Escaped names

A name is escaped character by character, and the slashes stay, so that an escaped path is cut where the path is
(`escape_joined`). It matches the name and nothing else (`matchTokens_escape`), and where nothing in it is
special it is the name itself (`escape_plain`).
-/

namespace Vfs.Glob
set_option autoImplicit false
open Vfs.Path

variable {name : Text} {es : List Text}

theorem escape_append (front back : Text) : escape (front ++ back) = escape front ++ escape back :=
  List.flatMap_append

theorem escape_joined (es : List Text) : escape (joined es) = joined (es.map escape) := by
  induction es with
  | nil => rfl
  | cons e es ih =>
    by_cases last : es = []
    · rw [last]
      rfl
    · have slash (p : Text) : escape (.char '/' :: p) = .char '/' :: escape p := escape_append [.char '/'] p
      rw [joined_cons_of_ne_nil e last, escape_append, slash, ih, List.map_cons,
        joined_cons_of_ne_nil _ (by simpa using last)]

theorem escape_ne_nil (hne : name ≠ []) : escape name ≠ [] := by
  obtain ⟨c, rest, rfl⟩ := List.exists_cons_of_ne_nil hne
  rw [escape, List.flatMap_cons]
  split
  · simp
  · simp

theorem slash_not_mem_escape (plain : .char '/' ∉ name) : .char '/' ∉ escape name := by
  intro member
  obtain ⟨c, inside, written⟩ := List.mem_flatMap.1 member
  have other : .char '/' ≠ c := by
    rintro rfl
    exact plain inside
  split at written
  · simp [other] at written
  · simp [other] at written

/-- The escaped elements of a path are elements of a path again. -/
theorem pieces_escape (pieces : Pieces es) : Pieces (es.map escape) := by
  intro e member
  obtain ⟨e, inside, rfl⟩ := List.mem_map.1 member
  exact ⟨escape_ne_nil (pieces e inside).1, slash_not_mem_escape (pieces e inside).2⟩

theorem scan_escape_all (name : Text) : scan (escape name) = some (name.map Token.literal) := by
  have read := scan_escape name []
  rw [List.append_nil] at read
  rw [read, scan]
  simp

/-- An escaped name matches the name and nothing else. -/
theorem matchTokens_escape (name text : Text) : matchTokens (name.map Token.literal) text = true ↔ text = name := by
  have literals := matchTokens_literals name [] text
  rw [List.append_nil] at literals
  simp [literals, matchTokens]

/-- A name in which nothing has to be escaped. -/
theorem escape_plain (plain : hasMeta (escape name) = false) : escape name = name := by
  induction name with
  | nil => rfl
  | cons c name ih =>
    have first : escape (c :: name) = escape [c] ++ escape name := escape_append [c] name
    rw [first, hasMeta, List.any_append, Bool.or_eq_false_iff] at plain
    have same : escape [c] = [c] := by
      have alone := plain.1
      rw [escape, List.flatMap_singleton] at alone ⊢
      split
      · next special =>
        rw [if_pos special] at alone
        cases alone
      · rfl
    rw [first, ih plain.2, same]
    rfl

end Vfs.Glob
