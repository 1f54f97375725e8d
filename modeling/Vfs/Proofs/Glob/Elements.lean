import Mathlib.Data.List.Induction
import Vfs.Proofs.Glob.Language
import Vfs.Proofs.Path.Names

/-!
# Patterns element by element

A pattern that stands behind another is read as if it stood alone (`scan_behind`), and what both match is what
one matches followed by what the other does (`isMatch_append`). A pattern is cut at its slashes like a path,
and as long as no class of an element admits a slash, the path it matches is cut the same way: its last element
matches the last element, and what stands before matches what stands before (`isMatch_snoc`).
-/

namespace Vfs.Glob
set_option autoImplicit false

variable {t : Token} {ts us : List Token} {p q e s : Text} {es : List Text}

/-- A pattern is read behind another as if it stood alone. -/
theorem scan_behind (spelled : Spells ts p) (q : Text) : scan (p ++ q) = (scan q).map (ts ++ ·) := by
  induction spelled with
  | nil => simp
  | cons token _ ih =>
    rw [List.append_assoc, scan_append token, ih, Option.map_map]
    rfl

/-- A row of tokens with another behind it stands for a text of the one and a text of the other. -/
theorem fits_append_iff : Fits (ts ++ us) s ↔ ∃ u v, Fits ts u ∧ Fits us v ∧ s = u ++ v := by
  induction ts generalizing s with
  | nil => simp [fits_nil_iff]
  | cons t ts ih =>
    rw [List.cons_append, fits_cons_iff]
    constructor
    · rintro ⟨piece, rest, first, later, rfl⟩
      obtain ⟨u, v, front, back, rfl⟩ := ih.1 later
      exact ⟨piece ++ u, v, .cons first front, back, (List.append_assoc ..).symm⟩
    · rintro ⟨u, v, front, back, rfl⟩
      obtain ⟨piece, rest, first, later, rfl⟩ := fits_cons_iff.1 front
      exact ⟨piece, rest ++ v, first, ih.2 ⟨rest, v, later, back, rfl⟩, List.append_assoc ..⟩

theorem isMatch_iff : isMatch p s = .ok true ↔ ∃ ts, scan p = some ts ∧ Fits ts s := by
  unfold isMatch
  cases scan p with
  | none => simp
  | some ts => simp [matchTokens_iff_fits]

theorem isMatch_of_scan (read : scan p = some ts) : isMatch p s = .ok true ↔ Fits ts s := by
  simp [isMatch_iff, read]

/-- **Matching is compositional**: two well-formed patterns make one, and it matches what the first matches followed by
what the second does, wherever a text can be cut so. -/
theorem isMatch_append (read : scan p ≠ none) (read' : scan q ≠ none) :
    scan (p ++ q) ≠ none ∧ ∀ s, isMatch (p ++ q) s = .ok true ↔
      ∃ u v, s = u ++ v ∧ isMatch p u = .ok true ∧ isMatch q v = .ok true := by
  obtain ⟨ts, read⟩ := Option.ne_none_iff_exists'.1 read
  obtain ⟨us, read'⟩ := Option.ne_none_iff_exists'.1 read'
  have both : scan (p ++ q) = some (ts ++ us) := by
    rw [scan_behind (scan_eq_some_iff.1 read), read']
    rfl
  refine ⟨Option.ne_none_iff_exists'.2 ⟨_, both⟩, fun s => ?_⟩
  rw [isMatch_of_scan both, fits_append_iff]
  simp only [isMatch_of_scan read, isMatch_of_scan read']
  constructor
  · rintro ⟨u, v, front, back, cut⟩
    exact ⟨u, v, cut, front, back⟩
  · rintro ⟨u, v, cut, front, back⟩
    exact ⟨u, v, front, back, cut⟩

/-- A dash and a bracket behind a class are read as if nothing stood before them. -/
theorem isMatch_append_class : scan "[^a]".text ≠ none ∧ scan "-z]".text ≠ none ∧
    scan "[^a]-z]".text ≠ none ∧ ∀ s, isMatch "[^a]-z]".text s = .ok true ↔
      ∃ u v, s = u ++ v ∧ isMatch "[^a]".text u = .ok true ∧ isMatch "-z]".text v = .ok true := by
  have read : scan "[^a]".text ≠ none := by decide +kernel
  have read' : scan "-z]".text ≠ none := by decide +kernel
  exact ⟨read, read', isMatch_append read read'⟩

/-! ## Elements of a pattern -/

/-- No token of the row stands for a slash. -/
def Slashless (ts : List Token) : Prop := ∀ t ∈ ts, t.admits (.char '/') = false

theorem Slashless.no_slash (slashless : Slashless ts) (fits : Fits ts s) : .char '/' ∉ s := by
  induction fits with
  | nil => exact List.not_mem_nil
  | @cons t ts piece rest first _ ih =>
    rw [List.mem_append, not_or]
    refine ⟨?_, ih fun t' member => slashless t' (List.mem_cons_of_mem t member)⟩
    by_cases star : t = .star
    · subst star
      exact first
    · obtain ⟨c, admitted, rfl⟩ := (fits_iff_admits star).1 first
      intro member
      rw [← List.mem_singleton.1 member, slashless t (List.mem_cons_self ..)] at admitted
      cases admitted

/-- A literal is written with its own character. -/
theorem mem_of_literal {c : CodePoint} (spelled : Spells ts p) (member : Token.literal c ∈ ts) : c ∈ p := by
  induction spelled with
  | nil => exact absurd member List.not_mem_nil
  | cons token _ ih =>
    rw [List.mem_append]
    rcases List.mem_cons.1 member with rfl | later
    · left
      cases token with
      | escaped => simp
      | plain => simp
    · exact .inr (ih later)

/-- An element of a pattern: it names no directory itself, it is well formed on its own, and no class in it
admits a slash. -/
structure IsElement (e : Text) : Prop where
  ne_nil : e ≠ []
  proper : e ≠ Path.here
  read : ∃ ts, scan e = some ts ∧
    ∀ negated ranges, .oneOf negated ranges ∈ ts → (Token.oneOf negated ranges).admits (.char '/') = false

theorem IsElement.slashless (isElement : IsElement e) (plain : .char '/' ∉ e) :
    ∃ ts, scan e = some ts ∧ Slashless ts := by
  obtain ⟨ts, read, classes⟩ := isElement.read
  refine ⟨ts, read, fun t member => ?_⟩
  cases t with
  | star => rfl
  | any => rfl
  | literal c =>
    have other : .char '/' ≠ c := by
      rintro rfl
      exact plain (mem_of_literal (scan_eq_some_iff.1 read) member)
    simpa [Token.admits] using other
  | oneOf negated ranges => exact classes negated ranges member

/-- Only a class may admit a slash, beside a slash itself. -/
theorem isElement_iff : IsElement e ↔
    e ≠ [] ∧ e ≠ Path.here ∧ ∃ ts ∈ scan e, ∀ t ∈ ts, t ≠ .literal (.char '/') → t.admits (.char '/') = false := by
  constructor
  · rintro ⟨hne, proper, ts, read, classes⟩
    refine ⟨hne, proper, ts, read, fun t member other => ?_⟩
    cases t with
    | star => rfl
    | any => rfl
    | literal c => exact decide_eq_false fun same => other (same ▸ rfl)
    | oneOf negated ranges => exact classes negated ranges member
  · rintro ⟨hne, proper, ts, read, each⟩
    exact ⟨hne, proper, ts, read, fun negated ranges member => each _ member (fun same => Token.noConfusion same)⟩

instance : DecidablePred IsElement := fun _ => decidable_of_iff _ isElement_iff.symm

/-- Elements that are well formed on their own make a well-formed pattern. -/
theorem scan_joined_of_each (each : ∀ e ∈ es, scan e ≠ none) : scan (Path.joined es) ≠ none := by
  induction es with
  | nil => simp [Path.joined, scan]
  | cons e es ih =>
    obtain ⟨ts, read⟩ := Option.ne_none_iff_exists'.1 (each e (List.mem_cons_self ..))
    by_cases last : es = []
    · subst last
      simp [Path.joined, read]
    · rw [Path.joined_cons_of_ne_nil e last, scan_behind (scan_eq_some_iff.1 read), scan_plain (by decide)]
      simpa using ih fun e' member => each e' (List.mem_cons_of_mem e member)

theorem scan_joined (each : ∀ e ∈ es, IsElement e) : scan (Path.joined es) ≠ none := by
  refine scan_joined_of_each fun e member => ?_
  obtain ⟨ts, read, -⟩ := (each e member).read
  exact Option.ne_none_iff_exists'.2 ⟨ts, read⟩

/-- What stands behind a slash is well formed if the pattern is and what stands before the slash is. -/
theorem scan_slash_ne_none (read : scan q ≠ none) : scan (q ++ .char '/' :: e) ≠ none ↔ scan e ≠ none := by
  obtain ⟨ts, read⟩ := Option.ne_none_iff_exists'.1 read
  rw [scan_behind (scan_eq_some_iff.1 read), scan_plain (by decide)]
  simp

/-- The last element of a pattern matches what stands behind the last slash. -/
theorem isMatch_snoc (read : scan q ≠ none) (isElement : IsElement e) (plain : .char '/' ∉ e) :
    isMatch (q ++ .char '/' :: e) s = .ok true ↔
      ∃ u v, isMatch q u = .ok true ∧ isMatch e v = .ok true ∧ .char '/' ∉ v ∧ s = u ++ .char '/' :: v := by
  obtain ⟨us, readElement, slashless⟩ := isElement.slashless plain
  obtain ⟨ts, read⟩ := Option.ne_none_iff_exists'.1 read
  have whole : scan (q ++ .char '/' :: e) = some (ts ++ .literal (.char '/') :: us) := by
    rw [scan_behind (scan_eq_some_iff.1 read), scan_plain (by decide), readElement]
    rfl
  rw [isMatch_of_scan whole, fits_append_iff]
  constructor
  · rintro ⟨u, rest, front, back, rfl⟩
    obtain ⟨piece, v, slash, last, rfl⟩ := fits_cons_iff.1 back
    obtain rfl : piece = [.char '/'] := slash
    exact ⟨u, v, (isMatch_of_scan read).2 front, (isMatch_of_scan readElement).2 last, slashless.no_slash last, rfl⟩
  · rintro ⟨u, v, front, last, -, rfl⟩
    have slash : Token.Fits (.literal (.char '/')) [.char '/'] := rfl
    have back := fits_cons_iff.2 ⟨[.char '/'], v, slash, (isMatch_of_scan readElement).1 last, rfl⟩
    exact ⟨u, .char '/' :: v, (isMatch_of_scan read).1 front, back, rfl⟩

/-- What an element matches holds no slash. -/
theorem IsElement.no_slash (isElement : IsElement e) (plain : .char '/' ∉ e) (matched : isMatch e s = .ok true) :
    .char '/' ∉ s := by
  obtain ⟨ts, read, slashless⟩ := isElement.slashless plain
  obtain ⟨us, readAgain, fits⟩ := isMatch_iff.1 matched
  obtain rfl : ts = us := Option.some.inj (read.symm.trans readAgain)
  exact slashless.no_slash fits

/-- What a row of elements matches has as many elements as the row. -/
theorem length_elements (each : ∀ e ∈ es, IsElement e ∧ .char '/' ∉ e) (hne : es ≠ [])
    (matched : isMatch (Path.joined es) s = .ok true) : (Path.elements s).length = es.length := by
  induction es using List.reverseRecOn generalizing s with
  | nil => exact absurd rfl hne
  | append_singleton es e ih =>
    have before : ∀ e ∈ es, IsElement e ∧ .char '/' ∉ e := fun e' member => each e' (List.mem_append_left _ member)
    obtain ⟨isElement, plain⟩ := each e (List.mem_append_right _ (List.mem_singleton_self e))
    by_cases first : es = []
    · subst first
      rw [List.nil_append, Path.joined_singleton] at matched
      rw [Path.elements_of_no_slash (isElement.no_slash plain matched)]
      rfl
    · rw [Path.joined_append (List.cons_ne_nil e []) first, Path.joined_singleton,
        isMatch_snoc (scan_joined fun e' member => (before e' member).1) isElement plain] at matched
      obtain ⟨u, v, front, -, slashless, rfl⟩ := matched
      rw [Path.elements_append, Path.elements_of_no_slash slashless, List.length_append, List.length_append,
        ih before first front]
      rfl

/-! ## Plain names -/

theorem scan_of_plain (plain : hasMeta p = false) : scan p = some (p.map Token.literal) := by
  induction p with
  | nil => rw [scan]; rfl
  | cons c p ih =>
    simp only [hasMeta, List.any_cons, Bool.or_eq_false_iff] at plain
    rw [scan_plain plain.1, ih plain.2]
    rfl

/-- A pattern without special characters matches itself and nothing else. -/
theorem isMatch_plain (plain : hasMeta p = false) : isMatch p s = .ok true ↔ s = p := by
  have literals := matchTokens_literals p [] s
  rw [List.append_nil] at literals
  simp [isMatch, scan_of_plain plain, literals, matchTokens]

end Vfs.Glob
