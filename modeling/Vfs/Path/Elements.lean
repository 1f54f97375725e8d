import Vfs.Text

/-!
# Slashes in paths

A path is cut at its slashes into elements and put together again. `elements_joined` and
`joined_elements` say that the two are inverse, as long as no element holds a slash.
-/

namespace Vfs.Path

/-- What stands between the slashes of a path; a path without slashes is one element. -/
def elements : Text → List Text
  | [] => [[]]
  | c :: rest =>
    if c = .char '/' then [] :: elements rest
    else match elements rest with
      | [] => [[c]]
      | e :: es => (c :: e) :: es

/-- Elements with one slash between neighbours. -/
def joined : List Text → Text
  | [] => []
  | [e] => e
  | e :: es => e ++ .char '/' :: joined es

theorem elements_ne_nil (p : Text) : elements p ≠ [] := by
  cases p with
  | nil => simp [elements]
  | cons c rest =>
    simp only [elements]
    split
    · simp
    · split <;> simp

theorem elements_cons_of_ne {c : CodePoint} (h : c ≠ .char '/') {e : Text} {es : List Text} {rest : Text}
    (hr : elements rest = e :: es) : elements (c :: rest) = (c :: e) :: es := by
  simp [elements, h, hr]

theorem joined_cons_of_ne_nil (e : Text) {es : List Text} (h : es ≠ []) :
    joined (e :: es) = e ++ .char '/' :: joined es := by
  cases es with
  | nil => exact absurd rfl h
  | cons _ _ => rfl

/-- Nothing is lost by cutting a path at its slashes. -/
theorem joined_elements (p : Text) : joined (elements p) = p := by
  induction p with
  | nil => rfl
  | cons c rest ih =>
    by_cases h : c = .char '/'
    · subst h
      rw [elements, if_pos rfl, joined_cons_of_ne_nil _ (elements_ne_nil rest), ih]
      rfl
    · obtain ⟨e, es, hr⟩ := List.exists_cons_of_ne_nil (elements_ne_nil rest)
      rw [elements_cons_of_ne h hr]
      rw [hr] at ih
      cases es with
      | nil => simpa [joined] using ih
      | cons f fs => simpa [joined] using ih

theorem elements_of_no_slash {e : Text} (h : .char '/' ∉ e) : elements e = [e] := by
  induction e with
  | nil => rfl
  | cons c rest ih =>
    rw [List.mem_cons, not_or] at h
    exact elements_cons_of_ne (Ne.symm h.1) (ih h.2)

theorem elements_append_slash {e : Text} (h : .char '/' ∉ e) (rest : Text) :
    elements (e ++ .char '/' :: rest) = e :: elements rest := by
  induction e with
  | nil => simp [elements]
  | cons c more ih =>
    rw [List.mem_cons, not_or] at h
    exact elements_cons_of_ne (Ne.symm h.1) (ih h.2)

/-- Elements free of slashes are found again in the path they make. -/
theorem elements_joined {es : List Text} (hne : es ≠ []) (h : ∀ e ∈ es, .char '/' ∉ e) :
    elements (joined es) = es := by
  induction es with
  | nil => exact absurd rfl hne
  | cons e rest ih =>
    cases rest with
    | nil => exact elements_of_no_slash (h e (by simp))
    | cons f fs =>
      rw [joined_cons_of_ne_nil _ (by simp), elements_append_slash (h e (by simp)),
        ih (by simp) fun x hx => h x (List.mem_cons_of_mem _ hx)]

theorem no_slash_of_mem_elements {p e : Text} (h : e ∈ elements p) : .char '/' ∉ e := by
  induction p generalizing e with
  | nil => simp_all [elements]
  | cons c rest ih =>
    by_cases hc : c = .char '/'
    · subst hc
      rw [elements, if_pos rfl, List.mem_cons] at h
      rcases h with rfl | h
      · simp
      · exact ih h
    · obtain ⟨f, fs, hr⟩ := List.exists_cons_of_ne_nil (elements_ne_nil rest)
      rw [elements_cons_of_ne hc hr, List.mem_cons] at h
      rcases h with rfl | h
      · rw [List.mem_cons, not_or]
        exact ⟨Ne.symm hc, ih (by simp [hr])⟩
      · exact ih (by simp [hr, h])

/-- A path cut behind its last slash: the first part ends in a slash or is empty. -/
def cut : Text → Text × Text
  | [] => ([], [])
  | c :: rest =>
    match cut rest with
    | ([], tail) => if c = .char '/' then ([.char '/'], tail) else ([], c :: tail)
    | (head, tail) => (c :: head, tail)

/-- The last element of a path, empty if the path ends in a slash. -/
def lastElement (p : Text) : Text := (cut p).2

/-- What stands before the last element, without its closing slashes; slashes alone are kept. -/
def directory (p : Text) : Text :=
  let head := (cut p).1
  if head.all (· = .char '/') then head else Text.dropTrailing (.char '/') head

/-- `name` seen from `base`: with one slash between them, or `name` alone if it is absolute. -/
def attach (base name : Text) : Text :=
  if name.head? = some (.char '/') then name
  else if base = [] ∨ base.getLast? = some (.char '/') then base ++ name
  else base ++ .char '/' :: name

theorem append_cut (p : Text) : (cut p).1 ++ (cut p).2 = p := by
  induction p with
  | nil => rfl
  | cons c rest ih =>
    unfold cut
    split
    · next tail h =>
      rw [h] at ih
      split
      · next hc => subst hc; simpa using ih
      · simpa using ih
    · next head tail h =>
      rw [h] at ih
      simpa using ih

theorem no_slash_lastElement (p : Text) : .char '/' ∉ lastElement p := by
  unfold lastElement
  induction p with
  | nil => simp [cut]
  | cons c rest ih =>
    unfold cut
    split
    · next tail h =>
      rw [h] at ih
      split
      · exact ih
      · next hc => rw [List.mem_cons, not_or]; exact ⟨Ne.symm hc, ih⟩
    · next head tail h =>
      rw [h] at ih
      exact ih

end Vfs.Path
