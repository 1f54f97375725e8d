import Vfs.Path.Valid

/-!
# Paths as rows of names

A row of `Names` is a way down from a directory. Written behind a slash it is a path from the root,
written alone it is a name a filesystem accepts (`isValid_iff_names`); `ofReduced` writes both. The
lemmas say what the functions on paths do to rows: `clean` finds a row again, `attach` appends to it,
`parent` drops its last name and `lastElement` is that name.
-/

namespace Vfs.Path
set_option autoImplicit false

variable {r : Bool} {as bs es : List Text} {e p : Text}

/-- A row of elements that each name a child. -/
def Names (es : List Text) : Prop := ∀ e ∈ es, isChildName e = true ∧ .char '/' ∉ e

instance : DecidablePred Names := fun es => inferInstanceAs (Decidable (∀ e ∈ es, isChildName e = true ∧ .char '/' ∉ e))

theorem names_nil : Names [] := fun _ h => absurd h List.not_mem_nil

theorem names_append : Names (as ++ bs) ↔ Names as ∧ Names bs := by
  constructor
  · intro h
    exact ⟨fun e he => h e (List.mem_append_left _ he), fun e he => h e (List.mem_append_right _ he)⟩
  · rintro ⟨ha, hb⟩ e he
    rcases List.mem_append.1 he with he | he
    · exact ha e he
    · exact hb e he

theorem Names.ne_nil (h : Names es) (he : e ∈ es) : e ≠ [] := (isChildName_iff.1 (h e he).1).1

theorem Names.ne_here (h : Names es) (he : e ∈ es) : e ≠ here := (isChildName_iff.1 (h e he).1).2.1

theorem Names.no_slash (h : Names es) : ∀ e ∈ es, .char '/' ∉ e := fun e he => (h e he).2

theorem Names.ahead (h : Names es) (ahead : bs <+: es) : Names bs := fun e he => h e (ahead.subset he)

theorem Names.dropLast (h : Names es) : Names es.dropLast := fun e he => h e (List.dropLast_subset es he)

theorem Names.elements_joined (h : Names es) (hne : es ≠ []) : elements (joined es) = es :=
  Path.elements_joined hne h.no_slash

/-- A row of elements, none of them empty. -/
def Pieces (es : List Text) : Prop := ∀ e ∈ es, e ≠ [] ∧ .char '/' ∉ e

theorem Names.pieces (h : Names es) : Pieces es := fun e he => ⟨h.ne_nil he, h.no_slash e he⟩

/-- The dot names no child, but it is a piece of a path. -/
theorem pieces_here : Pieces [here] := by
  intro e member
  rw [List.mem_singleton.1 member]
  exact ⟨by decide, by decide⟩

theorem pieces_append : Pieces (as ++ bs) ↔ Pieces as ∧ Pieces bs := List.forall_mem_append

theorem Pieces.elements_joined (h : Pieces es) (hne : es ≠ []) : elements (joined es) = es :=
  Path.elements_joined hne fun e he => (h e he).2

theorem ofReduced_rooted (es : List Text) : ofReduced true es = .char '/' :: joined es := rfl

theorem ofReduced_nil : ofReduced false [] = here := rfl

theorem ofReduced_relative (hne : es ≠ []) : ofReduced false es = joined es := if_neg hne

/-- The names a filesystem accepts are those that rows of names are written as. -/
theorem isValid_iff_names {name : Text} :
    isValid name = true ↔ ∃ es, Names es ∧ name = ofReduced false es := by
  simp only [isValid, Bool.or_eq_true, decide_eq_true_eq, List.all_eq_true]
  constructor
  · rintro (rfl | h)
    · exact ⟨[], names_nil, rfl⟩
    · refine ⟨elements name, fun e he => ⟨h e he, no_slash_of_mem_elements he⟩, ?_⟩
      rw [ofReduced_relative (elements_ne_nil name), joined_elements]
  · rintro ⟨es, names, rfl⟩
    by_cases hne : es = []
    · left; rw [hne]; rfl
    · right
      rw [ofReduced_relative hne, names.elements_joined hne]
      exact fun e he => (names e he).1

theorem joined_ne_nil (pieces : Pieces es) (hne : es ≠ []) : joined es ≠ [] := by
  intro h
  have := pieces.elements_joined hne
  rw [h] at this
  exact (pieces [] (by rw [← this]; simp [elements])).1 rfl

theorem mem_joined (member : e ∈ es) {c : CodePoint} (inside : c ∈ e) : c ∈ joined es := by
  induction es with
  | nil => cases member
  | cons f es ih =>
    by_cases last : es = []
    · rw [last, List.mem_singleton] at member
      rw [last, ← member]
      exact inside
    · rw [joined_cons_of_ne_nil f last, List.mem_append]
      rcases List.mem_cons.1 member with rfl | later
      · exact .inl inside
      · exact .inr (List.mem_cons_of_mem _ (ih later))

/-- A character of elements with slashes between them is a slash or one of an element. -/
theorem exists_of_mem_joined {c : CodePoint} (inside : c ∈ joined es) (other : c ≠ .char '/') : ∃ e ∈ es, c ∈ e := by
  induction es with
  | nil => cases inside
  | cons e es ih =>
    by_cases last : es = []
    · rw [last] at inside
      exact ⟨e, List.mem_cons_self .., inside⟩
    · rw [joined_cons_of_ne_nil e last, List.mem_append, List.mem_cons] at inside
      rcases inside with own | slash | later
      · exact ⟨e, List.mem_cons_self .., own⟩
      · exact absurd slash other
      · obtain ⟨f, member, own⟩ := ih later
        exact ⟨f, List.mem_cons_of_mem _ member, own⟩

theorem joined_append (hb : bs ≠ []) (ha : as ≠ []) : joined (as ++ bs) = joined as ++ .char '/' :: joined bs := by
  induction as with
  | nil => exact absurd rfl ha
  | cons a as ih =>
    cases as with
    | nil => exact joined_cons_of_ne_nil a hb
    | cons a' as =>
      rw [List.cons_append, joined_cons_of_ne_nil a (by simp), ih (by simp), joined_cons_of_ne_nil a (by simp),
        List.append_assoc]
      rfl

section
variable {rows : List (List Text)}

/-- What is joined of parts is joined at once. -/
theorem joined_flatten (parts : ∀ es ∈ rows, es ≠ []) : joined (rows.map joined) = joined rows.flatten := by
  induction rows with
  | nil => rfl
  | cons es rows ih =>
    by_cases last : rows = []
    · rw [last, List.flatten_cons, List.flatten_nil, List.append_nil]
      rfl
    · obtain ⟨row, member⟩ := List.exists_mem_of_ne_nil rows last
      have rest : rows.flatten ≠ [] :=
        List.flatten_ne_nil_iff.2 ⟨row, member, parts row (List.mem_cons_of_mem _ member)⟩
      rw [List.map_cons, joined_cons_of_ne_nil _ (mt List.map_eq_nil_iff.1 last),
        ih fun es member => parts es (List.mem_cons_of_mem _ member), List.flatten_cons,
        joined_append rest (parts es List.mem_cons_self)]

theorem ofReduced_map_joined (parts : ∀ es ∈ rows, es ≠ []) :
    ofReduced false (rows.map joined) = ofReduced false rows.flatten := by
  by_cases empty : rows = []
  · rw [empty]
    rfl
  · obtain ⟨es, member⟩ := List.exists_mem_of_ne_nil rows empty
    rw [ofReduced_relative (mt List.map_eq_nil_iff.1 empty), joined_flatten parts,
      ofReduced_relative (List.flatten_ne_nil_iff.2 ⟨es, member, parts es member⟩)]

end

/-- A path cut at one of its slashes. -/
theorem elements_append (p q : Text) : elements (p ++ .char '/' :: q) = elements p ++ elements q := by
  induction p with
  | nil => simp [elements]
  | cons c p ih =>
    by_cases slash : c = .char '/'
    · simp [elements, slash, ih]
    · obtain ⟨e, es, split⟩ := List.exists_cons_of_ne_nil (elements_ne_nil p)
      rw [split] at ih
      rw [List.cons_append, elements_cons_of_ne slash ih, elements_cons_of_ne slash split]
      rfl

/-- The last character of a row of elements is one of an element. -/
theorem getLast?_joined (pieces : Pieces es) (hne : es ≠ []) : (joined es).getLast? ≠ some (.char '/') := by
  intro h
  obtain ⟨front, split⟩ := List.getLast?_eq_some_iff.1 h
  have cut := pieces.elements_joined hne
  rw [split, elements_append] at cut
  refine (pieces [] ?_).1 rfl
  rw [← cut]
  simp [elements]

theorem push_nil (stack : List Text) : push r stack [] = stack := by simp [push]

theorem push_here (stack : List Text) : push r stack here = stack := by simp [push]

/-- Names are kept as they come. -/
theorem foldl_push_names (names : Names es) (stack : List Text) :
    es.foldl (push r) stack = es.reverse ++ stack := by
  induction es generalizing stack with
  | nil => rfl
  | cons e es ih =>
    have ordinary := isChildName_iff.1 (names e (List.mem_cons_self ..)).1
    have kept : push r stack e = e :: stack := by
      simp [push, ordinary.1, ordinary.2.1, ordinary.2.2]
    rw [List.foldl_cons, kept, ih fun x hx => names x (List.mem_cons_of_mem _ hx)]
    simp

/-- Nothing is added by the elements of a name but its row. -/
theorem foldl_push_elements (names : Names es) (stack : List Text) :
    (elements (ofReduced false es)).foldl (push r) stack = es.reverse ++ stack := by
  by_cases hne : es = []
  · rw [hne, ofReduced_nil, elements_of_no_slash (by decide : .char '/' ∉ here), List.foldl_cons, push_here]
    rfl
  · rw [ofReduced_relative hne, names.elements_joined hne, foldl_push_names names]

theorem elements_rooted (names : Names es) (hne : es ≠ []) : elements (ofReduced true es) = [] :: es := by
  rw [ofReduced_rooted, elements, if_pos rfl, names.elements_joined hne]

/-- The row of a path, found among its elements. -/
theorem foldl_push_ofReduced (names : Names es) :
    (elements (ofReduced r es)).foldl (push true) [] = es.reverse := by
  cases r with
  | false => rw [foldl_push_elements names, List.append_nil]
  | true =>
    by_cases empty : es = []
    · subst empty; rfl
    · rw [elements_rooted names empty, List.foldl_cons, push_nil, foldl_push_names names, List.append_nil]

theorem ofReduced_inj (ha : Names as) (hb : Names bs) (same : ofReduced r as = ofReduced r bs) : as = bs := by
  have rows := foldl_push_ofReduced (r := r) ha
  rw [same, foldl_push_ofReduced hb] at rows
  exact (List.reverse_inj.1 rows).symm

/-- Rows below one directory are told apart by their paths. -/
theorem ofReduced_append_inj (ha : Names as) (hb : Names bs) (he : Names es)
    (same : ofReduced r (as ++ bs) = ofReduced r (as ++ es)) : bs = es := by
  have row := ofReduced_inj (names_append.2 ⟨ha, hb⟩) (names_append.2 ⟨ha, he⟩) same
  exact List.append_cancel_left row

theorem ofReduced_ne_here (names : Names es) (hne : es ≠ []) : ofReduced false es ≠ here :=
  fun same => hne (ofReduced_inj names names_nil same)

/-- A path from the root, cleaned element by element. -/
theorem clean_slash (p : Text) :
    clean (.char '/' :: p) = ofReduced true ((elements p).foldl (push true) []).reverse := by
  have isRooted : isRooted (.char '/' :: p) = true := rfl
  rw [clean, isRooted, reduce, elements, if_pos rfl, List.foldl_cons, push_nil]

/-- What is written from pieces alone does not start at the root. -/
theorem head?_ofReduced (pieces : Pieces es) : (ofReduced false es).head? ≠ some (.char '/') := by
  intro slash
  by_cases hne : es = []
  · subst hne; cases slash
  · obtain ⟨rest, split⟩ := List.head?_eq_some_iff.1 slash
    rw [ofReduced_relative hne] at split
    have cut := pieces.elements_joined hne
    rw [split, elements, if_pos rfl] at cut
    exact (pieces [] (by rw [← cut]; exact List.mem_cons_self ..)).1 rfl

/-- A path written from names is clean. -/
theorem clean_ofReduced (names : Names es) : clean (ofReduced r es) = ofReduced r es := by
  cases r with
  | true =>
    have row := foldl_push_ofReduced (r := true) names
    rw [ofReduced_rooted, elements, if_pos rfl, List.foldl_cons, push_nil] at row
    rw [ofReduced_rooted, clean_slash, row, List.reverse_reverse, ofReduced_rooted]
  | false =>
    have relative : isRooted (ofReduced false es) = false := decide_eq_false (head?_ofReduced names.pieces)
    rw [clean, relative, reduce, foldl_push_elements names, List.append_nil, List.reverse_reverse]

theorem joined_singleton (e : Text) : joined [e] = e := rfl

/-- The path of a row that is not empty ends in one of its elements. -/
theorem getLast?_ofReduced (pieces : Pieces es) (hne : es ≠ []) :
    (ofReduced r es).getLast? ≠ some (.char '/') := by
  have inner := getLast?_joined pieces hne
  cases r with
  | true =>
    rw [ofReduced_rooted, List.getLast?_cons_of_ne_nil (joined_ne_nil pieces hne)]
    exact inner
  | false =>
    rw [ofReduced_relative hne]
    exact inner

/-- A path of a row with more names behind it. -/
theorem ofReduced_append (hb : bs ≠ []) (ha : as ≠ []) :
    ofReduced r (as ++ bs) = ofReduced r as ++ .char '/' :: joined bs := by
  cases r with
  | true => rw [ofReduced_rooted, ofReduced_rooted, joined_append hb ha, List.cons_append]
  | false => rw [ofReduced_relative (by simp [ha]), ofReduced_relative ha, joined_append hb ha]

theorem attach_joined (ha : Pieces as) (hb : Pieces bs) (hne : bs ≠ []) (down : r = true ∨ as ≠ []) :
    attach (ofReduced r as) (joined bs) = ofReduced r (as ++ bs) := by
  have relative : (joined bs).head? ≠ some (.char '/') := by
    rw [← ofReduced_relative hne]
    exact head?_ofReduced hb
  rw [attach, if_neg relative]
  by_cases empty : as = []
  · subst empty
    have root : r = true := down.resolve_right fun h => h rfl
    subst root
    rfl
  · have goesOn : ¬(ofReduced r as = [] ∨ (ofReduced r as).getLast? = some (.char '/')) := by
      rintro (h | h)
      · cases r with
        | true => cases h
        | false =>
          rw [ofReduced_relative empty] at h
          exact joined_ne_nil ha empty h
      · exact getLast?_ofReduced ha empty h
    rw [if_neg goesOn, ofReduced_append hne empty]

theorem child_joined (ha : Names as) (hb : Names bs) (hne : bs ≠ []) :
    child (ofReduced false as) (joined bs) = ofReduced false (as ++ bs) := by
  rw [child]
  by_cases empty : as = []
  · rw [empty, ofReduced_nil, if_pos rfl, List.nil_append, ofReduced_relative hne]
  · rw [if_neg (ofReduced_ne_here ha empty), attach_joined ha.pieces hb.pieces hne (Or.inr empty)]

theorem child_ofReduced {c : Text} (names : Names (as ++ [c])) :
    child (ofReduced false as) c = ofReduced false (as ++ [c]) := by
  have path := child_joined (names_append.1 names).1 (names_append.1 names).2 (List.cons_ne_nil c [])
  rwa [joined_singleton] at path

theorem cut_of_no_slash (h : .char '/' ∉ e) : cut e = ([], e) := by
  induction e with
  | nil => rfl
  | cons c e ih =>
    rw [List.mem_cons, not_or] at h
    rw [cut, ih h.2]
    exact if_neg (Ne.symm h.1)

theorem cut_append_slash (h : .char '/' ∉ e) (p : Text) : cut (p ++ .char '/' :: e) = (p ++ [.char '/'], e) := by
  induction p with
  | nil => rw [List.nil_append, cut, cut_of_no_slash h]; rfl
  | cons c p ih =>
    rw [List.cons_append, cut, ih]
    cases p <;> rfl

/-- The path of a row that ends in `e`: the path of the row before it, a slash and `e`. -/
theorem ofReduced_snoc (es : List Text) (e : Text) :
    ofReduced r (es ++ [e]) =
      if es = [] then (if r then [.char '/'] else []) ++ e else ofReduced r es ++ .char '/' :: e := by
  split
  · next empty =>
    subst empty
    cases r with
    | true => rfl
    | false => rw [List.nil_append, ofReduced_relative (by simp)]; rfl
  · next hne => rw [ofReduced_append (by simp) hne, joined_singleton]

theorem lastElement_ofReduced (no_slash : .char '/' ∉ e) (es : List Text) :
    lastElement (ofReduced r (es ++ [e])) = e := by
  rw [lastElement, ofReduced_snoc]
  split
  · cases r with
    | true => exact congrArg Prod.snd (cut_append_slash no_slash [])
    | false => exact congrArg Prod.snd (cut_of_no_slash no_slash)
  · rw [cut_append_slash no_slash]

theorem dropTrailing_append {c : CodePoint} (h : p.getLast? ≠ some c) : Text.dropTrailing c (p ++ [c]) = p := by
  rw [Text.dropTrailing, List.reverse_append, List.reverse_singleton, List.singleton_append,
    List.dropWhile_cons_of_pos (by simp)]
  cases reversed : p.reverse with
  | nil => rw [List.reverse_eq_nil_iff.1 reversed]; rfl
  | cons d rest =>
    have last : d ≠ c := by
      intro same
      rw [← List.head?_reverse, reversed, same] at h
      exact h rfl
    rw [List.dropWhile_cons_of_neg (by simpa using last), ← reversed, List.reverse_reverse]

theorem directory_of_no_slash (h : .char '/' ∉ e) : directory e = [] := by
  rw [directory, cut_of_no_slash h]
  rfl

theorem directory_slash (h : .char '/' ∉ e) : directory (.char '/' :: e) = [.char '/'] := by
  have split : cut (.char '/' :: e) = ([.char '/'], e) := cut_append_slash h []
  rw [directory, split]
  rfl

theorem directory_append_slash (h : .char '/' ∉ e) (hne : p ≠ []) (ends : p.getLast? ≠ some (.char '/')) :
    directory (p ++ .char '/' :: e) = p := by
  have mixed : ¬(p ++ [CodePoint.char '/']).all (· = .char '/') = true := by
    intro slashes
    rw [List.all_append, Bool.and_eq_true, List.all_eq_true] at slashes
    have last := slashes.1 (p.getLast hne) (List.getLast_mem hne)
    exact ends ((List.getLast?_eq_some_getLast hne).trans (congrArg some (of_decide_eq_true last)))
  simp only [directory, cut_append_slash h, mixed, dropTrailing_append ends]
  rfl

theorem directory_joined (pieces : Pieces es) (h : .char '/' ∉ e) : directory (joined (es ++ [e])) = joined es := by
  by_cases empty : es = []
  · subst empty
    exact directory_of_no_slash h
  · rw [joined_append (List.cons_ne_nil e []) empty, joined_singleton,
      directory_append_slash h (joined_ne_nil pieces empty) (getLast?_joined pieces empty)]

theorem lastElement_joined (h : .char '/' ∉ e) (es : List Text) : lastElement (joined (es ++ [e])) = e := by
  have last := lastElement_ofReduced (r := false) h es
  rwa [ofReduced_relative (by simp)] at last

/-- The directory of a path is the path without its last name. -/
theorem parent_ofReduced (names : Names es) :
    parent (ofReduced r es) = ofReduced r es.dropLast := by
  rcases List.eq_nil_or_concat es with rfl | ⟨front, e, rfl⟩
  · cases r <;> rfl
  · rw [List.concat_eq_append] at names ⊢
    obtain ⟨before, last⟩ := names_append.1 names
    have no_slash : .char '/' ∉ e := last.no_slash e (List.mem_cons_self ..)
    rw [List.dropLast_concat, parent]
    by_cases empty : front = []
    · subst empty
      cases r with
      | true => exact congrArg clean (directory_slash no_slash)
      | false => exact congrArg clean (directory_of_no_slash no_slash)
    · have path : ofReduced r front ≠ [] := by
        cases r with
        | true => exact List.cons_ne_nil _ _
        | false => rw [ofReduced_relative empty]; exact joined_ne_nil before.pieces empty
      rw [ofReduced_snoc, if_neg empty,
        directory_append_slash no_slash path (getLast?_ofReduced before.pieces empty), clean_ofReduced before]

end Vfs.Path
