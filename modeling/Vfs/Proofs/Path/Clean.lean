import Mathlib.Data.List.Basic
import Vfs.Proofs.Path.Steps

/-!
# The normal form of a path

Cleaning keeps a stack of elements that is reduced from the first element to the last (`Reduced.push`), so what it
writes is a normal path. The elements of a normal path are kept as they come (`Reduced.foldl_push`): a normal path is
clean, and what stands behind a path is pushed on the same stack as behind its normal form. So a path can be cleaned
before another is attached to it (`clean_append_slash`), and joining is done from the left (`join_concat`).

The host's own rules keep two slashes in front of a path apart from one. `clean_eq_normalized` says that cleaning is
those rules with the two slashes taken for one.
-/

namespace Vfs.Path
set_option autoImplicit false

variable {r : Bool} {as bs es stack ups names : List Text} {e p s t : Text}

/-! ## The stack -/

theorem reduced_nil : Reduced r [] :=
  ⟨fun _ member => absurd member List.not_mem_nil, [], [], rfl, fun _ member => absurd member List.not_mem_nil,
    fun _ member => absurd member List.not_mem_nil, fun _ => rfl⟩

theorem Reduced.pieces (reduced : Reduced r es) : Pieces es :=
  fun e member => ⟨(reduced.ordinary e member).1, (reduced.ordinary e member).2.2⟩

/-- An ordinary element goes on top. -/
theorem Reduced.concat (reduced : Reduced r es) (hne : e ≠ []) (proper : e ≠ here) (plain : .char '/' ∉ e)
    (down : e ≠ above) : Reduced r (es ++ [e]) := by
  obtain ⟨ups, names, rfl, climbing, going, rooted⟩ := reduced.climbs
  refine ⟨?_, ups, names ++ [e], List.append_assoc .., climbing, ?_, rooted⟩
  · exact List.forall_mem_append.2 ⟨reduced.ordinary, List.forall_mem_singleton.2 ⟨hne, proper, plain⟩⟩
  · exact List.forall_mem_append.2 ⟨going, List.forall_mem_singleton.2 down⟩

/-- Below what climbs already there is only climbing, and not from the root. -/
theorem Reduced.climbs_of_top (reduced : Reduced r (es ++ [above])) : r = false ∧ ∀ e ∈ es, e = above := by
  obtain ⟨ups, names, row, climbing, going, rooted⟩ := reduced.climbs
  rcases List.eq_nil_or_concat' names with rfl | ⟨front, last, rfl⟩
  · rw [List.append_nil] at row
    subst row
    have relative : r ≠ true := fun top => by simpa using rooted top
    exact ⟨Bool.eq_false_iff.2 relative, fun e member => climbing e (List.mem_append_left _ member)⟩
  · rw [← List.append_assoc] at row
    obtain ⟨-, same⟩ := List.append_inj' row rfl
    exact absurd (List.singleton_inj.1 same).symm (going last (by simp))

/-- The top of a stack can be taken off. -/
theorem Reduced.dropTop (reduced : Reduced r (es ++ [e])) : Reduced r es := by
  have ordinary : ∀ e ∈ es, e ≠ [] ∧ e ≠ here ∧ .char '/' ∉ e :=
    fun e member => reduced.ordinary e (List.mem_append_left _ member)
  obtain ⟨ups, names, row, climbing, going, rooted⟩ := reduced.climbs
  rcases List.eq_nil_or_concat' names with rfl | ⟨front, last, rfl⟩
  · rw [List.append_nil] at row
    subst row
    refine ⟨ordinary, es, [], (List.append_nil es).symm, fun e member => climbing e (List.mem_append_left _ member),
      fun _ member => absurd member List.not_mem_nil, fun top => absurd (rooted top) (by simp)⟩
  · rw [← List.append_assoc] at row
    obtain ⟨rfl, -⟩ := List.append_inj' row rfl
    exact ⟨ordinary, ups, front, rfl, climbing, fun e member => going e (List.mem_append_left _ member), rooted⟩

/-- Pushing one more element leaves the stack reduced. -/
theorem Reduced.push (reduced : Reduced r stack.reverse) (plain : .char '/' ∉ e) :
    Reduced r (Path.push r stack e).reverse := by
  unfold Path.push
  split
  · exact reduced
  · next ordinary =>
    rw [not_or] at ordinary
    split
    · next down =>
      rw [List.reverse_cons]
      exact reduced.concat ordinary.1 ordinary.2 plain down
    · cases stack with
      | nil =>
        cases r with
        | true => exact reduced_nil
        | false => exact ⟨by decide, [above], [], rfl, by simp, by simp, fun top => by cases top⟩
      | cons top rest =>
        rw [List.reverse_cons] at reduced
        dsimp only
        split
        · next climbing =>
          rw [climbing] at reduced
          obtain ⟨relative, all⟩ := reduced.climbs_of_top
          rw [climbing, List.reverse_cons, List.reverse_cons]
          refine ⟨?_, rest.reverse ++ [above] ++ [above], [], (List.append_nil _).symm, ?_,
            fun _ member => absurd member List.not_mem_nil, fun top => by rw [relative] at top; cases top⟩
          · exact List.forall_mem_append.2 ⟨reduced.ordinary, List.forall_mem_singleton.2 (by decide)⟩
          · simpa [or_imp, forall_and] using fun e member => all e (List.mem_reverse.2 member)
        · exact reduced.dropTop

/-- What is left of the elements of a path is reduced. -/
theorem reduced_reduce (plain : ∀ e ∈ es, .char '/' ∉ e) : Reduced r (reduce r es) := by
  have stacked (stack : List Text) (reduced : Reduced r stack.reverse) :
      Reduced r (es.foldl (push r) stack).reverse := by
    induction es generalizing stack with
    | nil => exact reduced
    | cons e es ih =>
      obtain ⟨first, later⟩ := List.forall_mem_cons.1 plain
      exact ih later _ (reduced.push first)
  exact stacked [] reduced_nil

/-- Climbing goes on from climbing, off the root. -/
theorem foldl_push_ups (climbing : ∀ e ∈ ups, e = above) (below : ∀ e ∈ stack, e = above) :
    ups.foldl (push false) stack = ups.reverse ++ stack := by
  induction ups generalizing stack with
  | nil => rfl
  | cons e ups ih =>
    obtain ⟨rfl, later⟩ := List.forall_mem_cons.1 climbing
    have kept : push false stack above = above :: stack := by
      cases stack with
      | nil => rfl
      | cons top rest =>
        obtain ⟨rfl, -⟩ := List.forall_mem_cons.1 below
        rfl
    rw [List.foldl_cons, kept, ih later (List.forall_mem_cons.2 ⟨rfl, below⟩)]
    simp

/-- Reduced elements are kept as they come. -/
theorem Reduced.foldl_push (reduced : Reduced r es) : es.foldl (Path.push r) [] = es.reverse := by
  obtain ⟨ups, names, rfl, climbing, going, rooted⟩ := reduced.climbs
  have down : Names names := by
    intro e member
    obtain ⟨hne, proper, plain⟩ := reduced.ordinary e (List.mem_append_right _ member)
    exact ⟨isChildName_iff.2 ⟨hne, proper, going e member⟩, plain⟩
  have up : ups.foldl (Path.push r) [] = ups.reverse := by
    cases r with
    | true => rw [rooted rfl]; rfl
    | false => rw [foldl_push_ups climbing (fun _ member => absurd member List.not_mem_nil), List.append_nil]
  rw [List.foldl_append, up, foldl_push_names down, List.reverse_append]

/-- The elements of a path written from reduced ones leave these on the stack. -/
theorem Reduced.foldl_push_elements (reduced : Reduced r es) :
    (elements (ofReduced r es)).foldl (Path.push r) [] = es.reverse := by
  by_cases empty : es = []
  · subst empty
    cases r <;> rfl
  · have row := reduced.pieces.elements_joined empty
    cases r with
    | true => rw [ofReduced_rooted, elements, if_pos rfl, List.foldl_cons, push_nil, row, reduced.foldl_push]
    | false => rw [ofReduced_relative empty, row, reduced.foldl_push]

/-! ## Normal paths -/

theorem isRooted_ofReduced (pieces : Pieces es) : isRooted (ofReduced r es) = r := by
  cases r with
  | true => rfl
  | false => exact decide_eq_false (head?_ofReduced pieces)

/-- The elements that a path is cleaned to. -/
theorem exists_clean (p : Text) : ∃ es, Reduced (isRooted p) es ∧ clean p = ofReduced (isRooted p) es ∧
    (elements p).foldl (push (isRooted p)) [] = es.reverse :=
  ⟨reduce (isRooted p) (elements p), reduced_reduce fun _ member => no_slash_of_mem_elements member, rfl,
    by rw [reduce, List.reverse_reverse]⟩

theorem normal_clean (p : Text) : Normal (clean p) := by
  obtain ⟨es, reduced, written, -⟩ := exists_clean p
  exact ⟨_, es, reduced, written⟩

theorem Normal.clean_eq (normal : Normal p) : clean p = p := by
  obtain ⟨r, es, reduced, rfl⟩ := normal
  rw [clean, isRooted_ofReduced reduced.pieces, reduce, reduced.foldl_push_elements, List.reverse_reverse]

/-- The normal paths are those that cleaning leaves as they are. -/
theorem normal_iff_clean : Normal p ↔ clean p = p :=
  ⟨Normal.clean_eq, fun same => same ▸ normal_clean p⟩

theorem isRooted_clean (p : Text) : isRooted (clean p) = isRooted p := by
  obtain ⟨es, reduced, written, -⟩ := exists_clean p
  rw [written, isRooted_ofReduced reduced.pieces]

theorem clean_ne_nil (p : Text) : clean p ≠ [] := by
  obtain ⟨es, reduced, written, -⟩ := exists_clean p
  rw [written]
  cases isRooted p with
  | true => exact List.cons_ne_nil _ _
  | false =>
    by_cases empty : es = []
    · rw [empty]
      exact List.cons_ne_nil _ _
    · rw [ofReduced_relative empty]
      exact joined_ne_nil reduced.pieces empty

/-- A path that goes on behind a slash starts where its front does. -/
theorem isRooted_append_slash (hne : s ≠ []) (t : Text) : isRooted (s ++ .char '/' :: t) = isRooted s := by
  obtain ⟨c, rest, rfl⟩ := List.exists_cons_of_ne_nil hne
  rfl

/-- What a path goes on with is pushed behind what is left of its front. -/
theorem clean_append (hne : s ≠ []) (t : Text) : clean (s ++ .char '/' :: t) =
    ofReduced (isRooted s)
      ((elements t).foldl (push (isRooted s)) ((elements s).foldl (push (isRooted s)) [])).reverse := by
  rw [clean, isRooted_append_slash hne, elements_append, reduce, List.foldl_append]

/-- The front of a path can be cleaned first. -/
theorem clean_append_slash (hne : s ≠ []) (t : Text) :
    clean (s ++ .char '/' :: t) = clean (clean s ++ .char '/' :: t) := by
  obtain ⟨es, reduced, written, stacked⟩ := exists_clean s
  have same : (elements (clean s)).foldl (push (isRooted s)) [] = (elements s).foldl (push (isRooted s)) [] := by
    rw [stacked, written, reduced.foldl_push_elements]
  rw [clean_append hne, clean_append (clean_ne_nil s), isRooted_clean, same]

/-! ## Joining -/

theorem joined_cons_ne_nil (hne : e ≠ []) (es : List Text) : joined (e :: es) ≠ [] := by
  by_cases last : es = []
  · rw [last]
    exact hne
  · rw [joined_cons_of_ne_nil e last]
    exact List.append_ne_nil_of_left_ne_nil hne _

/-- Only what is not empty is joined. -/
theorem join_congr (same : as.filter (· ≠ []) = bs.filter (· ≠ [])) : join as = join bs := by
  rw [join, join, same]

theorem join_nil : join [] = [] := rfl

theorem join_of_parts {e : Text} {es : List Text} (parts : as.filter (· ≠ []) = e :: es) :
    join as = clean (joined (e :: es)) := by
  rw [join, parts]

theorem join_pair (hs : s ≠ []) (ht : t ≠ []) : join [s, t] = clean (s ++ .char '/' :: t) := by
  have parts : [s, t].filter (· ≠ []) = [s, t] := by simp [hs, ht]
  rw [join_of_parts parts]
  rfl

/-- What is joined is nothing, or a clean path. -/
theorem join_join (xs : List Text) : join [join xs] = join xs := by
  cases parts : xs.filter (· ≠ []) with
  | nil =>
    have nothing : join xs = join [] := join_congr parts
    rw [nothing]
    rfl
  | cons x rest =>
    have own : [clean (joined (x :: rest))].filter (· ≠ []) = [clean (joined (x :: rest))] := by
      simp [clean_ne_nil]
    rw [join_of_parts parts, join_of_parts own, joined_singleton, (normal_clean _).clean_eq]

/-- Joining is done from the left. -/
theorem join_concat (xs : List Text) (y : Text) : join (xs ++ [y]) = join [join xs, y] := by
  by_cases last : y = []
  · have dropped : join (xs ++ [y]) = join xs := join_congr (by simp [last])
    have front : join [join xs, y] = join [join xs] := join_congr (by simp [last, List.filter_cons])
    rw [dropped, front, join_join]
  · cases parts : xs.filter (· ≠ []) with
    | nil =>
      have nothing : join xs = join [] := join_congr parts
      have alone : join (xs ++ [y]) = join [y] := join_congr (by rw [List.filter_append, parts, List.nil_append])
      rw [alone, nothing]
      exact (join_congr (by simp [join_nil])).symm
    | cons x rest =>
      have member : x ∈ xs.filter (· ≠ []) := by rw [parts]; exact List.mem_cons_self ..
      have hne : x ≠ [] := by simpa using (List.mem_filter.1 member).2
      have row : (xs ++ [y]).filter (· ≠ []) = x :: (rest ++ [y]) := by
        rw [List.filter_append, parts]
        simp [last]
      have split : joined (x :: (rest ++ [y])) = joined (x :: rest) ++ .char '/' :: y :=
        joined_append (List.cons_ne_nil y []) (List.cons_ne_nil x rest)
      rw [join_of_parts row, join_of_parts parts, join_pair (clean_ne_nil _) last, split,
        clean_append_slash (joined_cons_ne_nil hne rest)]

/-! ## The host's own rules -/

/-- The slashes that the host's rules leave in front of a path: a path may start with one slash or with two, and any
more of them are one. -/
def frontSlashes : Text → Nat
  | .char '/' :: .char '/' :: .char '/' :: _ => 1
  | .char '/' :: .char '/' :: _ => 2
  | .char '/' :: _ => 1
  | _ => 0

/-- The path that the host's rules make of one. -/
def normalized (p : Text) : Text :=
  let q := List.replicate (frontSlashes p) (.char '/') ++ joined (reduce (isRooted p) (elements p))
  if q = [] then here else q

/-- The path with one slash in front where two or more are. -/
def oneSlash (p : Text) : Text := if [.char '/', .char '/'] <+: p then .char '/' :: p.dropWhile (· = .char '/') else p

theorem frontSlashes_cases (p : Text) :
    isRooted p = false ∧ frontSlashes p = 0 ∨ isRooted p = true ∧ (frontSlashes p = 1 ∨ frontSlashes p = 2) := by
  unfold frontSlashes
  split
  · exact .inr ⟨rfl, .inl rfl⟩
  · exact .inr ⟨rfl, .inr rfl⟩
  · exact .inr ⟨rfl, .inl rfl⟩
  · next other =>
    refine .inl ⟨Bool.eq_false_iff.2 fun rooted => ?_, rfl⟩
    obtain ⟨rest, rfl⟩ := List.head?_eq_some_iff.1 (isRooted_iff.1 rooted)
    exact other rest rfl

theorem head?_joined (pieces : Pieces es) : (joined es).head? ≠ some (.char '/') := by
  by_cases empty : es = []
  · rw [empty]
    simp [joined]
  · rw [← ofReduced_relative empty]
    exact head?_ofReduced pieces

/-- Cleaning follows the host's rules, and takes two slashes in front for one. -/
theorem clean_eq_normalized (p : Text) : clean p = oneSlash (normalized p) := by
  have pieces : Pieces (reduce (isRooted p) (elements p)) :=
    pieces_reduce fun _ member => no_slash_of_mem_elements member
  have first := head?_joined pieces
  rw [clean, oneSlash, normalized]
  generalize reduce (isRooted p) (elements p) = es at pieces first ⊢
  have alone : ¬[.char '/', .char '/'] <+: .char '/' :: joined es := by
    rw [List.cons_prefix_cons]
    rintro ⟨-, rest, same⟩
    exact first (by rw [← same]; rfl)
  rcases frontSlashes_cases p with ⟨relative, slashless⟩ | ⟨rooted, one | two⟩
  · have written : ofReduced false es = if joined es = [] then here else joined es := by
      by_cases empty : es = []
      · rw [empty]
        rfl
      · rw [ofReduced_relative empty, if_neg (joined_ne_nil pieces empty)]
    have start : ¬[.char '/', .char '/'] <+: ofReduced false es := by
      rintro ⟨rest, same⟩
      exact head?_ofReduced pieces (by rw [← same]; rfl)
    rw [relative, slashless, List.replicate_zero, List.nil_append, ← written, if_neg start]
  · simp only [rooted, one, List.replicate_one, List.singleton_append, reduceCtorEq, if_false, if_neg alone,
      ofReduced_rooted]
  · have kept : (joined es).dropWhile (· = .char '/') = joined es := by
      cases row : joined es with
      | nil => rfl
      | cons c rest =>
        rw [row] at first
        exact List.dropWhile_cons_of_neg (by simpa using first)
    have both : [.char '/', .char '/'] <+: .char '/' :: .char '/' :: joined es := ⟨joined es, rfl⟩
    simp only [rooted, two, List.replicate_succ, List.replicate_zero, List.cons_append, List.nil_append, reduceCtorEq,
      if_false, if_pos both, List.dropWhile_cons, decide_true, if_true, kept, ofReduced_rooted]

/-! ## Cleaning and joining -/

/-- **Cleaning writes the normal form of a path, and joining is done from the left.** A clean path stays as it is and
starts where the path started; the front of a path, unless there is none, may be cleaned first. -/
theorem clean_join_laws :
    (∀ s, clean s = oneSlash (normalized s) ∧ Normal (clean s) ∧ clean (clean s) = clean s ∧
        isRooted (clean s) = isRooted s) ∧
      (∀ s t, s ≠ [] → clean (s ++ .char '/' :: t) = clean (clean s ++ .char '/' :: t)) ∧
      ∀ xs y, join (xs ++ [y]) = join [join xs, y] := by
  refine ⟨fun s => ⟨clean_eq_normalized s, normal_clean s, normal_iff_clean.1 (normal_clean s), isRooted_clean s⟩,
    ?_, ?_⟩
  · intro s t hne
    exact clean_append_slash hne t
  · exact join_concat

/-- The front of `a/../../b` climbs above where the path starts. -/
theorem clean_join_laws_climbing : "a/../..".text ≠ [] ∧
    clean "a/../../b".text = clean (clean "a/../..".text ++ .char '/' :: [.char 'b']) :=
  ⟨by decide, clean_join_laws.2.1 "a/../..".text [.char 'b'] (by decide)⟩

end Vfs.Path
