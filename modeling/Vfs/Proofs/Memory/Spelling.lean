import Vfs.Proofs.Memory.Atomic
import Vfs.Proofs.Memory.Independence

/-!
# The keys that names of a view lead to

A root is spelled as the keys of a well-formed tree are: `/`, or a valid name behind it. A name has its key behind
one row of elements, and the directories on the way to it are made behind one, too (`Fronts`). The two rows are the
same but for the root `/.`, whose directories are made behind `/.` while its names are found behind `/`. What a name
leads to, on either row, is in the subtree of the name (`Own`), and what names on two branches lead to is apart.
-/

namespace Vfs.Memory
set_option autoImplicit false
open Vfs.Path

/-- How a root key is written: `/`, or `/` and a valid name. -/
def Spelled (root : Text) : Prop := root = [.char '/'] ∨ ∃ name, isValid name = true ∧ root = .char '/' :: name

/-- The rows of elements that the keys seen from a root begin with: directories are made behind one, and names are
looked up behind the other. -/
structure Fronts (root : Text) (made found : List Text) : Prop where
  written : root = ofReduced true made
  pieces : Pieces made
  names : Names found
  key : ∀ bs, Names bs → key root (ofReduced false bs) = ofReduced true (found ++ bs)
  alike : made = found ∨ made = [here] ∧ found = []

variable {s : Store Entry} {as bs cs es front back made found : List Text} {b d : Text} {k root : Text}

theorem Formed.spelled (formed : Formed s) (stored : (s.get? k).isSome = true) : Spelled k := by
  obtain ⟨e, there⟩ := Option.isSome_iff_exists.1 stored
  exact formed.keys k e there

/-! ## Rows behind a root -/

theorem Spelled.fronts (spelled : Spelled root) : ∃ made found, Fronts root made found := by
  by_cases proper : root = ofReduced true [here]
  · refine ⟨[here], [], proper, pieces_here, names_nil, fun bs hb => ?_, .inr ⟨rfl, rfl⟩⟩
    by_cases top : bs = []
    · rw [proper, top]
      decide
    · -- Cleaning drops the dot, and nothing of the name.
      have pieces : Pieces (here :: bs) := pieces_append.2 ⟨pieces_here, hb.pieces⟩
      rw [proper, Memory.key, ofReduced_relative top, attach_joined pieces_here hb.pieces top (.inl rfl),
        ofReduced_rooted, clean_slash, List.singleton_append, pieces.elements_joined (by simp), List.foldl_cons,
        push_here, foldl_push_names hb, List.append_nil, List.reverse_reverse, List.nil_append]
  · have isKey : IsKey root := by
      rcases spelled with top | ⟨name, valid, same⟩
      · exact .inl top
      · exact .inr ⟨name, valid, fun dot => proper (by rw [same, dot]; rfl), same⟩
    obtain ⟨as, ha, rfl⟩ := isKey_iff.1 isKey
    exact ⟨as, as, rfl, ha.pieces, ha, fun bs hb => key_ofReduced ha hb, .inl rfl⟩

/-- A way down, and a way on from its end. -/
theorem deeper_append_eq (pieces : Pieces (as ++ front)) (back : List Text) :
    deeper (ofReduced true as) (front ++ back) =
      deeper (ofReduced true as) front ++ deeper (ofReduced true (as ++ front)) back := by
  induction front generalizing as with
  | nil => rw [List.append_nil]; rfl
  | cons e front ih =>
    have whole : Pieces ((as ++ [e]) ++ front) := by rwa [List.append_assoc]
    have down := pieces_append.1 (pieces_append.1 whole).1
    rw [List.cons_append, deeper_cons down.1 down.2, deeper_cons down.1 down.2, ih whole, List.append_assoc]
    rfl

section
variable (fronts : Fronts root made found)
include fronts

/-- The levels down to a name, cut at one of the directories on the way. -/
theorem Fronts.levels_append (names : Names (front ++ back)) :
    levels root (ofReduced false (front ++ back)) =
      levels root (ofReduced false front) ++ deeper (ofReduced true (made ++ front)) back := by
  have pieces : Pieces (made ++ front) := pieces_append.2 ⟨fronts.pieces, (names_append.1 names).1.pieces⟩
  rw [levels_ofReduced names, levels_ofReduced (names_append.1 names).1, fronts.written, deeper_append_eq pieces]
  rfl

/-- The levels down to a name are made behind the row of the root. -/
theorem Fronts.key_of_mem_levels (names : Names es) {level : Level}
    (member : level ∈ levels root (ofReduced false es)) :
    ∃ front, front <+: es ∧ level.key = ofReduced true (made ++ front) := by
  rw [levels_ofReduced names] at member
  rcases List.mem_cons.1 member with rfl | later
  · exact ⟨[], List.nil_prefix, by rw [List.append_nil, ← fronts.written]⟩
  · rw [fronts.written] at later
    obtain ⟨front, back, -, rfl, key⟩ := key_of_mem_deeper (pieces_append.2 ⟨fronts.pieces, names.pieces⟩) later
    exact ⟨front, List.prefix_append .., key⟩

end

/-! ## Subtrees of rows -/

/-- A key in the subtree of a row has its elements behind the row. -/
theorem InSubtree.row (pieces : Pieces es) (hne : es ≠ []) (member : InSubtree (ofReduced true es) k) :
    ∃ text, k = .char '/' :: text ∧ es <+: elements text := by
  rcases member with rfl | ⟨rest, rfl⟩
  · exact ⟨joined es, rfl, by simp [pieces.elements_joined hne]⟩
  · refine ⟨joined es ++ .char '/' :: rest, by rw [ofReduced_rooted]; simp, ?_⟩
    rw [elements_append, pieces.elements_joined hne]
    exact List.prefix_append ..

/-- A key is in the subtree of a row only if one row begins with the other. -/
theorem InSubtree.ahead (pieces : Pieces es) (hne : es ≠ []) (pieces' : Pieces bs)
    (member : InSubtree (ofReduced true es) (ofReduced true bs)) : es <+: bs := by
  obtain ⟨text, same, behind⟩ := member.row pieces hne
  obtain rfl := (List.cons.inj same).2
  by_cases top : bs = []
  · -- The one element of the empty path is no piece.
    subst top
    obtain ⟨rest, cut⟩ := behind
    obtain ⟨e, es, rfl⟩ := List.exists_cons_of_ne_nil hne
    exact absurd (List.cons.inj cut).1 (pieces e (List.mem_cons_self ..)).1
  · rwa [pieces'.elements_joined top] at behind

/-- Two subtrees have a key in common only if one row begins with the other. -/
theorem InSubtree.comparable (pieces : Pieces es) (hne : es ≠ []) (pieces' : Pieces bs) (hne' : bs ≠ [])
    (member : InSubtree (ofReduced true es) k) (member' : InSubtree (ofReduced true bs) k) :
    es <+: bs ∨ bs <+: es := by
  obtain ⟨text, rfl, behind⟩ := member.row pieces hne
  obtain ⟨text', same, behind'⟩ := member'.row pieces' hne'
  obtain rfl := (List.cons.inj same).2
  exact List.prefix_or_prefix_of_prefix behind behind'

/-- A key in the subtree of a name, on the row where directories are made or on the one where names are found. -/
def Own (made found es : List Text) (k : Text) : Prop :=
  ∃ row ∈ [made, found], InSubtree (ofReduced true (row ++ es)) k

theorem own_row {row : List Text} (member : row ∈ [made, found]) (hne : es ≠ []) (rest : List Text) :
    Own made found es (ofReduced true (row ++ (es ++ rest))) := by
  refine ⟨row, member, ?_⟩
  rw [← List.append_assoc]
  exact inSubtree_row (by simp [hne]) rest

/-- The key of a name that begins with a row, and the keys below it, are in the subtree of the row. -/
theorem own_of_under (names : Names (found ++ es)) (hne : es ≠ []) {rest : List Text}
    (below : k = ofReduced true (found ++ (es ++ rest)) ∨ Store.Under (ofReduced true (found ++ (es ++ rest))) k) :
    Own made found es k := by
  have member : found ∈ [made, found] := by simp
  rcases below with rfl | under
  · exact own_row member hne rest
  · refine ⟨found, member, InSubtree.under (by simp [hne]) names ?_ under⟩
    rw [← List.append_assoc]
    exact inSubtree_row (by simp [hne]) rest

section
variable (fronts : Fronts root made found)
include fronts

theorem Fronts.pieces_row {row : List Text} (member : row ∈ [made, found]) : Pieces row := by
  simp only [List.mem_cons, List.not_mem_nil, or_false] at member
  rcases member with rfl | rfl
  · exact fronts.pieces
  · exact fronts.names.pieces

/-- The rows behind a root do not mix. -/
theorem Fronts.ahead {row row' : List Text} (member : row ∈ [made, found]) (member' : row' ∈ [made, found])
    (names : Names es) (hne : es ≠ []) (names' : Names bs) (behind : row ++ es <+: row' ++ bs) : es <+: bs := by
  rcases fronts.alike with rfl | ⟨rfl, rfl⟩
  · obtain rfl : row = made := by simpa using member
    obtain rfl : row' = row := by simpa using member'
    exact (List.prefix_append_right_inj _).1 behind
  · simp only [List.mem_cons, List.not_mem_nil, or_false] at member member'
    rcases member with rfl | rfl
    · rcases member' with rfl | rfl
      · exact (List.prefix_append_right_inj _).1 behind
      · have dot : here ∈ bs := behind.subset (List.mem_cons_self ..)
        exact absurd rfl (names'.ne_here dot)
    · rcases member' with rfl | rfl
      · obtain ⟨e, es, rfl⟩ := List.exists_cons_of_ne_nil hne
        have dot : e = here := (List.prefix_cons_iff.1 behind).elim (fun empty => by cases empty) fun first => by
          obtain ⟨t, same, -⟩ := first
          exact (List.cons.inj same).1
        exact absurd dot (names.ne_here (List.mem_cons_self ..))
      · exact behind

/-- What two names lead to is apart, unless one leads to the other. -/
theorem Fronts.comparable (names : Names es) (hne : es ≠ []) (names' : Names bs) (hne' : bs ≠ [])
    (own : Own made found es k) (own' : Own made found bs k) : es <+: bs ∨ bs <+: es := by
  obtain ⟨row, member, within⟩ := own
  obtain ⟨row', member', within'⟩ := own'
  have pieces := pieces_append.2 ⟨fronts.pieces_row member, names.pieces⟩
  have pieces' := pieces_append.2 ⟨fronts.pieces_row member', names'.pieces⟩
  rcases within.comparable pieces (by simp [hne]) pieces' (by simp [hne']) within' with ahead | ahead
  · exact .inl (fronts.ahead member member' names hne names' ahead)
  · exact .inr (fronts.ahead member' member names' hne' names ahead)

/-- A directory on the way to a name is in the subtree of another only if the other leads to it. -/
theorem Fronts.ahead_of_level (names : Names es) (hne : es ≠ []) (names' : Names bs)
    (own : Own made found es (ofReduced true (made ++ bs))) : es <+: bs := by
  obtain ⟨row, member, within⟩ := own
  have pieces := pieces_append.2 ⟨fronts.pieces_row member, names.pieces⟩
  have ahead := within.ahead pieces (by simp [hne]) (pieces_append.2 ⟨fronts.pieces, names'.pieces⟩)
  exact fronts.ahead member (List.mem_cons_self ..) names hne names' ahead

end

end Vfs.Memory
