import Mathlib.Data.List.Infix
import Vfs.Memory.Key
import Vfs.Proofs.Path.Names
import Vfs.Proofs.Store.Row

/-!
# Keys as rows of names

The root of a filesystem in memory is `/` or the key of a directory seen from another root, and so
always a row of names behind a slash (`IsRoot.names`). Seen from such a root, the key of a name is the
root's row with the name's row behind it (`key_ofReduced`), the keys on the way are its beginnings, and
the keys of a subtree are the longer rows that begin alike (`under_iff`).
-/

namespace Vfs.Memory
set_option autoImplicit false
open Vfs.Path

variable {as bs es : List Text} {e root : Text}

/-- The root keys that filesystems in memory are given: `/`, and the key of a directory seen from
another root. -/
inductive IsRoot : Text → Prop where
  | top : IsRoot [.char '/']
  | sub {root dir : Text} : IsRoot root → isValid dir = true → IsRoot (key root dir)

theorem key_ofReduced (ha : Names as) (hb : Names bs) :
    key (ofReduced true as) (ofReduced false bs) = ofReduced true (as ++ bs) := by
  by_cases same : bs = []
  · subst same
    have way : ∃ p, attach (ofReduced true as) here = .char '/' :: p ∧ elements p = as ++ [here] := by
      have alone : elements here = [here] := elements_of_no_slash (by decide)
      by_cases top : as = []
      · exact ⟨here, by rw [top]; rfl, by rw [top]; exact alone⟩
      · refine ⟨joined as ++ .char '/' :: here, ?_, ?_⟩
        · have ends := getLast?_ofReduced (r := true) ha.pieces top
          rw [attach, if_neg (by decide), if_neg (by simpa [ofReduced_rooted] using ends)]
          rfl
        · rw [elements_append, ha.elements_joined top, alone]
    obtain ⟨p, attached, cut⟩ := way
    rw [key, ofReduced_nil, attached, clean_slash, cut, List.foldl_append, foldl_push_names ha]
    simp [push_here]
  · rw [key, ofReduced_relative same, attach_joined ha.pieces hb.pieces same (Or.inl rfl),
      clean_ofReduced (names_append.2 ⟨ha, hb⟩)]

/-- A view's own name leads to its root. -/
theorem key_here (ha : Names as) : key (ofReduced true as) here = ofReduced true as := by
  rw [← ofReduced_nil, key_ofReduced ha names_nil, List.append_nil]

theorem IsRoot.names (h : IsRoot root) : ∃ as, Names as ∧ root = ofReduced true as := by
  induction h with
  | top => exact ⟨[], names_nil, rfl⟩
  | sub _ valid ih =>
    obtain ⟨as, ha, rfl⟩ := ih
    obtain ⟨bs, hb, rfl⟩ := isValid_iff_names.1 valid
    exact ⟨as ++ bs, names_append.2 ⟨ha, hb⟩, key_ofReduced ha hb⟩

/-- Every row of names is that of a root. -/
theorem isRoot_ofReduced (ha : Names as) : IsRoot (ofReduced true as) := by
  have top : key [.char '/'] (ofReduced false as) = ofReduced true as := key_ofReduced names_nil ha
  exact top ▸ IsRoot.sub .top (isValid_iff_names.2 ⟨as, ha, rfl⟩)

/-- The directory one level down. -/
theorem attach_piece (ha : Pieces as) (he : Pieces [e]) :
    attach (ofReduced true as) e = ofReduced true (as ++ [e]) := by
  have down := attach_joined (r := true) ha he (by simp) (Or.inl rfl)
  rwa [joined_singleton] at down

/-- The levels on the way down have the beginnings of the row for keys. -/
theorem deeper_cons (ha : Pieces as) (he : Pieces [e]) (es : List Text) :
    deeper (ofReduced true as) (e :: es) =
      ⟨ofReduced true (as ++ [e]), e⟩ :: deeper (ofReduced true (as ++ [e])) es := by
  rw [deeper, attach_piece ha he]

theorem levels_ofReduced (hb : Names bs) :
    levels root (ofReduced false bs) = ⟨root, rootName root⟩ :: deeper root bs := by
  rw [levels]
  congr 1
  by_cases empty : bs = []
  · subst empty; rfl
  · rw [if_neg (ofReduced_ne_here hb empty), ofReduced_relative empty, hb.elements_joined empty]

/-- The keys on the way down, the first one included, are those of the beginnings of the row. -/
theorem keys_deeper (pieces : Pieces (as ++ bs)) :
    ofReduced true as :: (deeper (ofReduced true as) bs).map Level.key =
      bs.inits.map fun front => ofReduced true (as ++ front) := by
  induction bs generalizing as with
  | nil => rw [List.append_nil] at pieces; simp [deeper]
  | cons b bs ih =>
    have whole : Pieces ((as ++ [b]) ++ bs) := by rwa [List.append_assoc]
    have down := (pieces_append.1 whole).1
    rw [deeper_cons (pieces_append.1 pieces).1 (pieces_append.1 down).2, List.map_cons, ih whole, List.inits_cons,
      List.map_cons, List.map_map, List.append_nil]
    congr 2
    funext front
    exact congrArg (ofReduced true) (List.append_assoc ..)

/-- The keys on the way down are longer and longer beginnings of the whole row. -/
theorem key_of_mem_deeper {level : Level} (pieces : Pieces (as ++ bs))
    (member : level ∈ deeper (ofReduced true as) bs) :
    ∃ front back, front ≠ [] ∧ bs = front ++ back ∧ level.key = ofReduced true (as ++ front) := by
  induction bs generalizing as with
  | nil => exact absurd member List.not_mem_nil
  | cons b bs ih =>
    have whole : Pieces ((as ++ [b]) ++ bs) := by rwa [List.append_assoc]
    have down := (pieces_append.1 whole).1
    rw [deeper_cons (pieces_append.1 pieces).1 (pieces_append.1 down).2] at member
    rcases List.mem_cons.1 member with rfl | later
    · exact ⟨[b], bs, by simp, rfl, rfl⟩
    · obtain ⟨front, back, -, rfl, key⟩ := ih whole later
      exact ⟨b :: front, back, by simp, rfl, by rw [key, List.append_assoc]; rfl⟩

theorem keys_levels (ha : Names as) (hb : Names bs) :
    (levels (ofReduced true as) (ofReduced false bs)).map Level.key =
      bs.inits.map fun front => ofReduced true (as ++ front) := by
  rw [levels_ofReduced hb, List.map_cons]
  exact keys_deeper (names_append.2 ⟨ha, hb⟩).pieces

/-- The keys of the levels down to a name are those of the beginnings of its row. -/
theorem exists_level_iff {k : Text} (ha : Names as) (hb : Names bs) :
    (∃ level ∈ levels (ofReduced true as) (ofReduced false bs), level.key = k) ↔
      ∃ front, front <+: bs ∧ k = ofReduced true (as ++ front) := by
  rw [← List.mem_map, keys_levels ha hb, List.mem_map]
  simp only [List.mem_inits, eq_comm]

theorem mem_levels (ha : Names as) (hb : Names bs) :
    ∃ level ∈ levels (ofReduced true as) (ofReduced false bs), level.key = ofReduced true (as ++ bs) :=
  (exists_level_iff ha hb).2 ⟨bs, List.prefix_refl bs, rfl⟩

/-- The name an entry is stored under is the last name of its row. -/
theorem rootName_ofReduced (he : Names [e]) (es : List Text) : rootName (ofReduced true (es ++ [e])) = e := by
  have ordinary : e ≠ [] := he.ne_nil (List.mem_cons_self ..)
  rw [rootName, lastElement_ofReduced (he.no_slash e (List.mem_cons_self ..))]
  cases e with
  | nil => exact absurd rfl ordinary
  | cons c e => rfl

/-- Each level on the way down is named by its key. -/
theorem name_of_mem_deeper {level : Level} (names : Names (as ++ bs))
    (member : level ∈ deeper (ofReduced true as) bs) : level.name = rootName level.key := by
  induction bs generalizing as with
  | nil => exact absurd member List.not_mem_nil
  | cons b bs ih =>
    have whole : Names ((as ++ [b]) ++ bs) := by rwa [List.append_assoc]
    have down := (names_append.1 whole).1
    rw [deeper_cons (names_append.1 names).1.pieces (names_append.1 down).2.pieces] at member
    rcases List.mem_cons.1 member with rfl | later
    · exact (rootName_ofReduced (names_append.1 down).2 as).symm
    · exact ih whole later

theorem name_of_mem_levels {level : Level} (ha : Names as) (hb : Names bs)
    (member : level ∈ levels (ofReduced true as) (ofReduced false bs)) : level.name = rootName level.key := by
  rw [levels_ofReduced hb] at member
  rcases List.mem_cons.1 member with rfl | later
  · rfl
  · exact name_of_mem_deeper (names_append.2 ⟨ha, hb⟩) later

theorem branch_ofReduced (ha : Names as) (hne : as ≠ []) :
    Store.branch (ofReduced true as) = ofReduced true as ++ [.char '/'] :=
  if_neg (getLast?_ofReduced ha.pieces hne)

theorem branch_append (ha : Names as) (hne : bs ≠ []) :
    ofReduced true (as ++ bs) = Store.branch (ofReduced true as) ++ joined bs := by
  by_cases top : as = []
  · subst top; rfl
  · rw [branch_ofReduced ha top, ofReduced_append hne top, List.append_assoc]
    rfl

/-- What stands behind the branch of a root is the name seen from it. -/
theorem relative_branch (root rest : Text) : relative root (Store.branch root ++ rest) = rest := by
  rw [relative, if_pos (List.isPrefixOf_iff_prefix.2 (List.prefix_append ..)), List.drop_left]

/-- The keys below a directory are the rows that begin with its row and are longer. -/
theorem under_iff (ha : Names as) (hb : Names bs) :
    Store.Under (ofReduced true as) (ofReduced true bs) ↔ ∃ cs, cs ≠ [] ∧ bs = as ++ cs := by
  constructor
  · rintro ⟨apart, rest, split⟩
    by_cases top : as = []
    · subst top
      exact ⟨bs, fun empty => apart (by rw [empty]), rfl⟩
    · -- Both sides cut at their slashes: the row of `as` comes first.
      rw [branch_ofReduced ha top, List.append_assoc, List.singleton_append] at split
      have rows := congrArg elements split
      rw [elements_append, elements_rooted ha top] at rows
      refine ⟨elements rest, elements_ne_nil rest, ?_⟩
      by_cases empty : bs = []
      · subst empty
        have first : as ++ elements rest = [[]] := (List.cons.inj rows).2
        obtain ⟨a, more, row⟩ := List.exists_cons_of_ne_nil top
        rw [row] at first ha
        exact absurd (List.cons.inj first).1 (ha.ne_nil (List.mem_cons_self ..))
      · rw [elements_rooted hb empty] at rows
        exact (List.cons.inj rows).2.symm
  · rintro ⟨cs, hne, rfl⟩
    refine ⟨fun same => ?_, ?_⟩
    · have rows := ofReduced_inj hb ha same
      exact hne (by simpa using rows)
    · rw [branch_append ha hne]
      exact List.prefix_append ..

end Vfs.Memory
