import Vfs.Proofs.Memory.Key
import Vfs.Proofs.Memory.Lookup
import Vfs.Proofs.Path.Valid

/-!
# Names and keys correspond

The key of a name is found in three ways: by cleaning the name behind the root, by going down from the root level by
level, and back again by taking the root away. The roots that filesystems in memory are given are the clean paths that
start at `/` (`isRoot_iff`), and seen from each of them the three ways agree: a key is the branch of its root with the
name behind it (`key_eq_branch`), so that names and the keys below a root correspond one to one, in the same order.
-/

namespace Vfs.Memory
set_option autoImplicit false
open Vfs.Path

variable {as bs : List Text} {name root : Text}

theorem exists_names_of_clean (rooted : isRooted root = true) (same : clean root = root) :
    ∃ as, Names as ∧ root = ofReduced true as := by
  obtain ⟨as, reduced, written, -⟩ := exists_clean root
  rw [rooted] at reduced written
  exact ⟨as, reduced.names, same ▸ written⟩

/-- The roots that filesystems in memory are given are the clean paths from `/`. -/
theorem isRoot_iff : IsRoot root ↔ isRooted root = true ∧ clean root = root := by
  constructor
  · intro isRoot
    obtain ⟨as, names, rfl⟩ := isRoot.names
    exact ⟨rfl, clean_ofReduced names⟩
  · rintro ⟨rooted, same⟩
    obtain ⟨as, names, rfl⟩ := exists_names_of_clean rooted same
    exact isRoot_ofReduced names

/-- The branch of a root is the root with a slash behind it, unless the root is the slash itself. -/
theorem branch_root (ha : Names as) :
    Store.branch (ofReduced true as) =
      if ofReduced true as = [.char '/'] then ofReduced true as else ofReduced true as ++ [.char '/'] := by
  by_cases top : as = []
  · subst top
    rfl
  · have other : ofReduced true as ≠ [.char '/'] := fun same => top (ofReduced_inj (r := true) ha names_nil same)
    rw [branch_ofReduced ha top, if_neg other]

/-- A key is the branch of its root with the name behind it. -/
theorem key_eq_branch (ha : Names as) (valid : isValid name = true) (proper : name ≠ here) :
    key (ofReduced true as) name = Store.branch (ofReduced true as) ++ name := by
  obtain ⟨bs, hb, rfl⟩ := isValid_iff_names.1 valid
  have hne : bs ≠ [] := by
    rintro rfl
    exact proper rfl
  rw [key_ofReduced ha hb, branch_append ha hne, ofReduced_relative hne]

theorem key_injective (ha : Names as) {a b : Text} (valid : isValid a = true) (valid' : isValid b = true)
    (same : key (ofReduced true as) a = key (ofReduced true as) b) : a = b := by
  obtain ⟨bs, hb, rfl⟩ := isValid_iff_names.1 valid
  obtain ⟨cs, hc, rfl⟩ := isValid_iff_names.1 valid'
  rw [key_ofReduced ha hb, key_ofReduced ha hc] at same
  rw [ofReduced_append_inj ha hb hc same]

/-- The names of the directories on the way to a name: the root first, then longer and longer beginnings of the
name, and the name itself last. -/
def onWay (name : Text) : List Text :=
  if name = here then [here] else (elements name).inits.map (ofReduced false)

theorem onWay_ofReduced (hb : Names bs) : onWay (ofReduced false bs) = bs.inits.map (ofReduced false) := by
  rw [onWay]
  by_cases empty : bs = []
  · rw [empty]
    rfl
  · rw [if_neg (ofReduced_ne_here hb empty), ofReduced_relative empty, hb.elements_joined empty]

/-- Going down level by level leads along the keys of the names on the way. -/
theorem keys_levels_eq (ha : Names as) (hb : Names bs) :
    (levels (ofReduced true as) (ofReduced false bs)).map Level.key =
      (onWay (ofReduced false bs)).map (key (ofReduced true as)) := by
  rw [keys_levels ha hb, onWay_ofReduced hb, List.map_map]
  apply List.map_congr_left
  intro front behind
  exact (key_ofReduced ha (hb.ahead ((List.mem_inits ..).1 behind))).symm

/-- Seen from a root, names and keys correspond. -/
structure Corresponds (root : Text) : Prop where
  own : key root here = root
  behind : ∀ name, isValid name = true → name ≠ here →
    key root name = (if root = [.char '/'] then root else root ++ [.char '/']) ++ name
  injective : ∀ a b, isValid a = true → isValid b = true → key root a = key root b → a = b
  back : ∀ name, isValid name = true → name ≠ here → relative root (key root name) = name
  ordered : ∀ a b, isValid a = true → isValid b = true → a ≠ here → b ≠ here →
    (key root a < key root b ↔ a < b)
  wayDown : ∀ name, isValid name = true → (levels root name).map Level.key = (onWay name).map (key root)
  views : ∀ dir, isValid dir = true → isRooted (key root dir) = true ∧ clean (key root dir) = key root dir ∧
    ∀ s root', sub root s dir = .ok root' ↔ root' = key root dir ∧ IsDirectory s (key root dir)

/-- **Names and keys correspond one to one**, seen from every clean path that starts at `/`, as all roots do that
filesystems in memory are given. -/
theorem corresponds_of_clean :
    (∀ root, IsRoot root → isRooted root = true ∧ clean root = root) ∧
      ∀ root, isRooted root = true → clean root = root → Corresponds root := by
  refine ⟨fun root => isRoot_iff.1, fun root rooted same => ?_⟩
  obtain ⟨as, ha, rfl⟩ := exists_names_of_clean rooted same
  constructor
  · exact key_here ha
  · intro name valid proper
    rw [← branch_root ha]
    exact key_eq_branch ha valid proper
  · intro a b
    exact key_injective ha
  · intro name valid proper
    rw [key_eq_branch ha valid proper, relative_branch]
  · intro a b valid valid' proper proper'
    rw [key_eq_branch ha valid proper, key_eq_branch ha valid' proper']
    exact Text.append_lt_append_iff
  · intro name valid
    obtain ⟨bs, hb, rfl⟩ := isValid_iff_names.1 valid
    exact keys_levels_eq ha hb
  · intro dir valid
    have inner := isRoot_iff.1 (.sub (isRoot_ofReduced ha) valid)
    refine ⟨inner.1, inner.2, fun s root' => sub_eq_ok.trans ⟨?_, ?_⟩⟩
    · rintro ⟨-, rfl, there⟩
      exact ⟨rfl, there⟩
    · rintro ⟨rfl, there⟩
      exact ⟨valid, rfl, there⟩

/-- Seen from `/r`, the name `a-b` comes before `a/x`, and so do their keys. -/
theorem corresponds_of_clean_nested :
    isRooted "/r".text = true ∧ clean "/r".text = "/r".text ∧ Corresponds "/r".text ∧
      (key "/r".text "a-b".text < key "/r".text "a/x".text ↔ "a-b".text < "a/x".text) := by
  have corresponds : Corresponds "/r".text := corresponds_of_clean.2 _ (by decide) (by decide)
  exact ⟨by decide, by decide, corresponds,
    corresponds.ordered _ _ (by decide) (by decide) (by decide) (by decide)⟩

end Vfs.Memory
