import Vfs.Host.Filesystem
import Vfs.Proofs.Action
import Vfs.Proofs.Host.Changes
import Vfs.Proofs.Text.Order

/-!
# Asking a directory of a host

What a host says about the entries of a directory is what the scene has there: of one entry (`describe_eq`), of
the content of a file (`fileNumber`), and of all entries in a directory, by increasing name (`lists_describe`).
-/

namespace Vfs.Text
set_option autoImplicit false

/-- Different texts that are sorted increase. -/
theorem increasing_mergeSort {ts : List Text} (distinct : ts.Nodup) : (ts.mergeSort le).Pairwise (· < ·) := by
  have sorted : (ts.mergeSort le).Pairwise fun a b => le a b = true := by
    apply List.pairwise_mergeSort
    · intro a b c ab bc
      simp only [le, Bool.not_eq_true', decide_eq_false_iff_not, List.not_lt] at ab bc ⊢
      exact List.le_trans ab bc
    · intro a b
      simp only [le, Bool.or_eq_true, Bool.not_eq_true', decide_eq_false_iff_not, List.not_lt]
      exact List.le_total a b
  have apart : (ts.mergeSort le).Pairwise (· ≠ ·) := (List.mergeSort_perm ts le).nodup_iff.2 distinct
  apply sorted.imp₂ _ apart
  intro a b before other
  simp only [le, Bool.not_eq_true', decide_eq_false_iff_not] at before
  by_contra after
  exact other (eq_of_not_lt after before)

end Vfs.Text

namespace Vfs.Host
set_option autoImplicit false
open Vfs.Path

/-! ## What a host says -/

/-- What a host says of a mode word that fits. -/
theorem HostStat.make_eq (name : Text) {word : Nat} (size : Nat) (small : word < 0x100000000) :
    HostStat.make name word size (Instant.ofSeconds 0) =
      .ok ⟨name, if Mode.isDirectory word then 0 else size, word, Instant.ofSeconds 0⟩ := by
  have checked : Mode.check word = .ok word := by
    rw [Mode.check, if_neg (by omega), if_pos (by omega)]
    rfl
  have time : (Instant.ofSeconds 0).check = .ok (Instant.ofSeconds 0) := by decide
  rw [HostStat.make, checked, time]

variable {t : Tree} {S : Scene} {dir : Text} {r : Route} {es : List Text} {item : Item} {data : Bytes} {w : World}

namespace Depicts

section
variable (depicts : Depicts dir t S) (linked : S.Linked)
include depicts linked

/-- What stands at a row is found there. -/
theorem find (passes : r.Passes (rowOf dir ++ es)) (plain : es = [] ∨ r.slash = false) (there : S es = some item) :
    ∃ node, t.find r = .ok (rowOf dir ++ es, node) ∧ t.Shown (some node) (some item) := by
  obtain ⟨node, found, shown⟩ := depicts.found there
  refine ⟨node, Tree.find_eq passes (depicts.openAbove linked there) found ?_, shown⟩
  rcases plain with rfl | open'
  · cases item with
    | file data => exact absurd there (linked.top data)
    | directory =>
      obtain ⟨word, rfl, -⟩ := shown.isDirectory
      exact .inr ⟨word, rfl⟩
  · exact .inl open'

/-- What is said of an entry. -/
theorem stat (passes : r.Passes (rowOf dir ++ es)) (plain : es = [] ∨ r.slash = false) (there : S es = some item) :
    ∃ word size, t.stat r = .ok (word, size) ∧ ∀ name, ∃ said,
      HostStat.make name word size (Instant.ofSeconds 0) = .ok said ∧ ∀ id, (said.info id).fact = item.fact name := by
  obtain ⟨node, found, shown⟩ := depicts.find linked passes plain there
  rw [Tree.stat, found]
  cases item with
  | directory =>
    obtain ⟨word, rfl, free⟩ := shown.isDirectory
    refine ⟨word, 0, rfl, fun name => ⟨_, HostStat.make_eq name 0 free.small, fun id => ?_⟩⟩
    simp [HostStat.info, Info.fact, Item.fact, free.kind]
  | file data =>
    obtain ⟨number, rfl, -, content⟩ := shown.isFile
    have kind : Mode.isDirectory standardFile = false := by decide
    have small : standardFile < 0x100000000 := by decide
    refine ⟨standardFile, (t.content number).length, rfl, fun name => ⟨_, HostStat.make_eq name _ small, fun id => ?_⟩⟩
    simp [HostStat.info, Info.fact, Item.fact, kind, content]

/-- The content of a file. -/
theorem fileNumber (passes : r.Passes (rowOf dir ++ es)) (plain : es = [] ∨ r.slash = false)
    (there : S es = some (.file data)) : (t.fileNumber r).map t.content = .ok data := by
  obtain ⟨node, found, shown⟩ := depicts.find linked passes plain there
  obtain ⟨number, rfl, -, content⟩ := shown.isFile
  rw [Tree.fileNumber, found]
  exact congrArg Except.ok content

theorem fileNumber_none (passes : r.Passes (rowOf dir ++ es)) (plain : es = [] ∨ r.slash = false)
    (noFile : ∀ data, S es ≠ some (.file data)) :
    ∃ fault, (t.fileNumber r).map t.content = .error fault ∧ fault.kind.isSystem = true := by
  cases there : S es with
  | none =>
    obtain ⟨fault, lost, system⟩ := Tree.find_missing passes (depicts.missing.2 there)
    exact ⟨fault, by rw [Tree.fileNumber, lost]; rfl, system⟩
  | some item =>
    obtain ⟨node, found, shown⟩ := depicts.find linked passes plain there
    rw [Tree.fileNumber, found]
    cases item with
    | file data => exact absurd there (noFile data)
    | directory =>
      obtain ⟨word, rfl, free⟩ := shown.isDirectory
      exact ⟨isDirectory, by simp only [free.allows, if_true]; rfl, by decide⟩

/-- The names in a directory, by increasing name. -/
theorem list (passes : r.Passes (rowOf dir ++ es)) (plain : es = [] ∨ r.slash = false)
    (there : S es = some .directory) :
    ∃ cs, t.list r = .ok cs ∧ cs.Pairwise (· < ·) ∧ ∀ c, c ∈ cs ↔ S (es ++ [c]) ≠ none := by
  obtain ⟨node, found, shown⟩ := depicts.find linked passes plain there
  obtain ⟨word, rfl, free⟩ := shown.isDirectory
  refine ⟨(t.names (rowOf dir ++ es)).mergeSort Text.le, ?_, ?_, fun c => ?_⟩
  · rw [Tree.list, found]
    exact if_pos (free.allows _)
  · exact Text.increasing_mergeSort (Tree.nodup_names depicts.tidy _)
  · rw [List.mem_mergeSort, Tree.mem_names depicts.tidy, List.append_assoc]
    exact not_congr depicts.missing

theorem list_none (passes : r.Passes (rowOf dir ++ es)) (plain : es = [] ∨ r.slash = false)
    (noDirectory : S es ≠ some .directory) : ∃ fault, t.list r = .error fault ∧ fault.kind.isSystem = true := by
  cases there : S es with
  | none =>
    obtain ⟨fault, lost, system⟩ := Tree.find_missing passes (depicts.missing.2 there)
    exact ⟨fault, by rw [Tree.list, lost], system⟩
  | some item =>
    obtain ⟨node, found, shown⟩ := depicts.find linked passes plain there
    rw [Tree.list, found]
    cases item with
    | directory => exact absurd there noDirectory
    | file data =>
      obtain ⟨number, rfl, -⟩ := shown.isFile
      exact ⟨notDirectory, rfl, by decide⟩

end

end Depicts

/-! ## What a filesystem passes on -/

/-- A description makes a new number, and nothing else. -/
theorem describe_run (path name : Text) (w : World) : describe path name w =
    match w.tree.stat (.ofPath path) with
    | .error fault => (.error fault.error, w)
    | .ok (word, size) =>
      (((HostStat.make name word size (Instant.ofSeconds 0)).map fun s => s.info w.serial).mapError Fault.error,
        { w with serial := w.serial + 1 }) := by
  rw [describe, Action.bind_eq, ask]
  cases w.tree.stat (.ofPath path) with
  | error fault => rfl
  | ok told => rfl

namespace Depicts

section
variable (depicts : Depicts dir w.tree S) (linked : S.Linked)
include depicts linked

/-- An entry is described as the scene has it; only numbers are used up. -/
theorem describe_eq (there : S es = some item) (name : Text) :
    ∃ info k, describe (es.foldl attach dir) name w = (.ok info, { w with serial := k }) ∧
      info.fact = item.fact name := by
  have fits := depicts.fits es (by simp [there])
  obtain ⟨word, size, stated, told⟩ := depicts.stat linked fits.passes fits.plain_end there
  obtain ⟨said, made, fact⟩ := told name
  refine ⟨said.info w.serial, w.serial + 1, ?_, fact _⟩
  rw [describe_run, stated]
  dsimp only
  rw [made]
  rfl

/-- One entry of a directory after the other. -/
theorem mapM_describe {cs : List Text} (there : ∀ c ∈ cs, S (es ++ [c]) ≠ none) :
    ∃ infos k, (cs.mapM fun c => describe (attach (es.foldl attach dir) c) c) w = (.ok infos, { w with serial := k }) ∧
      infos.map Info.fact = cs.filterMap fun c => (S (es ++ [c])).map (Item.fact c) := by
  induction cs generalizing w with
  | nil => exact ⟨[], w.serial, rfl, rfl⟩
  | cons c cs ih =>
    obtain ⟨first, later⟩ := List.forall_mem_cons.1 there
    obtain ⟨item, found⟩ := Option.ne_none_iff_exists'.1 first
    obtain ⟨info, k, told, fact⟩ := depicts.describe_eq linked found c
    rw [List.foldl_append] at told
    have depicts₁ : Depicts dir { w with serial := k }.tree S := depicts
    obtain ⟨infos, k', rest, facts⟩ := ih depicts₁ later
    refine ⟨info :: infos, k', ?_, ?_⟩
    · rw [List.mapM_cons, Action.bind_eq]
      have step : describe (attach (es.foldl attach dir) c) c w = (.ok info, { w with serial := k }) := told
      rw [step]
      dsimp only
      rw [Action.bind_eq, rest]
      rfl
    · rw [List.map_cons, fact, facts, List.filterMap_cons, found]
      rfl

/-- The entries of a directory are listed as the scene has them. -/
theorem lists_describe {cs : List Text} (sorted : cs.Pairwise (· < ·)) (members : ∀ c, c ∈ cs ↔ S (es ++ [c]) ≠ none) :
    ∃ infos k, (cs.mapM fun c => describe (attach (es.foldl attach dir) c) c) w = (.ok infos, { w with serial := k }) ∧
      S.Lists es (infos.map Info.fact) := by
  obtain ⟨infos, k, ran, facts⟩ := depicts.mapM_describe linked fun c member => (members c).1 member
  have named {c : Text} {f : Fact} (told : f ∈ (S (es ++ [c])).map (Item.fact c)) : f.name = c := by
    obtain ⟨item, -, rfl⟩ := Option.map_eq_some_iff.1 told
    exact Item.name_fact c item
  refine ⟨infos, k, ran, ?_, fun f => ?_⟩
  · rw [facts]
    refine sorted.filterMap _ fun c c' before f told f' told' => ?_
    rwa [named told, named told']
  · rw [facts, List.mem_filterMap]
    constructor
    · rintro ⟨c, -, told⟩
      have own := named told
      obtain ⟨item, found, rfl⟩ := Option.map_eq_some_iff.1 told
      rw [own]
      exact ⟨item, found, rfl⟩
    · rintro ⟨item, found, same⟩
      refine ⟨f.name, (members _).2 (by simp [found]), ?_⟩
      rw [found, Option.map_some, ← same]

end

end Depicts

end Vfs.Host
