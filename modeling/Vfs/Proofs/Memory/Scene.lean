import Vfs.Proofs.Action
import Vfs.Proofs.Memory.Atomic
import Vfs.Proofs.Scene

/-!
# What is seen of a memory filesystem

The whole of a memory filesystem shows a scene (`Depicts`): under the key of each row stands what the scene has
there. Making directories fills the way, writing puts a file at its end, and taking out cuts; what is in the way
makes the call fail, and the store is left.
-/

namespace Vfs
set_option autoImplicit false

/-- What an entry is, whatever it is called. -/
def Entry.item (e : Entry) : Item := if e.directory then .directory else .file e.data

theorem Entry.item_eq_directory {e : Entry} : e.item = .directory ↔ e.directory = true := by
  rw [item]
  split
  · next kind => exact iff_of_true rfl kind
  · next kind => exact iff_of_false (fun same => by cases same) kind

theorem Entry.item_eq_file {e : Entry} {data : Bytes} : e.item = .file data ↔ e.directory = false ∧ e.data = data := by
  rw [item]
  split
  · next kind =>
    refine iff_of_false (fun same => by cases same) ?_
    rw [kind]
    rintro ⟨⟨⟩, -⟩
  · next kind => rw [Item.file.injEq, Bool.eq_false_iff, and_iff_right kind]

/-- What is said of an entry is what is said of its item. -/
theorem Entry.fact_item (e : Entry) (origin : Origin) : (e.info origin).fact = e.item.fact e.name := by
  rw [item]
  cases kind : e.directory with
  | true => simp [info, Info.fact, Item.fact, size, kind]
  | false => simp [info, Info.fact, Item.fact, size, kind]

namespace Memory
open Vfs.Path

variable {s : Store Entry} {S : Scene} {es row : List Text} {e name : Text} {data : Bytes} {item : Item}

/-- A store shows a scene to the view of the whole. -/
structure Depicts (s : Store Entry) (S : Scene) : Prop where
  sound : s.Sound
  labelled : Labelled s
  shows : ∀ es, Names es → (s.get? (ofReduced true es)).map Entry.item = S es

theorem Depicts.get? (depicts : Depicts s S) (names : Names es) (there : S es = some item) :
    ∃ e, s.get? (ofReduced true es) = some e ∧ e.item = item :=
  Option.map_eq_some_iff.1 ((depicts.shows es names).trans there)

theorem Depicts.missing (depicts : Depicts s S) (names : Names es) :
    s.get? (ofReduced true es) = none ↔ S es = none := by
  rw [← depicts.shows es names, Option.map_eq_none_iff]

theorem Depicts.isDirectory (depicts : Depicts s S) (names : Names es) :
    IsDirectory s (ofReduced true es) ↔ S es = some .directory := by
  constructor
  · rintro ⟨e, stored, kind⟩
    rw [← depicts.shows es names, stored, Option.map_some, Entry.item_eq_directory.2 kind]
  · intro there
    obtain ⟨e, stored, kind⟩ := depicts.get? names there
    exact ⟨e, stored, Entry.item_eq_directory.1 kind⟩

theorem Depicts.linked (depicts : Depicts s S) (linked : S.Linked) : Linked s := by
  intro k e stored proper
  obtain ⟨es, names, rfl⟩ := isKey_iff.1 (depicts.labelled.keys k e stored)
  rcases List.eq_nil_or_concat' es with rfl | ⟨front, b, rfl⟩
  · exact absurd rfl proper
  · rw [parent_ofReduced names, List.dropLast_concat, depicts.isDirectory (names_append.1 names).1]
    apply linked.above front b
    intro missing
    rw [(depicts.missing names).2 missing] at stored
    cases stored

/-! ## Making directories -/

/-- The levels on a way have the keys of its beginnings. -/
theorem key_of_mem_levels (names : Names es) {level : Level}
    (member : level ∈ levels [.char '/'] (ofReduced false es)) :
    ∃ front, front <+: es ∧ level.key = ofReduced true front :=
  (exists_level_iff names_nil names).1 ⟨level, member, rfl⟩

theorem mem_levels_of_isPrefix (names : Names es) (behind : row <+: es) :
    ∃ level ∈ levels [.char '/'] (ofReduced false es), level.key = ofReduced true row :=
  (exists_level_iff names_nil names).2 ⟨row, behind, rfl⟩

section
variable (depicts : Depicts s S) {mode : Int} {bits : Nat} (allowed : Mode.permissions mode = .ok bits)
include depicts allowed

/-- Making the directories of a free way fills it. -/
theorem mkdirAll_free (names : Names es) (free : ¬S.Blocked es) :
    ∃ s', mkdirAll [.char '/'] (ofReduced false es) mode s = (.ok (), s') ∧ Depicts s' (S.filled es) := by
  have valid : isValid (ofReduced false es) = true := isValid_iff_names.2 ⟨es, names, rfl⟩
  have made : (mkdirAll [.char '/'] (ofReduced false es) mode s).1 = .ok () := by
    rw [mkdirAll, if_pos valid]
    apply makeLevels_free allowed
    intro level member e stored
    obtain ⟨front, behind, key⟩ := key_of_mem_levels names member
    obtain ⟨back, rfl⟩ := behind
    have there := depicts.shows front (names_append.1 names).1
    rw [← key, stored] at there
    exact Entry.item_eq_directory.1 (Scene.directory_of_free free (List.prefix_append ..) there.symm)
  have grows := grows_mkdirAll [.char '/'] (ofReduced false es) mode s
  have labelled := depicts.labelled.made (made_mkdirAll .top (ofReduced false es) mode s)
  refine ⟨(mkdirAll [.char '/'] (ofReduced false es) mode s).2, Prod.ext made rfl, grows.sound depicts.sound,
    labelled, ?_⟩
  intro row hr
  by_cases behind : row <+: es
  · -- Every level of the way is a directory now; what was there before is still there.
    have level : IsDirectory (mkdirAll [.char '/'] (ofReduced false es) mode s).2 (ofReduced true row) := by
      obtain ⟨level, member, key⟩ := mem_levels_of_isPrefix names behind
      rw [mkdirAll, if_pos valid] at made ⊢
      rw [← key]
      exact makeLevels_ok made level member
    obtain ⟨e, stored, kind⟩ := level
    rw [stored, Option.map_some, Entry.item_eq_directory.2 kind, Scene.filled]
    split
    · rfl
    · next there =>
      rw [not_and'] at there
      obtain ⟨item, found⟩ := Option.ne_none_iff_exists'.1 (there behind)
      rw [found, Scene.directory_of_free free behind found]
  · have left : (mkdirAll [.char '/'] (ofReduced false es) mode s).2.get? (ofReduced true row) =
        s.get? (ofReduced true row) := by
      rw [mkdirAll, if_pos valid]
      apply get?_makeLevels
      intro level member same
      obtain ⟨front, before, key⟩ := key_of_mem_levels names member
      obtain ⟨back, rfl⟩ := before
      rw [key] at same
      obtain rfl := ofReduced_inj (names_append.1 names).1 hr same
      exact behind (List.prefix_append ..)
    rw [left, depicts.shows row hr, Scene.filled_of_not_isPrefix behind]

variable (linked : S.Linked)
include linked

/-- A file in the way stops the directories from being made. -/
theorem mkdirAll_blocked (names : Names es) (blocked : S.Blocked es) :
    ∃ fault, mkdirAll [.char '/'] (ofReduced false es) mode s = (.error fault, s) ∧ fault.isSystem = true := by
  obtain ⟨front, data, behind, file⟩ := blocked
  have valid : isValid (ofReduced false es) = true := isValid_iff_names.2 ⟨es, names, rfl⟩
  have hf : Names front := linked.named file
  have top : IsDirectory s (ofReduced true []) := by
    rw [depicts.isDirectory names_nil]
    have there : S ([] ++ front) ≠ none := by simp [file]
    apply linked.onWay _ there
    rintro rfl
    exact linked.top data file
  cases made : (mkdirAll [.char '/'] (ofReduced false es) mode s).1 with
  | error fault =>
    refine ⟨fault, Prod.ext made ?_, ?_⟩
    · exact whole_mkdirAll (depicts.linked linked) names_nil top _ mode fault made
    · rw [mkdirAll, if_pos valid] at made
      rw [makeLevels_error allowed made]
      exact Fault.isSystem_at ..
  | ok done =>
    -- The file would be a directory.
    obtain ⟨e, stored, item⟩ := depicts.get? hf file
    have kept := (grows_mkdirAll [.char '/'] (ofReduced false es) mode s).kept _ e stored
    obtain ⟨level, member, key⟩ := mem_levels_of_isPrefix names behind
    rw [mkdirAll, if_pos valid] at made kept
    obtain ⟨e', stored', kind⟩ := makeLevels_ok made level member
    rw [key, kept] at stored'
    obtain rfl := Option.some.inj stored'
    rw [(Entry.item_eq_file.1 item).1] at kind
    cases kind

/-! ## Writing -/

omit linked in
/-- A place where no directory stands, at the end of a free way, takes a file. -/
theorem create_free (names : Names (es ++ [e])) (free : ¬S.Blocked es) (place : S (es ++ [e]) ≠ some .directory) :
    ∃ f s', create [.char '/'] (ofReduced false (es ++ [e])) mode s = (.ok (ofReduced true (es ++ [e]), f), s') ∧
      f.directory = false ∧ (S (es ++ [e]) = none → f.data = []) ∧ ∀ row, Names row → row ≠ es ++ [e] →
        (s'.get? (ofReduced true row)).map Entry.item = S.filled es row := by
  have valid : isValid (ofReduced false (es ++ [e])) = true := isValid_iff_names.2 ⟨_, names, rfl⟩
  have key : key [.char '/'] (ofReduced false (es ++ [e])) = ofReduced true (es ++ [e]) := key_ofReduced names_nil names
  obtain ⟨s', made, shown⟩ := mkdirAll_free depicts allowed (names_append.1 names).1 free
  have target := shown.shows _ names
  rw [Scene.filled_snoc_end] at target
  rw [create, if_pos valid, parent_ofReduced names, List.dropLast_concat, made, key]
  dsimp only
  cases found : s'.get? (ofReduced true (es ++ [e])) with
  | some f =>
    have file : f.directory = false := by
      rw [found, Option.map_some] at target
      rw [← target] at place
      exact Bool.eq_false_iff.2 fun kind => place (by rw [Entry.item_eq_directory.2 kind])
    refine ⟨f, s', by simp [file], file, fun missing => ?_, fun row hr _ => shown.shows row hr⟩
    rw [found, missing] at target
    cases target
  | none =>
    simp only [allowed]
    refine ⟨_, _, rfl, rfl, fun _ => rfl, fun row hr other => ?_⟩
    rw [Store.get?_put, if_neg fun same => other (ofReduced_inj hr names same)]
    exact shown.shows row hr

omit linked in
theorem write_free (names : Names (es ++ [e])) (free : ¬S.Blocked es) (place : S (es ++ [e]) ≠ some .directory)
    (data : Bytes) :
    ∃ s', write [.char '/'] (ofReduced false (es ++ [e])) data mode s = (.ok data.length, s') ∧
      Depicts s' ((S.filled es).put (es ++ [e]) (.file data)) := by
  obtain ⟨f, s', made, file, -, kept⟩ := create_free depicts allowed names free place
  have run : write [.char '/'] (ofReduced false (es ++ [e])) data mode s =
      (.ok data.length, s'.put (ofReduced true (es ++ [e])) { f with data := data }) := by rw [write, made]
  have sound := sound_write depicts.sound [.char '/'] (ofReduced false (es ++ [e])) data mode
  have labelled := depicts.labelled.made (made_write .top (ofReduced false (es ++ [e])) data mode s)
  rw [run] at sound labelled
  refine ⟨_, run, sound, labelled, fun row hr => ?_⟩
  rw [Store.get?_put, Scene.put]
  by_cases same : row = es ++ [e]
  · rw [if_pos same, if_pos (congrArg _ same), Option.map_some]
    exact congrArg some (Entry.item_eq_file.2 ⟨file, rfl⟩)
  · rw [if_neg same, if_neg fun key => same (ofReduced_inj hr names key)]
    exact kept row hr same

/-- A file in the way, or a directory in the place, stops a file from being written. -/
theorem write_refused (names : Names (es ++ [e])) (refused : S.Blocked es ∨ S (es ++ [e]) = some .directory)
    (data : Bytes) :
    ∃ fault, write [.char '/'] (ofReduced false (es ++ [e])) data mode s = (.error fault, s) ∧
      fault.isSystem = true := by
  have valid : isValid (ofReduced false (es ++ [e])) = true := isValid_iff_names.2 ⟨_, names, rfl⟩
  by_cases blocked : S.Blocked es
  · obtain ⟨fault, stopped, system⟩ := mkdirAll_blocked depicts allowed linked (names_append.1 names).1 blocked
    refine ⟨fault, ?_, system⟩
    rw [write, create, if_pos valid, parent_ofReduced names, List.dropLast_concat, stopped]
  · have stored := (depicts.isDirectory names).2 (refused.resolve_left blocked)
    have stopped : create [.char '/'] (ofReduced false (es ++ [e])) mode s =
        (.error (Fault.invalid.at "Create".text (ofReduced false (es ++ [e]))), s) := by
      have whole : Names ([] ++ (es ++ [e])) := names
      exact create_stored (depicts.linked linked) whole stored mode
    refine ⟨_, ?_, Failure.isSystem_path () "Create".text (ofReduced false (es ++ [e])) Fault.invalid.error⟩
    rw [write, stopped]
    rfl

end

/-! ## Taking out -/

theorem removeAll_cut (depicts : Depicts s S) (names : Names es) :
    ∃ s', removeAll [.char '/'] (ofReduced false es) s = (.ok (), s') ∧ Depicts s' (S.cut es) := by
  have key : key [.char '/'] (ofReduced false es) = ofReduced true es := key_ofReduced names_nil names
  have run : removeAll [.char '/'] (ofReduced false es) s = (.ok (), s.removeAll (ofReduced true es)) := by
    rw [removeAll, if_pos (isValid_iff_names.2 ⟨es, names, rfl⟩), key]
  refine ⟨_, run, depicts.sound.removeAll _, depicts.labelled.removeAll depicts.sound _, fun row hr => ?_⟩
  have inside : (ofReduced true row = ofReduced true es ∨ Store.Under (ofReduced true es) (ofReduced true row)) ↔
      es <+: row := by
    rw [under_iff names hr]
    constructor
    · rintro (same | ⟨back, -, rfl⟩)
      · exact ofReduced_inj hr names same ▸ List.prefix_refl row
      · exact List.prefix_append ..
    · rintro ⟨back, rfl⟩
      by_cases same : back = []
      · left
        rw [same, List.append_nil]
      · exact .inr ⟨back, same, rfl⟩
  rw [Store.get?_removeAll depicts.sound, Scene.cut]
  by_cases behind : es <+: row
  · rw [if_pos (inside.2 behind), if_pos behind]
    rfl
  · rw [if_neg fun gone => behind (inside.1 gone), if_neg behind]
    exact depicts.shows row hr

/-! ## Asking -/

section
variable (depicts : Depicts s S) (names : Names es)
include depicts names

theorem locate_there (there : S es = some item) :
    ∃ e, locate [.char '/'] s (ofReduced false es) = .ok (ofReduced true es, e) ∧ e.item = item ∧
      e.name = rootName (ofReduced true es) := by
  obtain ⟨e, stored, same⟩ := depicts.get? names there
  have key : key [.char '/'] (ofReduced false es) = ofReduced true es := key_ofReduced names_nil names
  refine ⟨e, locate_eq_ok.2 ⟨isValid_iff_names.2 ⟨es, names, rfl⟩, key, key ▸ stored⟩, same, ?_⟩
  exact depicts.labelled.named _ e stored

theorem locate_missing (missing : S es = none) :
    locate [.char '/'] s (ofReduced false es) = .error (Fault.notExist.at "Open".text (ofReduced false es)) := by
  have key : key [.char '/'] (ofReduced false es) = ofReduced true es := key_ofReduced names_nil names
  rw [locate, if_pos (isValid_iff_names.2 ⟨es, names, rfl⟩), key, (depicts.missing names).2 missing]

end

end Memory

end Vfs
