import Vfs.Proofs.Filesystem.Pouring
import Vfs.Proofs.Memory.Making

/-!
# Putting a file

Writing a file and creating one differ in the content alone: both make the directories above the name and put a file
under it, the one that stood there or a new one (`Filed`). Both are refused by a file where a directory above the name
would be, which is told by the directory, and otherwise by a name that no file can have, which is told by the name
(`writes_files`). The name of the view itself is none: its own directory is above it.
-/

namespace Vfs.Memory
set_option autoImplicit false
open Vfs.Path Session

/-- A file stands where a directory above a name would. -/
def View.Barred (view : View) (w : World) (name : Text) : Prop :=
  ∃ p e, AtOrBelow p (parent name) ∧ view.stored? w p = some e ∧ e.directory = false

/-- Between two stores, the directories above a name were made, and under the name a file was put that holds `data`,
the one that stood there or a new one. -/
structure Filed (root name : Text) (bits : Nat) (data : Bytes) (s t : Store Entry) : Prop where
  above : ∃ u, Paved root (AtOrBelow · (parent name)) bits s u ∧ ∀ k, k ≠ key root name → t.get? k = u.get? k
  file : t.get? (key root name) =
    some (((s.get? (key root name)).getD (.newFile (lastElement name) bits)).holding data)

/-- An action puts a file that holds `data` under a name, where it is found, read and told; `rest` is what else it does
to the world. A file above the name refuses it, and a name that no file can have. -/
structure PutsFile {α : Type} (fs : Filesystem) (action : Action α) (rest : World → World) (view : View)
    (name : Text) (bits : Nat) (data : Bytes) (w : World) : Prop where
  succeeds : (∃ a, (action w).1 = .ok a) ↔ isValid name = true ∧ name ≠ here ∧ ¬view.Barred w name ∧
    ∀ e, view.stored? w name = some e → e.directory = false
  refuses : ∀ fault, (action w).1 = .error fault →
    isValid name = true ∧ view.Barred w name ∧ fault = Fault.invalid.at "MkdirAll".text (parent name) ∨
      ¬(isValid name = true ∧ view.Barred w name) ∧ fault = Fault.invalid.at "Create".text name
  changes : ∀ a, (action w).1 = .ok a → ∃ t, (action w).2 = rest (withStore w view.volume t) ∧ t.Sound ∧
    Filed view.root name bits data (w.volume view.volume).store t
  found : ∀ a, (action w).1 = .ok a → ∃ info, (fs.stat name (action w).2).1 = .ok info ∧ info.directory = false ∧
    info.size = data.length ∧ info.mode = ((view.stored? w name).map (·.mode)).getD (Mode.regular ||| bits)
  reads : ∀ a, (action w).1 = .ok a → (fs.read name (action w).2).1 = .ok data

/-- Writing puts a file with the data that was handed over, and answers its length. Creating puts one with the content
that stood there, if any did, and answers a handle that collects what is written. -/
structure WritesFiles (fs : Filesystem) (view : View) (name : Text) (data : Bytes) (mode : Int) (bits : Nat)
    (w : World) : Prop where
  write : PutsFile fs (fs.write name data mode) id view name bits data w
  length : ∀ n, (fs.write name data mode w).1 = .ok n → n = data.length
  create : PutsFile fs (fs.create name mode) (fun w => (newFile (.ofNew view name mode) w).2) view name bits
    (((view.stored? w name).map (·.data)).getD []) w
  handle : ∀ f, (fs.create name mode w).1 = .ok f → f = file w.serial w.memoryHandles.size (.ofNew view name mode)

variable {s t : Store Entry} {root name k : Text} {as bs : List Text} {mode : Int} {bits : Nat} {data : Bytes}
  {old : Entry} {w : World} {view : View} {n : Nat}

/-! ## The file in the store -/

section
variable (ha : Names as) (hb : Names bs) (allowed : Mode.permissions mode = .ok bits)
include ha hb allowed

/-- A file is created under a name but the root's, below directories, unless a directory stands there. -/
theorem create_ok_iff : (∃ r, (create (ofReduced true as) (ofReduced false bs) mode s).1 = .ok r) ↔
    bs ≠ [] ∧ (mkdirAll (ofReduced true as) (ofReduced false bs.dropLast) mode s).1 = .ok () ∧
      ∀ e, s.get? (ofReduced true (as ++ bs)) = some e → e.directory = false := by
  constructor
  · rintro ⟨⟨k, old⟩, made⟩
    have way := (create_way made).1
    rw [parent_ofReduced hb] at way
    refine ⟨proper_of_create ha hb made, way, fun e stored => ?_⟩
    have answer := create_answer ha hb allowed made
    rw [stored, Option.getD_some] at answer
    exact answer ▸ (create_eq_ok made).2.2.1
  · rintro ⟨proper, way, file⟩
    obtain ⟨old, made⟩ := create_passes ha hb allowed proper way file
    exact ⟨_, made⟩

/-- Beside the file, creating leaves what making the directories above it leaves. -/
theorem filed_of_create (made : (create (ofReduced true as) (ofReduced false bs) mode s).1 = .ok (k, old))
    (file : t.get? (ofReduced true (as ++ bs)) = some (old.holding data))
    (others : ∀ k, k ≠ ofReduced true (as ++ bs) →
      t.get? k = (create (ofReduced true as) (ofReduced false bs) mode s).2.get? k) :
    Filed (ofReduced true as) (ofReduced false bs) bits data s t := by
  have proper := proper_of_create ha hb made
  have answer := create_answer ha hb allowed made
  have last := label_row (names_append.2 ⟨ha, hb⟩)
  rw [label, if_neg (ofReduced_ne_here hb proper)] at last
  have way := (create_way made).1
  refine ⟨⟨(mkdirAll (ofReduced true as) (parent (ofReduced false bs)) mode s).2, ?_, fun k other => ?_⟩, ?_⟩
  · rw [parent_ofReduced hb] at way ⊢
    exact paved_mkdirAll ha hb.dropLast allowed way
  · rw [key_ofReduced ha hb] at other
    rw [others k other]
    have ended := created (ofReduced true as) (ofReduced false bs) mode s
    generalize create (ofReduced true as) (ofReduced false bs) mode s = r at ended made
    cases ended with
    | invalid fault | failed fault => cases made
    | found e valid way found kind => rfl
    | new bits valid way missing permitted => rw [Store.get?_put, key_ofReduced ha hb, if_neg other]
  · rw [key_ofReduced ha hb, last, ← answer]
    exact file

end

/-! ## The file in the world -/

section
variable (ha : Names as) (hb : Names bs) (allowed : Mode.permissions mode = .ok bits)
include ha hb allowed

theorem barred_iff : View.Barred ⟨n, ofReduced true as⟩ w (ofReduced false bs) ↔
    ¬(mkdirAll (ofReduced true as) (ofReduced false bs.dropLast) mode (w.volume n).store).1 = .ok () := by
  rw [mkdirAll_ok_iff_clear ha hb.dropLast allowed, View.Barred, parent_ofReduced hb]
  simp only [not_forall, Bool.not_eq_true, exists_prop]

end

section
variable {α : Type} {action : Action α} {rest : World → World}

/-- What an action does to the store of a view that puts a file with some content where creating puts one. -/
structure Fills (action : Action α) (rest : World → World) (n : Nat) (root name : Text) (mode : Int) (data : Bytes)
    (w : World) : Prop where
  error : ∀ fault, (create root name mode (w.volume n).store).1 = .error fault → (action w).1 = .error fault
  ok : ∀ k old, (create root name mode (w.volume n).store).1 = .ok (k, old) →
    ∃ a t, action w = (.ok a, rest (withStore w n t)) ∧ t.Sound ∧ t.get? (key root name) = some (old.holding data) ∧
      ∀ k, k ≠ key root name → t.get? k = (create root name mode (w.volume n).store).2.get? k

variable (fills : Fills action rest n root name mode data w)
include fills

/-- It succeeds where creating does. -/
theorem Fills.ok_iff : (∃ a, (action w).1 = .ok a) ↔ ∃ r, (create root name mode (w.volume n).store).1 = .ok r := by
  cases answered : (create root name mode (w.volume n).store).1 with
  | error fault => simp [fills.error fault answered]
  | ok r =>
    obtain ⟨a, t, run, -⟩ := fills.ok r.1 r.2 answered
    simp [run]

theorem Fills.refused {fault : Error} (refused : (action w).1 = .error fault) :
    (create root name mode (w.volume n).store).1 = .error fault := by
  cases answered : (create root name mode (w.volume n).store).1 with
  | ok r =>
    obtain ⟨a, t, run, -⟩ := fills.ok r.1 r.2 answered
    rw [run] at refused
    cases refused
  | error fault' => exact congrArg Except.error (Except.error.inj ((fills.error fault' answered).symm.trans refused))

theorem Fills.done {a : α} (answer : (action w).1 = .ok a) :
    ∃ k old t, (create root name mode (w.volume n).store).1 = .ok (k, old) ∧
      (action w).2 = rest (withStore w n t) ∧ t.Sound ∧ t.get? (key root name) = some (old.holding data) ∧
      ∀ k, k ≠ key root name → t.get? k = (create root name mode (w.volume n).store).2.get? k := by
  obtain ⟨⟨k, old⟩, created⟩ := fills.ok_iff.1 ⟨a, answer⟩
  obtain ⟨a', t, run, kept⟩ := fills.ok k old created
  exact ⟨k, old, t, created, congrArg Prod.snd run, kept⟩

end

/-- What puts a file where creating puts one, puts it where it is found. -/
theorem putsFile_of_fills {α : Type} {action : Action α} {rest : World → World} (ha : Names as)
    (allowed : Mode.permissions mode = .ok bits) (there : n < w.volumes.size)
    (fills : Fills action rest n (ofReduced true as) name mode data w)
    (volumes : ∀ w, (rest w).volumes = w.volumes) (id : Nat) :
    PutsFile (filesystem id ⟨n, ofReduced true as⟩) action rest ⟨n, ofReduced true as⟩ name bits data w := by
  by_cases valid : isValid name = true
  · obtain ⟨bs, hb, rfl⟩ := isValid_iff_names.1 valid
    have names := names_append.2 ⟨ha, hb⟩
    have proper : ofReduced false bs ≠ here ↔ bs ≠ [] := by
      refine ⟨?_, ofReduced_ne_here hb⟩
      rintro other rfl
      exact other rfl
    have store {t : Store Entry} (left : (action w).2 = rest (withStore w n t)) :
        ((action w).2.volume n).store = t := by
      rw [left, volume_eq (volumes _), store_withStore there]
    have key := key_ofReduced ha hb
    constructor
    · rw [fills.ok_iff, create_ok_iff ha hb allowed, barred_iff ha hb allowed, not_not, stored?_row names,
        and_iff_right valid, proper]
    · intro fault refused
      rw [barred_iff ha hb allowed, ← parent_ofReduced hb]
      -- What bars the way is told by the directory above, all else by the name.
      rcases create_error allowed (fills.refused refused) with ⟨-, stopped⟩ | ⟨way, rfl⟩
      · refine .inl ⟨valid, ?_, mkdirAll_error allowed stopped⟩
        rw [stopped]
        intro passed
        cases passed
      · exact .inr ⟨fun stopped => stopped.2 (way valid), rfl⟩
    · intro a answer
      obtain ⟨k, old, t, created, left, sound, file, others⟩ := fills.done answer
      rw [key] at file others
      exact ⟨t, left, sound, filed_of_create ha hb allowed created file others⟩
    · intro a answer
      obtain ⟨k, old, t, created, left, -, file, -⟩ := fills.done answer
      have kind := (create_eq_ok created).2.2.1
      have answer := create_answer ha hb allowed created
      rw [key, ← store left, ← stored?_row names] at file
      obtain ⟨origin, told⟩ := stat_stored file
      refine ⟨_, congrArg Prod.fst told, kind, ?_, ?_⟩
      · simp [Entry.info, Entry.size, Entry.holding, kind]
      · rw [stored?_row names]
        cases stood : (w.volume n).store.get? (ofReduced true (as ++ bs)) with
        | none | some o =>
          rw [stood] at answer
          rw [answer]
          rfl
    · intro a answer
      obtain ⟨k, old, t, created, left, -, file, -⟩ := fills.done answer
      rw [key, ← store left] at file
      exact (content_row names).2 ⟨_, file, (create_eq_ok created).2.2.1, rfl⟩
  · have stopped : create (ofReduced true as) name mode (w.volume n).store =
        (.error (Fault.invalid.at "Create".text name), (w.volume n).store) := by rw [create, if_neg valid]
    have answered := fills.error _ (congrArg Prod.fst stopped)
    have never (a : α) : (action w).1 ≠ .ok a := by
      rw [answered]
      intro same
      cases same
    constructor
    · exact iff_of_false (not_exists.2 never) fun free => valid free.1
    · intro fault refused
      rw [answered] at refused
      exact .inr ⟨fun both => valid both.1, (Except.error.inj refused).symm⟩
    · exact fun a answer => absurd answer (never a)
    · exact fun a answer => absurd answer (never a)
    · exact fun a answer => absurd answer (never a)

/-! ## Writing and creating -/

theorem more_write (root name : Text) (data : Bytes) (mode : Int) (k : Text) (stored : (s.get? k).isSome = true) :
    ((write root name data mode s).2.get? k).isSome = true := by
  have more := (grows_create root name mode s).more k stored
  rcases write_cases root name data mode s with ⟨fault, -, eq⟩ | ⟨e, -, eq⟩
  · rw [eq]
    exact more
  · rw [eq, Store.get?_put]
    split
    · rfl
    · exact more

section
variable (sound : (w.volume n).store.Sound) (root name : Text) (mode : Int) (id : Nat)
include sound

theorem run_write (data : Bytes) : (filesystem id ⟨n, root⟩).write name data mode w =
    ((write root name data mode (w.volume n).store).1.map Int.ofNat,
      withStore w n (write root name data mode (w.volume n).store).2) := by
  have asked : (filesystem id ⟨n, root⟩).write name data mode w = change ⟨n, root⟩ (fun root s =>
      ((write root name data mode s).1.map Int.ofNat, (write root name data mode s).2)) w := rfl
  rw [asked]
  exact change_adding rfl sound (sound_write sound root name data mode) (more_write root name data mode)

theorem fills_write (data : Bytes) :
    Fills ((filesystem id ⟨n, root⟩).write name data mode) (fun w => w) n root name mode data w := by
  have run := run_write sound root name mode id data
  constructor
  · intro fault refused
    rcases write_cases root name data mode (w.volume n).store with ⟨fault', stopped, eq⟩ | ⟨e, made, -⟩
    · obtain rfl := Except.error.inj (refused.symm.trans stopped)
      rw [run, eq]
      rfl
    · rw [refused] at made
      cases made
  · intro k old made
    have sound' := sound_write sound root name data mode
    rcases write_cases root name data mode (w.volume n).store with ⟨fault, stopped, -⟩ | ⟨e, made', eq⟩
    · rw [stopped] at made
      cases made
    · obtain ⟨-, rfl⟩ := Prod.mk.inj (Except.ok.inj (made.symm.trans made'))
      rw [eq] at run sound'
      refine ⟨_, _, run, sound', by rw [Store.get?_put, if_pos rfl]; rfl, fun k other => ?_⟩
      rw [Store.get?_put, if_neg other]

theorem fills_create (own : ∀ k old, (create root name mode (w.volume n).store).1 = .ok (k, old) → old.data = data) :
    Fills ((filesystem id ⟨n, root⟩).create name mode)
      (fun w => (newFile (.ofNew ⟨n, root⟩ name mode) w).2) n root name mode data w := by
  have grows := grows_create root name mode (w.volume n).store
  have made : change ⟨n, root⟩ (fun root => create root name mode) w =
      ((create root name mode (w.volume n).store).1, withStore w n (create root name mode (w.volume n).store).2) :=
    change_adding rfl sound (grows.sound sound) grows.more
  have run : (filesystem id ⟨n, root⟩).create name mode w = _ := createFile_eq ⟨n, root⟩ name mode w
  rw [made] at run
  dsimp only at run
  constructor
  · intro fault refused
    rw [refused] at run
    rw [run]
  · intro k old created
    obtain ⟨-, rfl, -, stored⟩ := create_eq_ok created
    rw [created] at run
    refine ⟨_, _, run, grows.sound sound, ?_, fun k other => rfl⟩
    rw [stored, ← own _ _ created]
    rfl

end

/-- **A file is put under a name, by writing it or creating it**, in every world and through every view whose root is
spelled as keys are. -/
theorem writes_files (sound : (w.volume view.volume).store.Sound) (there : view.volume < w.volumes.size)
    (isKey : IsKey view.root) (allowed : Mode.permissions mode = .ok bits) (id : Nat) (name : Text) (data : Bytes) :
    WritesFiles (filesystem id view) view name data mode bits w := by
  obtain ⟨n, root⟩ := view
  obtain ⟨as, ha, rfl⟩ := isKey_iff.1 isKey
  -- What is created holds what stood there.
  have own (k : Text) (old : Entry)
      (made : (create (ofReduced true as) name mode (w.volume n).store).1 = .ok (k, old)) :
      old.data = ((View.stored? ⟨n, ofReduced true as⟩ w name).map (·.data)).getD [] := by
    obtain ⟨bs, hb, rfl⟩ := isValid_iff_names.1 (create_eq_ok made).1
    rw [stored?_row (names_append.2 ⟨ha, hb⟩), create_answer ha hb allowed made]
    cases (w.volume n).store.get? (ofReduced true (as ++ bs)) with
    | none | some o => rfl
  have created := fills_create sound (ofReduced true as) name mode id own
  constructor
  · exact putsFile_of_fills ha allowed there (fills_write sound _ name mode id data) (fun _ => rfl) id
  · intro count answer
    rw [run_write sound] at answer
    rcases write_cases (ofReduced true as) name data mode (w.volume n).store with ⟨fault, -, eq⟩ | ⟨e, -, eq⟩
    · rw [eq] at answer
      cases answer
    · rw [eq] at answer
      exact (Except.ok.inj answer).symm
  · exact putsFile_of_fills ha allowed there created (fun _ => rfl) id
  · intro f answer
    obtain ⟨⟨k, old⟩, made⟩ := created.ok_iff.1 ⟨f, answer⟩
    have run : (filesystem id ⟨n, ofReduced true as⟩).create name mode w = _ :=
      createFile_eq ⟨n, ofReduced true as⟩ name mode w
    rw [made] at run
    rw [run] at answer
    exact (Except.ok.inj answer).symm

theorem writes_files_nested :
    nested.store.Sound ∧ 0 < nested.world.volumes.size ∧ IsKey [.char '/'] ∧ Mode.permissions 0o640 = .ok 0o640 ∧
      WritesFiles (filesystem 1 ⟨0, [.char '/']⟩) ⟨0, [.char '/']⟩ "a/b/f".text [104, 105] 0o640 0o640
        nested.world := by
  obtain ⟨-, sound, -⟩ := invariant_reached reached_nested
  have there : 0 < nested.world.volumes.size := by decide +kernel
  have allowed : Mode.permissions 0o640 = .ok 0o640 := by decide
  exact ⟨sound, there, .inl rfl, allowed,
    @writes_files 0o640 0o640 nested.world ⟨0, [.char '/']⟩ sound there (.inl rfl) allowed 1 _ _⟩

/-- A file that stands under the name of the root of a view. -/
def rootFile : World := (start.after [.on 0 (.write "d".text [] 0o644)]).world

/-- Through a view of `/.` the directories above a file are made under keys that no name leads to. Through a view of a
file the name of the file itself is refused by the directory, though no other name leads to it. -/
theorem not_writes_files :
    (¬∀ (w : World) (view : View) (name : Text) (data : Bytes), (w.volume view.volume).store.Sound →
      Formed (w.volume view.volume).store → IsDirectory (w.volume view.volume).store view.root →
      WritesFiles (filesystem 1 view) view name data 0o644 0o644 w) ∧
    ((filesystem 1 ⟨0, "/d".text⟩).write here [] 0o644 rootFile).1 =
      .error (Fault.invalid.at "MkdirAll".text here) ∧ ∀ p, AtOrBelow p here → p = here := by
  refine ⟨fun writes => ?_, by decide +kernel, fun p within => ?_⟩
  · have writes := (writes dotted ⟨0, "/.".text⟩ "x/y".text [104, 105] sound_dotted formed_dotted
      (by decide +kernel)).write
    have answer : ((filesystem 1 ⟨0, "/.".text⟩).write "x/y".text [104, 105] 0o644 dotted).1 = .ok 2 := by
      decide +kernel
    have missing : (((filesystem 1 ⟨0, "/.".text⟩).write "x/y".text [104, 105] 0o644 dotted).2.volume 0).store.get?
        "/x".text = none := by decide +kernel
    obtain ⟨t, left, -, filed⟩ := writes.changes 2 answer
    obtain ⟨u, paved, others⟩ := filed.above
    have made := paved.made "x".text ⟨by decide, here, by decide, rfl⟩ (by decide +kernel)
    have stored := others (key "/.".text "x".text) (by decide)
    have there : 0 < dotted.volumes.size := by decide +kernel
    have leads : key "/.".text "x".text = "/x".text := by decide
    rw [left, id, store_withStore there, ← leads, stored, made] at missing
    cases missing
  · obtain ⟨front, behind, rfl⟩ := (atOrBelow_row names_nil).1 within
    rw [List.prefix_nil.1 behind]
    rfl

end Vfs.Memory
