import Vfs.Filesystem.Copy
import Vfs.Proofs.Memory.Atomic

/-!
# Laying an entry

Copying lays an entry at the path it has: a directory is made there with its way, a file is created there and
filled, unless it has no content to fill it with. What stands there afterwards is told by the entry and by what
stood there before (`Entry.onto`). Nothing else changes but that the directories on the way are made, and only
a file on the way, or an entry of the other kind at the end, refuses it.
-/

namespace Vfs
set_option autoImplicit false

/-- The permission bits that an entry is copied with. -/
def Entry.copyBits (e : Entry) : Nat :=
  if Mode.permissionBits e.mode = 0 then Mode.standard else Mode.permissionBits e.mode

theorem Entry.copyMode_info (e : Entry) (origin : Origin) :
    Filesystem.copyMode (e.info origin) = (e.copyBits : Int) := by
  simp only [Filesystem.copyMode, Entry.info, Entry.copyBits]
  cases Mode.permissionBits e.mode with
  | zero => rfl
  | succ bits => rfl

theorem Mode.permissionBits_lt (word : Nat) : permissionBits word < 0x1000 :=
  Nat.lt_succ_of_le Nat.and_le_right

theorem Mode.permissions_permissionBits (word : Nat) :
    permissions (permissionBits word : Int) = .ok (permissionBits word) := by
  have small := permissionBits_lt word
  have again : permissionBits (permissionBits word) = permissionBits word := by
    rw [permissionBits, permissionBits, Nat.and_assoc, Nat.and_self]
  rw [permissions, check, if_neg (by omega), if_pos (by omega), Int.toNat_natCast]
  exact congrArg Except.ok again

theorem Entry.permissionBits_copyBits (e : Entry) : Mode.permissionBits e.copyBits = e.copyBits := by
  rw [copyBits]
  split
  · rfl
  · rw [Mode.permissionBits, Mode.permissionBits, Nat.and_assoc, Nat.and_self]

theorem Entry.permissions_copyBits (e : Entry) : Mode.permissions (e.copyBits : Int) = .ok e.copyBits := by
  rw [copyBits]
  split
  · rfl
  · exact Mode.permissions_permissionBits e.mode

/-- An entry that holds other content. -/
def Entry.holding (e : Entry) (data : Bytes) : Entry := { e with data := data }

/-- What is made where an entry is copied to and nothing stands. -/
def Entry.blank (e : Entry) (name : Text) : Entry :=
  if e.directory then .newDirectory name e.copyBits else .newFile name e.copyBits

/-- What stands where an entry was copied to, told by what stood there: no content leaves what was there. -/
def Entry.onto (e : Entry) (name : Text) (old : Option Entry) : Entry :=
  let base := old.getD (e.blank name)
  if e.data = [] then base else base.holding e.data

namespace Entry

variable {e : Entry} {name : Text} {old : Option Entry}

theorem directory_blank (e : Entry) (name : Text) : (e.blank name).directory = e.directory := by
  rw [blank]
  split
  · next kind => rw [kind]; rfl
  · next kind => rw [Bool.eq_false_iff.2 kind]; rfl

theorem data_blank (e : Entry) (name : Text) : (e.blank name).data = [] := by
  rw [blank]
  split
  · rfl
  · rfl

theorem directory_onto (same : ∀ o, old = some o → o.directory = e.directory) :
    (e.onto name old).directory = e.directory := by
  have base : (old.getD (e.blank name)).directory = e.directory := by
    cases old with
    | none => exact e.directory_blank name
    | some o => exact same o rfl
  rw [onto]
  split
  · exact base
  · exact base

/-- No content replaces none. -/
theorem data_onto (e : Entry) (name : Text) (old : Option Entry) :
    (e.onto name old).data = if e.data = [] then (old.map (·.data)).getD [] else e.data := by
  rw [onto]
  split
  · cases old with
    | none => exact e.data_blank name
    | some o => rfl
  · rfl

theorem permissionBits_blank (e : Entry) (name : Text) : Mode.permissionBits (e.blank name).mode = e.copyBits := by
  have bits (type : Nat) (apart : type &&& Mode.permissionMask = 0) :
      Mode.permissionBits (type ||| e.copyBits) = e.copyBits := by
    rw [Mode.permissionBits, Nat.and_or_distrib_right, apart, Nat.zero_or]
    exact e.permissionBits_copyBits
  rw [blank]
  split
  · exact bits Mode.directory (by decide)
  · exact bits Mode.regular (by decide)

/-- A new entry has the permission bits that the entry was copied with. -/
theorem permissionBits_onto_none (e : Entry) (name : Text) :
    Mode.permissionBits (e.onto name none).mode = e.copyBits := by
  simp only [onto, Option.getD_none]
  split
  · exact e.permissionBits_blank name
  · exact e.permissionBits_blank name

/-- Copied once more, an entry changes nothing. -/
theorem onto_again (e : Entry) (name : Text) (old : Option Entry) :
    e.onto name (some (e.onto name old)) = e.onto name old := by
  simp only [onto, Option.getD_some]
  split
  · rfl
  · rfl

end Entry

namespace Memory
open Vfs.Path

variable {s : Store Entry} {ds bs : List Text} {e : Entry} {k : Text} {root name : Text}

/-- What a store comes to where an entry is copied to a name. -/
def lay (root name : Text) (e : Entry) (s : Store Entry) : Except Error Unit × Store Entry :=
  if e.directory then mkdirAll root name e.copyBits s
  else match create root name e.copyBits s with
    | (.error fault, t) => (.error fault, t)
    | (.ok (k, old), t) => (.ok (), if e.data = [] then t else t.put k (old.holding e.data))

theorem lay_directory (kind : e.directory = true) (root name : Text) (s : Store Entry) :
    lay root name e s = mkdirAll root name e.copyBits s := if_pos kind

theorem lay_refused (kind : e.directory = false) {fault : Error}
    (refused : (create root name e.copyBits s).1 = .error fault) :
    lay root name e s = (.error fault, (create root name e.copyBits s).2) := by
  rw [lay, if_neg (by simp [kind])]
  revert refused
  generalize create root name e.copyBits s = r
  obtain ⟨r, t⟩ := r
  rintro ⟨⟩
  rfl

theorem lay_created (kind : e.directory = false) {old : Entry}
    (made : (create root name e.copyBits s).1 = .ok (k, old)) :
    lay root name e s = (.ok (), if e.data = [] then (create root name e.copyBits s).2
      else (create root name e.copyBits s).2.put k (old.holding e.data)) := by
  rw [lay, if_neg (by simp [kind])]
  revert made
  generalize create root name e.copyBits s = r
  obtain ⟨r, t⟩ := r
  rintro ⟨⟩
  rfl

/-- What is created is filled with what the entry holds. -/
theorem lay_holding (kind : e.directory = false) {old : Entry}
    (made : (create root name e.copyBits s).1 = .ok (k, old)) (data : Bytes) :
    lay root name (e.holding data) s = (.ok (), if data = [] then (create root name e.copyBits s).2
      else (create root name e.copyBits s).2.put k (old.holding data)) :=
  lay_created (e := e.holding data) kind made

/-- How the laying of a file ends: creating is refused, or what was created is filled. -/
theorem lay_file (kind : e.directory = false) (root name : Text) (s : Store Entry) :
    (∃ fault, (create root name e.copyBits s).1 = .error fault ∧
      lay root name e s = (.error fault, (create root name e.copyBits s).2)) ∨
    ∃ old, (create root name e.copyBits s).1 = .ok (key root name, old) ∧
      lay root name e s = (.ok (), if e.data = [] then (create root name e.copyBits s).2
        else (create root name e.copyBits s).2.put (key root name) (old.holding e.data)) := by
  cases made : (create root name e.copyBits s).1 with
  | error fault => exact .inl ⟨fault, rfl, lay_refused kind made⟩
  | ok created =>
    obtain ⟨k, old⟩ := created
    obtain ⟨-, rfl, -, -⟩ := create_eq_ok made
    exact .inr ⟨old, rfl, lay_created kind made⟩

theorem made_lay (isRoot : IsRoot root) (name : Text) (e : Entry) (s : Store Entry) :
    Made root s (lay root name e s).2 := by
  cases kind : e.directory with
  | true =>
    rw [lay_directory kind]
    exact made_mkdirAll isRoot name _ s
  | false =>
    have made := made_create isRoot name e.copyBits s
    rcases lay_file kind root name s with ⟨fault, -, eq⟩ | ⟨old, answered, eq⟩
    · rw [eq]
      exact made
    · obtain ⟨-, -, file, stored⟩ := create_eq_ok answered
      rw [eq]
      dsimp only
      split
      · exact made
      · exact made.write e.data stored file

theorem sound_lay (sound : s.Sound) (root name : Text) (e : Entry) : (lay root name e s).2.Sound := by
  cases kind : e.directory with
  | true =>
    rw [lay_directory kind]
    exact (grows_mkdirAll root name _ s).sound sound
  | false =>
    have made := (grows_create root name e.copyBits s).sound sound
    rcases lay_file kind root name s with ⟨fault, -, eq⟩ | ⟨old, -, eq⟩
    · rw [eq]
      exact made
    · rw [eq]
      dsimp only
      split
      · exact made
      · exact made.put _ _

/-- Only what stands at the end can be changed. -/
theorem lay_kept {o : Entry} (apart : k ≠ key root name) (stored : s.get? k = some o) :
    (lay root name e s).2.get? k = some o := by
  cases kind : e.directory with
  | true =>
    rw [lay_directory kind]
    exact (grows_mkdirAll root name _ s).kept k o stored
  | false =>
    have kept := (grows_create root name e.copyBits s).kept k o stored
    rcases lay_file kind root name s with ⟨fault, -, eq⟩ | ⟨old, -, eq⟩
    · rw [eq]
      exact kept
    · rw [eq]
      dsimp only
      split
      · exact kept
      · rw [Store.get?_put, if_neg apart]
        exact kept

section
variable {mode : Int} {bits : Nat} (allowed : Mode.permissions mode = .ok bits) {fault : Error}
include allowed

/-- What is in the way of a directory is told by the directory. -/
theorem mkdirAll_error (failed : (mkdirAll root name mode s).1 = .error fault) :
    fault = Fault.invalid.at "MkdirAll".text name := by
  unfold mkdirAll at failed
  split at failed
  · exact makeLevels_error allowed failed
  · exact (Except.error.inj failed).symm

/-- What is in the way of a file is in the way of its directory, or is told by the file. -/
theorem create_error (failed : (create root name mode s).1 = .error fault) :
    isValid name = true ∧ (mkdirAll root (parent name) mode s).1 = .error fault ∨
      (isValid name = true → (mkdirAll root (parent name) mode s).1 = .ok ()) ∧
        fault = Fault.invalid.at "Create".text name := by
  unfold create at failed
  split at failed
  · next valid =>
    cases made : mkdirAll root (parent name) mode s with
    | mk r t =>
      rw [made] at failed
      cases r with
      | error refusal => exact .inl ⟨valid, congrArg Except.error (Except.error.inj failed)⟩
      | ok done =>
        refine .inr ⟨fun _ => rfl, ?_⟩
        cases stood : t.get? (key root name) with
        | some o =>
          simp only [stood] at failed
          split at failed
          · exact (Except.error.inj failed).symm
          · cases failed
        | none =>
          simp only [stood, allowed] at failed
          cases failed
  · next invalid => exact .inr ⟨fun valid => absurd valid invalid, (Except.error.inj failed).symm⟩

theorem isSystem_create (failed : (create root name mode s).1 = .error fault) : fault.isSystem = true := by
  rcases create_error allowed failed with ⟨-, refused⟩ | ⟨-, rfl⟩
  · rw [mkdirAll_error allowed refused]
    exact Fault.isSystem_at ..
  · exact Fault.isSystem_at ..

end

/-- What is in the way of an entry is told by an error of the host. -/
theorem isSystem_lay {fault : Error} (failed : (lay root name e s).1 = .error fault) : fault.isSystem = true := by
  cases kind : e.directory with
  | true =>
    rw [lay_directory kind] at failed
    rw [mkdirAll_error e.permissions_copyBits failed]
    exact Fault.isSystem_at ..
  | false =>
    rcases lay_file kind root name s with ⟨fault', refused, eq⟩ | ⟨old, -, eq⟩
    · rw [eq] at failed
      obtain rfl := Except.error.inj failed
      exact isSystem_create e.permissions_copyBits refused
    · rw [eq] at failed
      cases failed

/-! ## Writing what was created -/

/-- Levels that are stored are passed over. -/
theorem makeLevels_all {dir : Text} {mode : Int} {levels : List Level}
    (stored : ∀ level ∈ levels, IsDirectory s level.key) : makeLevels dir mode levels s = (.ok (), s) := by
  induction levels with
  | nil => rfl
  | cons level rest ih =>
    rw [makeLevels_stored (stored level (List.mem_cons_self ..))]
    exact ih fun l member => stored l (List.mem_cons_of_mem level member)

/-- A file is created after the directories above it were made. -/
theorem create_way {mode : Int} {old : Entry} (made : (create root name mode s).1 = .ok (k, old)) :
    (mkdirAll root (parent name) mode s).1 = .ok () ∧
      Grows (mkdirAll root (parent name) mode s).2 (create root name mode s).2 := by
  have ended := created root name mode s
  generalize create root name mode s = r at ended made
  cases ended with
  | invalid fault | failed fault => cases made
  | found e valid way found kind => exact ⟨way, .refl _⟩
  | new bits valid way missing permitted => exact ⟨way, grows_put missing rfl⟩

/-- Directories that were made are passed over while nothing is taken out. -/
theorem mkdirAll_again {dir : Text} {mode : Int} {t : Store Entry} (made : (mkdirAll root dir mode s).1 = .ok ())
    (grows : Grows (mkdirAll root dir mode s).2 t) (mode' : Int) : mkdirAll root dir mode' t = (.ok (), t) := by
  unfold mkdirAll at made grows ⊢
  split at made
  · next valid =>
    rw [if_pos valid] at grows ⊢
    exact makeLevels_all fun level member => grows.isDirectory (makeLevels_ok made level member)
  · cases made

/-- What was created is found where it is created again. -/
theorem create_again {mode : Int} {old : Entry} (made : (create root name mode s).1 = .ok (k, old)) :
    create root name mode (create root name mode s).2 = (.ok (k, old), (create root name mode s).2) := by
  obtain ⟨first, grows⟩ := create_way made
  obtain ⟨valid, rfl, file, stored⟩ := create_eq_ok made
  rw [create, if_pos valid, mkdirAll_again first grows]
  simp [stored, file]

theorem write_created {mode : Int} {old : Entry} (made : (create root name mode s).1 = .ok (k, old))
    (data : Bytes) :
    write root name data mode (create root name mode s).2 =
      (.ok data.length, (create root name mode s).2.put k (old.holding data)) := by
  rw [write, create_again made]
  rfl

/-! ## Levels -/

/-- Levels that were made are stored as they were, or are new directories. -/
theorem get?_makeLevels_ok {dir : Text} {mode : Int} {bits : Nat} (allowed : Mode.permissions mode = .ok bits)
    {levels : List Level} (named : ∀ level ∈ levels, level.name = rootName level.key)
    (made : (makeLevels dir mode levels s).1 = .ok ()) :
    ∀ level ∈ levels, (makeLevels dir mode levels s).2.get? level.key =
      some ((s.get? level.key).getD (.newDirectory (rootName level.key) bits)) := by
  induction levels generalizing s with
  | nil => exact fun level member => absurd member List.not_mem_nil
  | cons first rest ih =>
    have later := fun l member => named l (List.mem_cons_of_mem first member)
    rw [makeLevels] at made ⊢
    cases found : s.get? first.key with
    | some o =>
      simp only [found] at made ⊢
      split at made
      · next kind =>
        rw [if_pos kind]
        intro level member
        rcases List.mem_cons.1 member with rfl | behind
        · rw [found]
          exact (grows_makeLevels dir mode rest s).kept _ o found
        · exact ih later made level behind
      · cases made
    | none =>
      simp only [found, allowed] at made ⊢
      have new := named first (List.mem_cons_self ..)
      rw [new] at made ⊢
      have there : (s.put first.key (.newDirectory (rootName first.key) bits)).get? first.key =
          some (.newDirectory (rootName first.key) bits) := by rw [Store.get?_put, if_pos rfl]
      intro level member
      by_cases same : level.key = first.key
      · rw [same, found]
        exact (grows_makeLevels dir mode rest _).kept _ _ there
      · have behind : level ∈ rest := by
          rcases List.mem_cons.1 member with rfl | behind
          · exact absurd rfl same
          · exact behind
        rw [ih later made level behind, Store.get?_put, if_neg same]

section
variable {mode : Int} (hd : Names ds) (hb : Names bs)
include hd hb

/-- The directories on a way that was made are those that were stored, or new ones. -/
theorem get?_mkdirAll_ok {bits : Nat} (allowed : Mode.permissions mode = .ok bits)
    (made : (mkdirAll (ofReduced true ds) (ofReduced false bs) mode s).1 = .ok ()) {front : List Text}
    (behind : front <+: bs) :
    (mkdirAll (ofReduced true ds) (ofReduced false bs) mode s).2.get? (ofReduced true (ds ++ front)) =
      some ((s.get? (ofReduced true (ds ++ front))).getD
        (.newDirectory (rootName (ofReduced true (ds ++ front))) bits)) := by
  obtain ⟨level, member, key⟩ := (exists_level_iff hd hb).2 ⟨front, behind, rfl⟩
  rw [mkdirAll, if_pos (isValid_iff_names.2 ⟨bs, hb, rfl⟩)] at made ⊢
  have stored := get?_makeLevels_ok allowed (fun l member => name_of_mem_levels hd hb member) made level member
  rwa [key] at stored

/-- Only a file on the way refuses directories. -/
theorem mkdirAll_passes {bits : Nat} (allowed : Mode.permissions mode = .ok bits)
    (free : ∀ front, front <+: bs → ∀ o, s.get? (ofReduced true (ds ++ front)) = some o → o.directory = true) :
    (mkdirAll (ofReduced true ds) (ofReduced false bs) mode s).1 = .ok () := by
  rw [mkdirAll, if_pos (isValid_iff_names.2 ⟨bs, hb, rfl⟩)]
  refine makeLevels_free allowed fun level member o stored => ?_
  obtain ⟨front, behind, key⟩ := (exists_level_iff hd hb).1 ⟨level, member, rfl⟩
  exact free front behind o (key ▸ stored)

end

/-! ## What is laid -/

section
variable (hd : Names ds) (hb : Names bs)
include hd hb

/-- No file is created under the name of the root, which is made as a directory. -/
theorem proper_of_create {mode : Int} {old : Entry}
    (made : (create (ofReduced true ds) (ofReduced false bs) mode s).1 = .ok (k, old)) : bs ≠ [] := by
  rintro rfl
  obtain ⟨way, grows⟩ := create_way made
  obtain ⟨-, rfl, file, stored⟩ := create_eq_ok made
  obtain ⟨d, found, directory⟩ := grows.isDirectory (mkdirAll_ok (isRoot_ofReduced hd) way)
  obtain rfl := Option.some.inj (stored.symm.trans found)
  rw [file] at directory
  cases directory

/-- What is created is what was stored, or a new file. -/
theorem create_answer {mode : Int} {bits : Nat} {old : Entry} (allowed : Mode.permissions mode = .ok bits)
    (made : (create (ofReduced true ds) (ofReduced false bs) mode s).1 = .ok (k, old)) :
    old = (s.get? (ofReduced true (ds ++ bs))).getD (.newFile (rootName (ofReduced true (ds ++ bs))) bits) := by
  have before := get?_mkdirAll (s := s) hd hb (proper_of_create hd hb made) mode
  have proper := proper_of_create hd hb made
  have ended := created (ofReduced true ds) (ofReduced false bs) mode s
  generalize create (ofReduced true ds) (ofReduced false bs) mode s = r at ended made
  rw [← parent_ofReduced hb, ← key_ofReduced hd hb] at before
  rw [← key_ofReduced hd hb]
  cases ended with
  | invalid fault | failed fault => cases made
  | found e valid way found kind =>
    cases made
    rw [← before, found, Option.getD_some]
  | new bits' valid way missing permitted =>
    cases made
    obtain rfl : bits = bits' := Except.ok.inj (allowed.symm.trans permitted)
    rw [before] at missing
    rw [missing, Option.getD_none, key_ofReduced hd hb]
    obtain ⟨front, b, rfl⟩ := (List.eq_nil_or_concat' bs).resolve_left proper
    have last : Names [b] := (names_append.1 hb).2
    rw [lastElement_ofReduced (last.no_slash b (List.mem_cons_self ..)), ← List.append_assoc,
      rootName_ofReduced last]

/-- Below directories that can be made, only a directory refuses a file. -/
theorem create_passes {mode : Int} {bits : Nat} (allowed : Mode.permissions mode = .ok bits) (proper : bs ≠ [])
    (above : (mkdirAll (ofReduced true ds) (ofReduced false bs.dropLast) mode s).1 = .ok ())
    (file : ∀ o, s.get? (ofReduced true (ds ++ bs)) = some o → o.directory = false) :
    ∃ old, (create (ofReduced true ds) (ofReduced false bs) mode s).1 =
      .ok (key (ofReduced true ds) (ofReduced false bs), old) := by
  have before := get?_mkdirAll (s := s) hd hb proper mode
  rw [create, if_pos (isValid_iff_names.2 ⟨bs, hb, rfl⟩), parent_ofReduced hb, key_ofReduced hd hb]
  cases made : mkdirAll (ofReduced true ds) (ofReduced false bs.dropLast) mode s with
  | mk r t =>
    rw [made] at above before
    dsimp only at above before
    subst above
    dsimp only
    rw [before]
    cases found : s.get? (ofReduced true (ds ++ bs)) with
    | some o => exact ⟨o, by simp only [file o found, Bool.false_eq_true, if_false]⟩
    | none =>
      rw [allowed]
      exact ⟨_, rfl⟩

/-- What stands at the end where an entry was laid. -/
theorem lay_end (sane : Sane e) (laid : (lay (ofReduced true ds) (ofReduced false bs) e s).1 = .ok ()) :
    (lay (ofReduced true ds) (ofReduced false bs) e s).2.get? (ofReduced true (ds ++ bs)) =
      some (e.onto (rootName (ofReduced true (ds ++ bs))) (s.get? (ofReduced true (ds ++ bs)))) := by
  cases kind : e.directory with
  | true =>
    rw [lay_directory kind] at laid ⊢
    rw [get?_mkdirAll_ok hd hb e.permissions_copyBits laid (List.prefix_refl bs)]
    simp [Entry.onto, Entry.blank, sane.empty kind, kind]
  | false =>
    rcases lay_file kind (ofReduced true ds) (ofReduced false bs) s with ⟨fault, -, eq⟩ | ⟨old, answered, eq⟩
    · rw [eq] at laid
      cases laid
    · have stored := (create_eq_ok answered).2.2.2
      have base : old = (s.get? (ofReduced true (ds ++ bs))).getD
          (e.blank (rootName (ofReduced true (ds ++ bs)))) := by
        rw [create_answer hd hb e.permissions_copyBits answered, Entry.blank, if_neg (by simp [kind])]
      rw [eq, Entry.onto, ← base, ← key_ofReduced hd hb]
      dsimp only
      split
      · exact stored
      · rw [Store.get?_put, if_pos rfl]

/-- Beside the way to it, laying an entry changes nothing. -/
theorem lay_apart (apart : ∀ front, front <+: bs → k ≠ ofReduced true (ds ++ front)) :
    (lay (ofReduced true ds) (ofReduced false bs) e s).2.get? k = s.get? k := by
  cases kind : e.directory with
  | true =>
    rw [lay_directory kind]
    exact get?_mkdirAll_apart hd hb apart
  | false =>
    have other : k ≠ key (ofReduced true ds) (ofReduced false bs) := by
      rw [key_ofReduced hd hb]
      exact apart bs (List.prefix_refl bs)
    have way : (mkdirAll (ofReduced true ds) (parent (ofReduced false bs)) e.copyBits s).2.get? k = s.get? k := by
      rw [parent_ofReduced hb]
      exact get?_mkdirAll_apart hd hb.dropLast fun front behind =>
        apart front (behind.trans (List.dropLast_prefix bs))
    have made : (create (ofReduced true ds) (ofReduced false bs) e.copyBits s).2.get? k = s.get? k := by
      have ended := created (ofReduced true ds) (ofReduced false bs) e.copyBits s
      generalize create (ofReduced true ds) (ofReduced false bs) e.copyBits s = r at ended
      cases ended with
      | invalid fault => rfl
      | failed fault valid => exact way
      | found o valid made found kind => exact way
      | new bits valid made missing permitted => rw [Store.get?_put, if_neg other, way]
    rcases lay_file kind (ofReduced true ds) (ofReduced false bs) s with ⟨fault, -, eq⟩ | ⟨old, -, eq⟩
    · rw [eq, made]
    · rw [eq]
      dsimp only
      split
      · exact made
      · rw [Store.get?_put, if_neg other, made]

/-- Where no file is on the way and none of the other kind at the end, an entry is laid. -/
theorem lay_free (there : IsDirectory s (ofReduced true ds))
    (way : ∀ front, front <+: bs → front ≠ bs → ∀ o, s.get? (ofReduced true (ds ++ front)) = some o →
      o.directory = true)
    (kind : ∀ o, s.get? (ofReduced true (ds ++ bs)) = some o → o.directory = e.directory) :
    (lay (ofReduced true ds) (ofReduced false bs) e s).1 = .ok () := by
  cases directory : e.directory with
  | true =>
    rw [lay_directory directory]
    refine mkdirAll_passes hd hb e.permissions_copyBits fun front behind o stored => ?_
    by_cases last : front = bs
    · exact (kind o (last ▸ stored)).trans directory
    · exact way front behind last o stored
  | false =>
    have proper : bs ≠ [] := by
      rintro rfl
      obtain ⟨o, stored, isDirectory⟩ := there
      have same := kind o (by rw [List.append_nil, stored])
      rw [isDirectory, directory] at same
      cases same
    have above : (mkdirAll (ofReduced true ds) (ofReduced false bs.dropLast) e.copyBits s).1 = .ok () := by
      refine mkdirAll_passes hd hb.dropLast e.permissions_copyBits fun front behind => ?_
      refine way front (behind.trans (List.dropLast_prefix bs)) fun same => ?_
      have short := behind.length_le
      have long := List.length_pos_iff.2 proper
      rw [same, List.length_dropLast] at short
      omega
    have file := fun o stored => (kind o stored).trans directory
    obtain ⟨old, answered⟩ := create_passes hd hb e.permissions_copyBits proper above file
    rcases lay_file directory (ofReduced true ds) (ofReduced false bs) s with ⟨fault, refused, -⟩ | ⟨old, -, eq⟩
    · rw [answered] at refused
      cases refused
    · rw [eq]

/-- An entry is laid only where none of the other kind stands. -/
theorem lay_ok (laid : (lay (ofReduced true ds) (ofReduced false bs) e s).1 = .ok ()) :
    ∀ o, s.get? (ofReduced true (ds ++ bs)) = some o → o.directory = e.directory := by
  intro o stored
  cases kind : e.directory with
  | true =>
    rw [lay_directory kind] at laid
    have isRoot : IsRoot (ofReduced true ds) := isRoot_ofReduced hd
    obtain ⟨o', found, directory⟩ := mkdirAll_ok isRoot laid
    rw [key_ofReduced hd hb, (grows_mkdirAll _ _ _ s).kept _ o stored] at found
    obtain rfl := Option.some.inj found
    exact directory
  | false =>
    rcases lay_file kind (ofReduced true ds) (ofReduced false bs) s with ⟨fault, -, eq⟩ | ⟨old, answered, -⟩
    · rw [eq] at laid
      cases laid
    · have same := create_answer hd hb e.permissions_copyBits answered
      rw [stored, Option.getD_some] at same
      exact same ▸ (create_eq_ok answered).2.2.1

end

end Memory

end Vfs
