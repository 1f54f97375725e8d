import Vfs.Memory.Change
import Vfs.Proofs.Memory.Lookup
import Vfs.Proofs.Store.Contents

/-!
# What a change leaves

Making directories and files only adds to a store, and what it adds has no content: the store `Grows`,
also where a call fails half way. A call that writes makes the file first, and only then replaces its
content (`write_cases`).
-/

namespace Vfs.Memory
set_option autoImplicit false

variable {root name dir k : Text} {mode : Int} {data : Bytes} {s t u : Store Entry} {e : Entry}

/-- One store has every entry of another, and no content beside theirs. -/
structure Grows (s t : Store Entry) : Prop where
  sound : s.Sound → t.Sound
  kept : ∀ k e, s.get? k = some e → t.get? k = some e
  blank : ∀ k e, s.get? k = none → t.get? k = some e → e.data = []

theorem Grows.refl (s : Store Entry) : Grows s s where
  sound := id
  kept := fun _ _ h => h
  blank := by
    intro k e missing stored
    rw [missing] at stored
    cases stored

theorem Grows.trans (first : Grows s t) (second : Grows t u) : Grows s u where
  sound := second.sound ∘ first.sound
  kept := fun k e h => second.kept k e (first.kept k e h)
  blank := by
    intro k e missing stored
    cases between : t.get? k with
    | none => exact second.blank k e between stored
    | some e' =>
      rw [second.kept k e' between] at stored
      obtain rfl := Option.some.inj stored
      exact first.blank k e' missing between

theorem grows_put (missing : s.get? k = none) (blank : e.data = []) : Grows s (s.put k e) where
  sound := fun sound => sound.put k e
  kept := by
    intro k' e' stored
    have other : k' ≠ k := by
      rintro rfl
      rw [missing] at stored
      cases stored
    rw [Store.get?_put, if_neg other]
    exact stored
  blank := by
    intro k' e' absent stored
    rw [Store.get?_put] at stored
    split at stored
    · obtain rfl := Option.some.inj stored
      exact blank
    · rw [absent] at stored
      cases stored

theorem Grows.isDirectory (grows : Grows s t) (there : IsDirectory s k) : IsDirectory t k := by
  obtain ⟨e, stored, kind⟩ := there
  exact ⟨e, grows.kept k e stored, kind⟩

/-! ## Directories on the way -/

/-- One level: a stored directory is passed over. -/
theorem makeLevels_stored {level : Level} (there : IsDirectory s level.key) (rest : List Level) :
    makeLevels dir mode (level :: rest) s = makeLevels dir mode rest s := by
  obtain ⟨e, stored, kind⟩ := there
  simp only [makeLevels, stored, kind, if_true]

theorem grows_makeLevels (dir : Text) (mode : Int) (levels : List Level) (s : Store Entry) :
    Grows s (makeLevels dir mode levels s).2 := by
  induction levels generalizing s with
  | nil => exact .refl s
  | cons level rest ih =>
    rw [makeLevels]
    cases found : s.get? level.key with
    | some e =>
      cases kind : e.directory with
      | true => simpa [kind] using ih s
      | false => simpa [kind] using Grows.refl s
    | none =>
      cases Mode.permissions mode with
      | error fault => exact .refl s
      | ok bits => exact (grows_put found rfl).trans (ih _)

/-- Levels that were made are stored as directories. -/
theorem makeLevels_ok {levels : List Level} (made : (makeLevels dir mode levels s).1 = .ok ()) :
    ∀ level ∈ levels, IsDirectory (makeLevels dir mode levels s).2 level.key := by
  induction levels generalizing s with
  | nil => exact fun _ member => absurd member List.not_mem_nil
  | cons level rest ih =>
    -- What this level is stored as stays when the rest is made.
    have first {s' : Store Entry} (there : IsDirectory s' level.key)
        (made : (makeLevels dir mode rest s').1 = .ok ()) :
        ∀ l ∈ level :: rest, IsDirectory (makeLevels dir mode rest s').2 l.key := by
      intro l member
      rcases List.mem_cons.1 member with rfl | later
      · exact (grows_makeLevels dir mode rest s').isDirectory there
      · exact ih made l later
    rw [makeLevels] at made ⊢
    cases found : s.get? level.key with
    | some e =>
      cases kind : e.directory with
      | true =>
        simp only [found, kind, if_true] at made ⊢
        exact first ⟨e, found, kind⟩ made
      | false => simp [found, kind] at made
    | none =>
      cases allowed : Mode.permissions mode with
      | error fault => simp [found, allowed] at made
      | ok bits =>
        simp only [found, allowed] at made ⊢
        exact first ⟨_, by rw [Store.get?_put, if_pos rfl], rfl⟩ made

theorem grows_mkdirAll (root dir : Text) (mode : Int) (s : Store Entry) :
    Grows s (mkdirAll root dir mode s).2 := by
  unfold mkdirAll
  split
  · exact grows_makeLevels ..
  · exact .refl s

/-! ## Files -/

/-- How creating ends. After the directories were made it fails, or the file is stored already, or it is
put there without content. -/
inductive Created (root name : Text) (mode : Int) (s : Store Entry) :
    Except Error (Text × Entry) × Store Entry → Prop where
  | invalid (fault : Error) : Created root name mode s (.error fault, s)
  | failed (fault : Error) : Path.isValid name = true →
      Created root name mode s (.error fault, (mkdirAll root (Path.parent name) mode s).2)
  | found (e : Entry) : Path.isValid name = true → (mkdirAll root (Path.parent name) mode s).1 = .ok () →
      (mkdirAll root (Path.parent name) mode s).2.get? (key root name) = some e → e.directory = false →
      Created root name mode s (.ok (key root name, e), (mkdirAll root (Path.parent name) mode s).2)
  | new (bits : Nat) : Path.isValid name = true → (mkdirAll root (Path.parent name) mode s).1 = .ok () →
      (mkdirAll root (Path.parent name) mode s).2.get? (key root name) = none →
      Mode.permissions mode = .ok bits →
      Created root name mode s (.ok (key root name, .newFile (Path.lastElement name) bits),
        (mkdirAll root (Path.parent name) mode s).2.put (key root name)
          (.newFile (Path.lastElement name) bits))

theorem created (root name : Text) (mode : Int) (s : Store Entry) :
    Created root name mode s (create root name mode s) := by
  unfold create
  by_cases valid : Path.isValid name = true
  · rw [if_pos valid]
    cases made : mkdirAll root (Path.parent name) mode s with
    | mk r t =>
      have left : t = (mkdirAll root (Path.parent name) mode s).2 := by rw [made]
      have ended : (mkdirAll root (Path.parent name) mode s).1 = r := by rw [made]
      subst left
      cases r with
      | error fault => exact .failed fault valid
      | ok _ =>
        dsimp only
        cases found : (mkdirAll root (Path.parent name) mode s).2.get? (key root name) with
        | some e =>
          cases kind : e.directory with
          | true => simpa [kind] using Created.failed _ valid
          | false => simpa [kind] using Created.found e valid ended found kind
        | none =>
          cases allowed : Mode.permissions mode with
          | error fault => exact .failed fault.error valid
          | ok bits => exact .new bits valid ended found allowed
  · rw [if_neg valid]
    exact .invalid _

theorem grows_create (root name : Text) (mode : Int) (s : Store Entry) :
    Grows s (create root name mode s).2 := by
  have way := grows_mkdirAll root (Path.parent name) mode s
  have ended := created root name mode s
  generalize create root name mode s = r at ended ⊢
  cases ended with
  | invalid fault => exact .refl s
  | failed fault valid => exact way
  | found e valid made found kind => exact way
  | new bits valid made missing allowed => exact way.trans (grows_put missing rfl)

/-- What is created is stored under the key of its name, and is a file. -/
theorem create_eq_ok {root name k : Text} {mode : Int} {s : Store Entry} {e : Entry}
    (made : (create root name mode s).1 = .ok (k, e)) :
    Path.isValid name = true ∧ k = key root name ∧ e.directory = false ∧
      (create root name mode s).2.get? k = some e := by
  have ended := created root name mode s
  generalize create root name mode s = r at ended made ⊢
  cases ended with
  | invalid fault => cases made
  | failed fault valid => cases made
  | found e valid made' found kind =>
    cases made
    exact ⟨valid, rfl, kind, found⟩
  | new bits valid made' missing allowed =>
    cases made
    exact ⟨valid, rfl, rfl, by rw [Store.get?_put, if_pos rfl]⟩

/-- Writing fails where creating does. Otherwise the content of what was created is replaced. -/
theorem write_cases (root name : Text) (data : Bytes) (mode : Int) (s : Store Entry) :
    (∃ fault, (create root name mode s).1 = .error fault ∧
      write root name data mode s = (.error fault, (create root name mode s).2)) ∨
    ∃ e, (create root name mode s).1 = .ok (key root name, e) ∧
      write root name data mode s =
        (.ok data.length, (create root name mode s).2.put (key root name) { e with data := data }) := by
  unfold write
  cases made : create root name mode s with
  | mk r t =>
    cases r with
    | error fault => exact .inl ⟨fault, rfl, rfl⟩
    | ok created =>
      obtain ⟨k, e⟩ := created
      obtain ⟨-, rfl, -, -⟩ := create_eq_ok (congrArg Prod.fst made)
      exact .inr ⟨e, rfl, rfl⟩

theorem sound_write (sound : s.Sound) (root name : Text) (data : Bytes) (mode : Int) :
    (write root name data mode s).2.Sound := by
  have made := (grows_create root name mode s).sound sound
  rcases write_cases root name data mode s with ⟨fault, -, eq⟩ | ⟨e, -, eq⟩
  · rw [eq]
    exact made
  · rw [eq]
    exact made.put _ _

theorem sound_remove (sound : s.Sound) (root name : Text) : (remove root name s).2.Sound := by
  unfold remove
  split
  · exact sound.remove _
  · exact sound

theorem sound_removeAll (sound : s.Sound) (root name : Text) : (removeAll root name s).2.Sound := by
  unfold removeAll
  split
  · exact sound.removeAll _
  · exact sound

end Vfs.Memory
