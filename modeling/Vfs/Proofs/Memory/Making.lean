import Vfs.Proofs.Memory.Laying
import Vfs.Proofs.Memory.Rooted
import Vfs.Proofs.Store.Subtree

/-!
# Making a way of directories

On any store, through a view whose root is spelled as keys are, a directory is made unless a file stands on the way
to it. What is made is a new directory under each name on the way where nothing stands, and nothing else is changed
(`Paved`); a refusal tells the directory that was asked for, wherever the file stands (`makes_directories`). The root
of the view may be missing: it is then the first of the directories.
-/

namespace Vfs.Memory
set_option autoImplicit false
open Vfs.Path

/-- The name that a directory made under a name of a view is given: the last element, and that of its key for the
root. -/
def label (root name : Text) : Text := if name = here then rootName root else lastElement name

/-- Between two stores, directories were made under the names on a way where nothing stood, and nothing else changed. -/
structure Paved (root : Text) (way : Text → Prop) (bits : Nat) (s t : Store Entry) : Prop where
  made : ∀ p, way p → s.get? (key root p) = none → t.get? (key root p) = some (.newDirectory (label root p) bits)
  kept : ∀ k e, s.get? k = some e → t.get? k = some e
  only : ∀ k, (∀ p, way p → k ≠ key root p) → t.get? k = s.get? k

/-- The world with another store in a volume. -/
def withStore (w : World) (n : Nat) (s : Store Entry) : World := w.setVolume n { w.volume n with store := s }

/-- Making a directory succeeds if no name that leads to it is that of a file, and then makes those that are missing,
after which all of them are found as directories and are not made again. A refusal tells the directory. -/
structure MakesDirectories (fs : Filesystem) (view : View) (dir : Text) (mode : Int) (bits : Nat) (w : World) :
    Prop where
  succeeds : (fs.mkdirAll dir mode w).1 = .ok () ↔
    isValid dir = true ∧ ∀ p e, AtOrBelow p dir → view.stored? w p = some e → e.directory = true
  refuses : ∀ fault, (fs.mkdirAll dir mode w).1 = .error fault → fault = Fault.invalid.at "MkdirAll".text dir
  changes : (fs.mkdirAll dir mode w).1 = .ok () → ∃ t, (fs.mkdirAll dir mode w).2 = withStore w view.volume t ∧
    t.Sound ∧ Paved view.root (AtOrBelow · dir) bits (w.volume view.volume).store t
  found : (fs.mkdirAll dir mode w).1 = .ok () → ∀ p, AtOrBelow p dir →
    ∃ info, (fs.stat p (fs.mkdirAll dir mode w).2).1 = .ok info ∧ info.directory = true
  again : (fs.mkdirAll dir mode w).1 = .ok () → ∀ mode' : Int,
    fs.mkdirAll dir mode' (fs.mkdirAll dir mode w).2 = (.ok (), (fs.mkdirAll dir mode w).2)

variable {s t : Store Entry} {as bs front : List Text} {name dir : Text} {mode : Int} {bits : Nat} {e : Entry}
  {w : World} {view : View}

/-! ## Names on the way -/

/-- The names that lead to another are those of the beginnings of its row. -/
theorem atOrBelow_row (hb : Names bs) :
    AtOrBelow name (ofReduced false bs) ↔ ∃ front, front <+: bs ∧ name = ofReduced false front := by
  constructor
  · intro within
    obtain ⟨rs, hr, rfl⟩ := isValid_iff_names.1 within.1
    exact ⟨rs, (atOrBelow_iff hr hb).1 within, rfl⟩
  · rintro ⟨front, behind, rfl⟩
    exact (atOrBelow_iff (hb.ahead behind) hb).2 behind

theorem label_row (names : Names (as ++ front)) :
    label (ofReduced true as) (ofReduced false front) = rootName (ofReduced true (as ++ front)) := by
  rcases List.eq_nil_or_concat' front with rfl | ⟨front, c, rfl⟩
  · rw [label, if_pos ofReduced_nil, List.append_nil]
  · have last := (names_append.1 (names_append.1 names).2).2
    have proper := ofReduced_ne_here (names_append.1 names).2 (by simp)
    rw [label, if_neg proper, lastElement_ofReduced (last.no_slash c (List.mem_singleton_self c)),
      ← List.append_assoc, rootName_ofReduced last]

/-- What stands under a name is what is told of it. -/
theorem stat_stored (found : view.stored? w name = some e) :
    ∃ origin, stat view name w = (.ok (e.info origin), w) := by
  unfold View.stored? at found
  cases located : locate view.root (w.volume view.volume).store name with
  | error fault =>
    rw [located] at found
    cases found
  | ok l =>
    rw [located] at found
    obtain rfl : l.2 = e := Option.some.inj found
    rw [stat, located]
    exact ⟨_, rfl⟩

/-! ## The way in the store -/

section
variable (ha : Names as) (hb : Names bs) (allowed : Mode.permissions mode = .ok bits)
include ha hb

/-- On a way that was made, every directory is stored. -/
theorem isDirectory_mkdirAll (made : (mkdirAll (ofReduced true as) (ofReduced false bs) mode s).1 = .ok ())
    (behind : front <+: bs) :
    IsDirectory (mkdirAll (ofReduced true as) (ofReduced false bs) mode s).2 (ofReduced true (as ++ front)) := by
  obtain ⟨level, member, key⟩ := (exists_level_iff ha hb).2 ⟨front, behind, rfl⟩
  rw [mkdirAll, if_pos (isValid_iff_names.2 ⟨bs, hb, rfl⟩)] at made ⊢
  exact key ▸ makeLevels_ok made level member

include allowed

/-- Only a file on the way stops a directory from being made. -/
theorem mkdirAll_ok_iff : (mkdirAll (ofReduced true as) (ofReduced false bs) mode s).1 = .ok () ↔
    ∀ front, front <+: bs → ∀ e, s.get? (ofReduced true (as ++ front)) = some e → e.directory = true := by
  refine ⟨fun made front behind e stored => ?_, mkdirAll_passes ha hb allowed⟩
  obtain ⟨d, there, kind⟩ := isDirectory_mkdirAll ha hb made behind
  rw [(grows_mkdirAll _ _ mode s).kept _ e stored] at there
  obtain rfl := Option.some.inj there
  exact kind

theorem mkdirAll_ok_iff_clear {n : Nat} :
    (mkdirAll (ofReduced true as) (ofReduced false bs) mode (w.volume n).store).1 = .ok () ↔
      ∀ p e, AtOrBelow p (ofReduced false bs) → View.stored? ⟨n, ofReduced true as⟩ w p = some e →
        e.directory = true := by
  rw [mkdirAll_ok_iff ha hb allowed]
  constructor
  · intro free p e within stored
    obtain ⟨front, behind, rfl⟩ := (atOrBelow_row hb).1 within
    rw [stored?_row (names_append.2 ⟨ha, hb.ahead behind⟩)] at stored
    exact free front behind e stored
  · intro free front behind e stored
    rw [← stored?_row (names_append.2 ⟨ha, hb.ahead behind⟩)] at stored
    exact free _ e ((atOrBelow_row hb).2 ⟨front, behind, rfl⟩) stored

/-- What is left of the store where a directory was made. -/
theorem paved_mkdirAll (made : (mkdirAll (ofReduced true as) (ofReduced false bs) mode s).1 = .ok ()) :
    Paved (ofReduced true as) (AtOrBelow · (ofReduced false bs)) bits s
      (mkdirAll (ofReduced true as) (ofReduced false bs) mode s).2 where
  made := by
    intro p within missing
    obtain ⟨front, behind, rfl⟩ := (atOrBelow_row hb).1 within
    have hf := hb.ahead behind
    rw [key_ofReduced ha hf] at missing ⊢
    rw [get?_mkdirAll_ok ha hb allowed made behind, missing, label_row (names_append.2 ⟨ha, hf⟩), Option.getD_none]
  kept := (grows_mkdirAll _ _ mode s).kept
  only := by
    intro k apart
    refine get?_mkdirAll_apart ha hb fun front behind => ?_
    rw [← key_ofReduced ha (hb.ahead behind)]
    exact apart _ ((atOrBelow_row hb).2 ⟨front, behind, rfl⟩)

end

/-! ## The way in the world -/

theorem store_withStore {n : Nat} (there : n < w.volumes.size) (s : Store Entry) :
    ((withStore w n s).volume n).store = s := by
  rw [withStore, volume_setVolume there]

theorem stored?_withStore {n : Nat} (there : n < w.volumes.size) (names : Names (as ++ bs)) (s : Store Entry) :
    View.stored? ⟨n, ofReduced true as⟩ (withStore w n s) (ofReduced false bs) =
      s.get? (ofReduced true (as ++ bs)) := by
  rw [stored?_row names, store_withStore there]

theorem Grows.more (grows : Grows s t) (k : Text) (stored : (s.get? k).isSome = true) : (t.get? k).isSome = true := by
  obtain ⟨e, found⟩ := Option.isSome_iff_exists.1 stored
  rw [grows.kept k e found, Option.isSome_some]

section
variable {α : Type} {f : Text → Store Entry → Except Error α × Store Entry} {r : Except Error α}

/-- A change that takes no entry out leaves all else in the world, and what is remembered of entries taken out. -/
theorem change_adding (run : f view.root (w.volume view.volume).store = (r, t))
    (sound : (w.volume view.volume).store.Sound) (sound' : t.Sound)
    (more : ∀ k, ((w.volume view.volume).store.get? k).isSome = true → (t.get? k).isSome = true) :
    change view f w = (r, withStore w view.volume t) := by
  have size := Store.size_le_of_more sound sound' more
  rw [change_eq, run, Volume.after, if_neg (Nat.not_lt.2 size), withStore]

theorem change_same (run : f view.root (w.volume view.volume).store = (r, (w.volume view.volume).store)) :
    change view f w = (r, w) := by
  rw [change_eq, run, after_store, setVolume_volume]

end

/-- **Directories on the way to a name are made, and nothing else**, in every world and through every view whose root
is spelled as keys are. -/
theorem makes_directories (sound : (w.volume view.volume).store.Sound) (there : view.volume < w.volumes.size)
    (isKey : IsKey view.root) (allowed : Mode.permissions mode = .ok bits) (id : Nat) (dir : Text) :
    MakesDirectories (filesystem id view) view dir mode bits w := by
  obtain ⟨n, root⟩ := view
  obtain ⟨as, ha, rfl⟩ := isKey_iff.1 isKey
  have asked (w : World) (mode : Int) : (filesystem id ⟨n, ofReduced true as⟩).mkdirAll dir mode w =
      change ⟨n, ofReduced true as⟩ (fun root => mkdirAll root dir mode) w := rfl
  have grows := grows_mkdirAll (ofReduced true as) dir mode (w.volume n).store
  -- A way only grows, so nothing else in the world changes.
  have run : (filesystem id ⟨n, ofReduced true as⟩).mkdirAll dir mode w =
      ((mkdirAll (ofReduced true as) dir mode (w.volume n).store).1,
        withStore w n (mkdirAll (ofReduced true as) dir mode (w.volume n).store).2) :=
    (asked w mode).trans (change_adding rfl sound (grows.sound sound) grows.more)
  by_cases valid : isValid dir = true
  · obtain ⟨bs, hb, rfl⟩ := isValid_iff_names.1 valid
    constructor
    · rw [run, mkdirAll_ok_iff_clear ha hb allowed, and_iff_right valid]
    · rw [run]
      exact fun fault failed => mkdirAll_error allowed failed
    · rw [run]
      exact fun made => ⟨_, rfl, grows.sound sound, paved_mkdirAll ha hb allowed made⟩
    · rw [run]
      intro made p within
      obtain ⟨front, behind, rfl⟩ := (atOrBelow_row hb).1 within
      obtain ⟨d, stored, kind⟩ := isDirectory_mkdirAll ha hb made behind
      have names := names_append.2 ⟨ha, hb.ahead behind⟩
      obtain ⟨origin, told⟩ := stat_stored ((stored?_withStore there names _).trans stored)
      exact ⟨_, congrArg Prod.fst told, kind⟩
    · rw [run]
      intro made mode'
      rw [asked]
      refine change_same ?_
      dsimp only
      rw [store_withStore there]
      exact mkdirAll_again made (.refl _) mode'
  · have refused : mkdirAll (ofReduced true as) dir mode (w.volume n).store =
        (.error (Fault.invalid.at "MkdirAll".text dir), (w.volume n).store) := by rw [mkdirAll, if_neg valid]
    have never : ¬((filesystem id ⟨n, ofReduced true as⟩).mkdirAll dir mode w).1 = .ok () := by
      rw [run, refused]
      intro made
      cases made
    constructor
    · exact iff_of_false never fun free => valid free.1
    · rw [run]
      exact fun fault failed => mkdirAll_error allowed failed
    · exact fun made => absurd made never
    · exact fun made => absurd made never
    · exact fun made => absurd made never

theorem makes_directories_nested :
    nested.store.Sound ∧ 0 < nested.world.volumes.size ∧ IsKey [.char '/'] ∧ Mode.permissions 0o750 = .ok 0o750 ∧
      MakesDirectories (filesystem 1 ⟨0, [.char '/']⟩) ⟨0, [.char '/']⟩ "a/c/d".text 0o750 0o750 nested.world := by
  obtain ⟨-, sound, -⟩ := invariant_reached reached_nested
  have there : 0 < nested.world.volumes.size := by decide +kernel
  have allowed : Mode.permissions 0o750 = .ok 0o750 := by decide
  exact ⟨sound, there, .inl rfl, allowed,
    @makes_directories 0o750 0o750 nested.world ⟨0, [.char '/']⟩ sound there (.inl rfl) allowed 1 _⟩

/-- Through a view of `/.` a directory is made under a key that no name leads to, and is not found. -/
theorem not_makes_directories :
    ¬∀ (w : World) (view : View) (dir : Text), (w.volume view.volume).store.Sound →
      Formed (w.volume view.volume).store → IsDirectory (w.volume view.volume).store view.root →
      MakesDirectories (filesystem 1 view) view dir 0o755 0o755 w := by
  intro makes
  have makes := makes dotted ⟨0, "/.".text⟩ "b".text sound_dotted formed_dotted (by decide +kernel)
  have made : ((filesystem 1 ⟨0, "/.".text⟩).mkdirAll "b".text 0o755 dotted).1 = .ok () := by decide +kernel
  have missing : ((filesystem 1 ⟨0, "/.".text⟩).stat "b".text
      ((filesystem 1 ⟨0, "/.".text⟩).mkdirAll "b".text 0o755 dotted).2).1.toOption = none := by decide +kernel
  obtain ⟨info, told, -⟩ := makes.found made "b".text ⟨by decide, here, by decide, rfl⟩
  rw [told] at missing
  cases missing

end Vfs.Memory
