import Vfs.Proofs.Action
import Vfs.Proofs.Memory.SubView

/-!
# Calls that fail

Making directories makes one level after the other, and creating a file makes the directories above it before
it looks at the file. Neither leaves anything half made on a tree: a level is missing only where everything
below is missing too, so once one is made no file is in the way, and a mode that cannot be looked at is found
out at the first entry that is made. A call that fails therefore changes nothing (`atomic_of_formed`), as
long as the root of the view is spelled as paths are (`not_atomic_dotted`).
-/

namespace Vfs.Memory
set_option autoImplicit false
open Vfs.Path

/-- A step that leaves what it found where it fails. -/
def Whole {σ α : Type} (step : σ → Except Error α × σ) (s : σ) : Prop :=
  ∀ fault, (step s).1 = .error fault → (step s).2 = s

variable {s : Store Entry} {root name dir : Text} {mode : Int} {data : Bytes} {as bs : List Text} {w : World}
  {view : View}

/-! ## Making directories -/

/-- Where the mode cannot be looked at, nothing is made. -/
theorem makeLevels_refused {refusal : Fault} (refused : Mode.permissions mode = .error refusal)
    (levels : List Level) (s : Store Entry) : (makeLevels dir mode levels s).2 = s := by
  induction levels with
  | nil => rfl
  | cons level rest ih =>
    rw [makeLevels]
    cases s.get? level.key with
    | some e =>
      dsimp only
      split
      · exact ih
      · rfl
    | none => simp only [refused]

/-- Where it can, only a file on the way stops the making. -/
theorem makeLevels_free {bits : Nat} (allowed : Mode.permissions mode = .ok bits) {levels : List Level}
    (free : ∀ level ∈ levels, ∀ e, s.get? level.key = some e → e.directory = true) :
    (makeLevels dir mode levels s).1 = .ok () := by
  induction levels generalizing s with
  | nil => rfl
  | cons level rest ih =>
    rw [makeLevels]
    cases found : s.get? level.key with
    | some e =>
      have kind := free level (List.mem_cons_self ..) e found
      simpa [kind] using ih fun l member => free l (List.mem_cons_of_mem _ member)
    | none =>
      simp only [allowed]
      refine ih fun l member e stored => ?_
      rw [Store.get?_put] at stored
      split at stored
      · obtain rfl := Option.some.inj stored
        rfl
      · exact free l (List.mem_cons_of_mem _ member) e stored

/-- Where the mode is in order, only a file on the way stops the making, and the error tells the directory. -/
theorem makeLevels_error {bits : Nat} (allowed : Mode.permissions mode = .ok bits) {levels : List Level}
    {fault : Error} (failed : (makeLevels dir mode levels s).1 = .error fault) :
    fault = Fault.invalid.at "MkdirAll".text dir := by
  induction levels generalizing s with
  | nil => cases failed
  | cons level rest ih =>
    rw [makeLevels] at failed
    cases found : s.get? level.key with
    | some e =>
      simp only [found] at failed
      split at failed
      · exact ih failed
      · exact (Except.error.inj failed).symm
    | none =>
      simp only [found, allowed] at failed
      exact ih failed

/-- What stands under no key on the way stays as it is. -/
theorem get?_makeLevels {levels : List Level} {k : Text} (apart : ∀ level ∈ levels, level.key ≠ k) :
    (makeLevels dir mode levels s).2.get? k = s.get? k := by
  induction levels generalizing s with
  | nil => rfl
  | cons level rest ih =>
    have later := fun l member => apart l (List.mem_cons_of_mem level member)
    rw [makeLevels]
    cases s.get? level.key with
    | some e =>
      dsimp only
      split
      · exact ih later
      · rfl
    | none =>
      cases Mode.permissions mode with
      | error refusal => rfl
      | ok bits =>
        have other : k ≠ level.key := Ne.symm (apart level (List.mem_cons_self ..))
        exact (ih later).trans (by rw [Store.get?_put, if_neg other])

/-- Below a key where nothing is stored, nothing is stored. -/
theorem Linked.bare (linked : Linked s) (missing : s.get? (ofReduced true as) = none) (names : Names (as ++ bs)) :
    s.get? (ofReduced true (as ++ bs)) = none := by
  by_cases direct : bs = []
  · rwa [direct, List.append_nil]
  · by_contra stored
    obtain ⟨e, there⟩ := Option.ne_none_iff_exists'.1 stored
    obtain ⟨d, found, -⟩ := linked.above names direct there
    rw [missing] at found
    cases found

/-- A way down that is stopped is stopped before anything is made: where nothing is stored, nothing is
stored further down either, and so no file is in the way. -/
theorem whole_makeLevels (linked : Linked s) (names : Names (as ++ bs)) :
    Whole (makeLevels dir mode (deeper (ofReduced true as) bs)) s := by
  intro fault failed
  cases allowed : Mode.permissions mode with
  | error refusal => exact makeLevels_refused allowed _ s
  | ok bits =>
    induction bs generalizing as with
    | nil => cases failed
    | cons b bs ih =>
      have whole : Names ((as ++ [b]) ++ bs) := by rwa [List.append_assoc]
      have down := (names_append.1 whole).1
      rw [deeper_cons (names_append.1 names).1.pieces (names_append.1 down).2.pieces, makeLevels] at failed ⊢
      cases found : s.get? (ofReduced true (as ++ [b])) with
      | some e =>
        cases kind : e.directory with
        | true =>
          simp only [found, kind, if_true] at failed ⊢
          exact ih whole failed
        | false => simp [kind]
      | none =>
        simp only [found, allowed] at failed
        have free : ∀ level ∈ deeper (ofReduced true (as ++ [b])) bs, ∀ e,
            (s.put (ofReduced true (as ++ [b])) (.newDirectory b bits)).get? level.key = some e →
              e.directory = true := by
          intro level member e stored
          obtain ⟨front, back, -, rfl, key⟩ := key_of_mem_deeper whole.pieces member
          rw [Store.get?_put] at stored
          split at stored
          · obtain rfl := Option.some.inj stored
            rfl
          · rw [← List.append_assoc] at whole
            rw [key, linked.bare found (names_append.1 whole).1] at stored
            cases stored
        rw [makeLevels_free allowed free] at failed
        cases failed

theorem mkdirAll_refused {refusal : Fault} (refused : Mode.permissions mode = .error refusal)
    (root dir : Text) (s : Store Entry) : (mkdirAll root dir mode s).2 = s := by
  unfold mkdirAll
  split
  · exact makeLevels_refused refused _ s
  · rfl

theorem create_refused {refusal : Fault} (refused : Mode.permissions mode = .error refusal)
    (root name : Text) (s : Store Entry) : (create root name mode s).2 = s := by
  have way := mkdirAll_refused refused root (parent name) s
  have ended := created root name mode s
  generalize create root name mode s = r at ended ⊢
  cases ended with
  | invalid fault => rfl
  | failed fault valid => exact way
  | found e valid made found kind => exact way
  | new bits valid made missing allowed =>
    rw [refused] at allowed
    cases allowed

section
variable {k : Text} (ha : Names as) (hb : Names bs)
include ha hb

/-- Nothing is made beside the way. -/
theorem get?_mkdirAll_apart (apart : ∀ front, front <+: bs → k ≠ ofReduced true (as ++ front)) :
    (mkdirAll (ofReduced true as) (ofReduced false bs) mode s).2.get? k = s.get? k := by
  rw [mkdirAll, if_pos (isValid_iff_names.2 ⟨bs, hb, rfl⟩)]
  refine get?_makeLevels fun level member same => ?_
  obtain ⟨front, behind, key⟩ := (exists_level_iff ha hb).1 ⟨level, member, rfl⟩
  exact apart front behind (same.symm.trans key)

/-- Making the directories above a name does nothing to what stands under the name itself. -/
theorem get?_mkdirAll (proper : bs ≠ []) (mode : Int) :
    (mkdirAll (ofReduced true as) (ofReduced false bs.dropLast) mode s).2.get? (ofReduced true (as ++ bs)) =
      s.get? (ofReduced true (as ++ bs)) := by
  refine get?_mkdirAll_apart ha hb.dropLast fun front behind same => ?_
  obtain rfl := ofReduced_append_inj ha hb (hb.dropLast.ahead behind) same
  have short := behind.length_le
  have long := List.length_pos_iff.2 proper
  rw [List.length_dropLast] at short
  omega

end

section
variable (linked : Linked s) (ha : Names as) (there : IsDirectory s (ofReduced true as))
include linked ha there

theorem whole_mkdirAll (dir : Text) (mode : Int) : Whole (mkdirAll (ofReduced true as) dir mode) s := by
  intro fault failed
  by_cases valid : isValid dir = true
  · obtain ⟨bs, hb, rfl⟩ := isValid_iff_names.1 valid
    rw [mkdirAll_ofReduced hb, makeLevels_stored there] at failed ⊢
    exact whole_makeLevels linked (names_append.2 ⟨ha, hb⟩) fault failed
  · rw [mkdirAll, if_neg valid]

/-- Creating that fails leaves the store: no directory is made above a directory that is stored, and where
there is none, only the mode could be refused, which the directories above have too. -/
theorem whole_create (name : Text) (mode : Int) : Whole (create (ofReduced true as) name mode) s := by
  intro fault failed
  cases allowed : Mode.permissions mode with
  | error refusal => exact create_refused allowed ..
  | ok bits =>
    by_cases valid : isValid name = true
    · obtain ⟨bs, hb, rfl⟩ := isValid_iff_names.1 valid
      by_cases stored : IsDirectory s (ofReduced true (as ++ bs))
      · rw [create_stored linked (names_append.2 ⟨ha, hb⟩) stored]
      · have proper : bs ≠ [] := by
          rintro rfl
          exact stored (by rwa [List.append_nil])
        have target := get?_mkdirAll (s := s) ha hb proper mode
        rw [create, if_pos valid, parent_ofReduced hb, key_ofReduced ha hb] at failed ⊢
        cases made : mkdirAll (ofReduced true as) (ofReduced false bs.dropLast) mode s with
        | mk r t =>
          rw [made] at target failed
          cases r with
          | error refusal =>
            have left := whole_mkdirAll linked ha there _ mode refusal (congrArg Prod.fst made)
            rwa [made] at left
          | ok _ =>
            dsimp only at target failed
            rw [target] at failed
            cases found : s.get? (ofReduced true (as ++ bs)) with
            | some e =>
              have file : e.directory = false := Bool.eq_false_iff.2 fun kind => stored ⟨e, found, kind⟩
              simp [found, file] at failed
            | none => simp [found, allowed] at failed
    · rw [create, if_neg valid]

theorem whole_write (name : Text) (data : Bytes) (mode : Int) :
    Whole (write (ofReduced true as) name data mode) s := by
  intro fault failed
  rcases write_cases (ofReduced true as) name data mode s with ⟨refusal, refused, eq⟩ | ⟨e, -, eq⟩
  · rw [eq]
    exact whole_create linked ha there name mode refusal refused
  · rw [eq] at failed
    cases failed

end

theorem whole_remove (root name : Text) (s : Store Entry) : Whole (remove root name) s := by
  intro fault failed
  unfold remove at failed ⊢
  split at failed
  · cases failed
  · next invalid => rw [if_neg invalid]

theorem whole_removeAll (root name : Text) (s : Store Entry) : Whole (removeAll root name) s := by
  intro fault failed
  unfold removeAll at failed ⊢
  split at failed
  · cases failed
  · next invalid => rw [if_neg invalid]

/-! ## Calls that fail -/

/-- A well-formed tree: the keys are `/` and `/` with a valid name behind it, and every key but the root's has
its parent stored, as a directory. -/
structure Formed (s : Store Entry) : Prop where
  keys : ∀ k e, s.get? k = some e → k = [.char '/'] ∨ ∃ name, isValid name = true ∧ k = .char '/' :: name
  linked : Linked s

/-- A call on a view that fails leaves the world. A handle of the view that fails to close is closed, and the
world is left but for that. -/
structure Atomic (view : View) (w : World) : Prop where
  ask : ∀ request : Request, Whole (request.ask view) w
  close : ∀ i fault, (handle w i).view = view → (closeHandle i w).1 = .error fault →
    (closeHandle i w).2 = setHandle w i (handle w i).close

theorem Formed.isKey {k : Text} {e : Entry} (formed : Formed s) (stored : s.get? k = some e)
    (proper : k ≠ "/.".text) : IsKey k := by
  rcases formed.keys k e stored with rfl | ⟨name, valid, rfl⟩
  · exact .inl rfl
  · exact .inr ⟨name, valid, fun same => proper (by rw [same]; rfl), rfl⟩

theorem Formed.names (formed : Formed s) (there : IsDirectory s root) (proper : root ≠ "/.".text) :
    ∃ as, Names as ∧ root = ofReduced true as := by
  obtain ⟨e, stored, -⟩ := there
  exact isKey_iff.1 (formed.isKey stored proper)

theorem after_store (v : Volume) : v.after v.store = v := if_neg (Nat.lt_irrefl _)

theorem setVolume_volume (w : World) (n : Nat) : w.setVolume n (w.volume n) = w := by
  have same : w.volumes.setIfInBounds n (w.volumes.getD n {}) = w.volumes := by
    by_cases there : n < w.volumes.size
    · simp [Array.setIfInBounds, there]
    · exact Array.setIfInBounds_eq_of_size_le (Nat.le_of_not_lt there)
  rw [World.setVolume, World.volume, same]

/-- A change leaves the world where it fails, if its step leaves the store there. -/
theorem whole_change {α : Type} {f : Text → Store Entry → Except Error α × Store Entry}
    (whole : Whole (f view.root) (w.volume view.volume).store) : Whole (change view f) w := by
  intro fault failed
  rw [change_eq] at failed ⊢
  dsimp only at failed ⊢
  rw [whole fault failed, after_store, setVolume_volume]

theorem whole_telling {α : Type} {action : Action α} {tell : α → Answer} (whole : Whole action w) :
    Whole (telling action tell) w := by
  intro fault failed
  rw [telling_eq] at failed ⊢
  cases answered : (action w).1 with
  | error refusal => exact whole refusal answered
  | ok a =>
    rw [answered] at failed
    cases failed

theorem whole_openFile (view : View) (name : Text) (w : World) : Whole (opening (openFile view name)) w := by
  intro fault failed
  rw [opening_openFile] at failed ⊢
  cases found : locate view.root (w.volume view.volume).store name with
  | error refusal => rfl
  | ok located =>
    rw [found] at failed
    cases failed

theorem whole_createFile (whole : Whole (change view fun root => create root name mode) w) :
    Whole (opening (createFile view name mode)) w := by
  intro fault failed
  rw [opening_createFile] at failed ⊢
  cases made : change view (fun root => create root name mode) w with
  | mk r after =>
    rw [Whole, made] at whole
    rw [made] at failed
    cases r with
    | error refusal => exact whole refusal rfl
    | ok _ => cases failed

/-- Closing fails where handing over does. -/
theorem closeHandle_failed {i : Nat} {fault : Error}
    (whole : ∀ data, Whole (change (handle w i).view fun root => write root (handle w i).name data (handle w i).mode)
      (setHandle w i (handle w i).close))
    (failed : (closeHandle i w).1 = .error fault) : (closeHandle i w).2 = setHandle w i (handle w i).close := by
  unfold closeHandle at failed ⊢
  dsimp only at failed ⊢
  cases handed : (handle w i).commit with
  | none => rfl
  | some data =>
    have stopped := whole data
    cases changed : change (handle w i).view (fun root => write root (handle w i).name data (handle w i).mode)
        (setHandle w i (handle w i).close) with
    | mk r after =>
      rw [Whole, changed] at stopped
      simp only [handed, changed] at failed ⊢
      cases r with
      | error refusal => exact stopped refusal rfl
      | ok _ => cases failed

/-- **A call that fails changes nothing**, on a view of a well-formed tree whose root is stored. -/
theorem atomic_of_formed (formed : Formed (w.volume view.volume).store)
    (there : IsDirectory (w.volume view.volume).store view.root) (proper : view.root ≠ "/.".text) :
    Atomic view w := by
  obtain ⟨n, root⟩ := view
  obtain ⟨as, ha, rfl⟩ := formed.names there proper
  have linked := formed.linked
  constructor
  · intro request
    cases request with
    | openFile name => exact whole_openFile _ name w
    | create name mode => exact whole_createFile (whole_change (whole_create linked ha there name mode))
    | mkdirAll dir mode => exact whole_telling (whole_change (whole_mkdirAll linked ha there dir mode))
    | write name data mode => exact whole_telling (whole_change (whole_write linked ha there name data mode))
    | remove name => exact whole_telling (whole_change (whole_remove _ name _))
    | removeAll name => exact whole_telling (whole_change (whole_removeAll _ name _))
    | stat _ | read _ | list _ | glob _ | sub _ => exact fun _ _ => rfl
  · intro i fault own failed
    refine closeHandle_failed (fun data => ?_) failed
    rw [own]
    exact whole_change (whole_write linked ha there _ data _)

theorem atomic_nested :
    Formed nested.store ∧ IsDirectory nested.store [.char '/'] ∧ [.char '/'] ≠ "/.".text ∧
      Atomic ⟨0, [.char '/']⟩ nested.world := by
  obtain ⟨-, -, tree⟩ := invariant_reached reached_nested
  have formed : Formed nested.store := by
    refine ⟨fun k e stored => ?_, tree.linked⟩
    rcases tree.keys k e stored with rfl | ⟨name, valid, -, rfl⟩
    · exact .inl rfl
    · exact .inr ⟨name, valid, rfl⟩
  have there : IsDirectory nested.store [.char '/'] := by decide +kernel
  exact ⟨formed, there, by decide, atomic_of_formed formed there (by decide)⟩

/-- The root of a view that is a key of the tree, but is not spelled as paths are. -/
def dotted : World := ((Request.mkdirAll here 0o777).ask ⟨0, "/.".text⟩ nested.world).2

theorem sound_dotted : (dotted.volume 0).store.Sound := by
  obtain ⟨wired, sound, -⟩ := invariant_reached reached_nested
  have left := (ask_world nested.world ⟨0, "/.".text⟩ wired.volume (.mkdirAll here 0o777)).1
  rw [dotted, left]
  exact Request.sound_effect sound _ _

theorem dotted_keys {k : Text} {e : Entry} (stored : (dotted.volume 0).store.get? k = some e) :
    k ∈ ["/".text, "/.".text, "/a".text, "/a/d".text] := by
  have row : (dotted.volume 0).store.keys.toList = ["/".text, "/.".text, "/a".text, "/a/d".text] := by
    decide +kernel
  rw [← row]
  exact (sound_dotted.agree k).2 (by rw [stored]; rfl)

theorem formed_dotted : Formed (dotted.volume 0).store := by
  have up : ∀ k ∈ ["/".text, "/.".text, "/a".text, "/a/d".text], k ≠ [.char '/'] →
      IsDirectory (dotted.volume 0).store (parent k) := by decide +kernel
  refine ⟨fun k e stored => ?_, fun k e stored => up k (dotted_keys stored)⟩
  have found := dotted_keys stored
  simp only [List.mem_cons, List.not_mem_nil, or_false] at found
  rcases found with rfl | rfl | rfl | rfl
  · exact .inl rfl
  · exact .inr ⟨here, by decide, rfl⟩
  · exact .inr ⟨"a".text, by decide, rfl⟩
  · exact .inr ⟨"a/d".text, by decide, rfl⟩

/-- On the way to a name of it directories are made under keys that no name leads to. -/
theorem not_atomic_dotted :
    ¬∀ (w : World) (view : View), Formed (w.volume view.volume).store →
      IsDirectory (w.volume view.volume).store view.root → Atomic view w := by
  intro atomic
  have atomic := (atomic dotted ⟨0, "/.".text⟩ formed_dotted (by decide +kernel)).ask (.create "a/d".text 0o644)
  have failed : (((Request.create "a/d".text 0o644).ask ⟨0, "/.".text⟩ dotted).1).toBool = false := by
    decide +kernel
  cases answered : ((Request.create "a/d".text 0o644).ask ⟨0, "/.".text⟩ dotted).1 with
  | ok a =>
    rw [answered] at failed
    cases failed
  | error fault =>
    have left := congrArg (fun w => ((w.volume 0).store.get? "/./a".text).isSome) (atomic fault answered)
    revert left
    decide +kernel

end Vfs.Memory
