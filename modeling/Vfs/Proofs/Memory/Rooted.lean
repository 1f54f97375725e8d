import Vfs.Proofs.Memory.Stale
import Vfs.Proofs.Memory.SubView

/-!
# Views of what a session left

A view is `Rooted` in a world if its volume is what some calls on a new filesystem left, as a tree that has the root
of the view. The root `/` is then a directory, since no call stores a file there (`top_after`). `stored?` is what
stands under a name of a view, and `AtOrBelow` says which names lead into the tree at another one.
-/

namespace Vfs.Memory
set_option autoImplicit false
open Vfs.Path Session

variable {s : Store Entry} {as bs rs : List Text} {name inner dir k root : Text} {mode : Int} {e : Entry} {w : World}
  {m : Nat} {view : View}

/-! ## The root of the whole -/

/-- Under `/` stands a directory, if anything. -/
def Topped (s : Store Entry) : Prop := ∀ e, s.get? [.char '/'] = some e → e.directory = true

/-- All that is made on a way is a directory. -/
theorem directory_makeLevels {levels : List Level} (missing : s.get? k = none)
    (stored : (makeLevels dir mode levels s).2.get? k = some e) : e.directory = true := by
  induction levels generalizing s with
  | nil =>
    rw [makeLevels, missing] at stored
    cases stored
  | cons level rest ih =>
    rw [makeLevels] at stored
    cases found : s.get? level.key with
    | some o =>
      simp only [found] at stored
      split at stored
      · exact ih missing stored
      · rw [missing] at stored
        cases stored
    | none =>
      cases allowed : Mode.permissions mode with
      | error fault =>
        simp only [found, allowed, missing] at stored
        cases stored
      | ok bits =>
        simp only [found, allowed] at stored
        by_cases same : k = level.key
        · have put : (s.put level.key (.newDirectory level.name bits)).get? k =
              some (.newDirectory level.name bits) := by rw [Store.get?_put, if_pos same]
          rw [(grows_makeLevels dir mode rest _).kept k _ put] at stored
          obtain rfl := Option.some.inj stored
          rfl
        · exact ih (by rw [Store.get?_put, if_neg same, missing]) stored

namespace Topped

variable (topped : Topped s)
include topped

theorem mkdirAll (root dir : Text) (mode : Int) : Topped (mkdirAll root dir mode s).2 := by
  intro e stored
  have kept := (grows_mkdirAll root dir mode s).kept [.char '/']
  cases found : s.get? [.char '/'] with
  | some o =>
    rw [kept o found] at stored
    exact Option.some.inj stored ▸ topped o found
  | none =>
    unfold Memory.mkdirAll at stored
    split at stored
    · exact directory_makeLevels found stored
    · rw [found] at stored
      cases stored

theorem create (isRoot : IsRoot root) (name : Text) (mode : Int) : Topped (create root name mode s).2 := by
  have way := topped.mkdirAll root (parent name) mode
  have ended := created root name mode s
  generalize Memory.create root name mode s = r at ended
  cases ended with
  | invalid fault => exact topped
  | failed fault valid => exact way
  | found e valid made found kind => exact way
  | new bits valid made missing allowed =>
    intro e stored
    rw [Store.get?_put] at stored
    split at stored
    · next top =>
      -- The directories above the name were made, and among them the root of the view.
      obtain ⟨as, ha, rfl⟩ := isRoot.names
      obtain ⟨bs, hb, rfl⟩ := isValid_iff_names.1 valid
      rw [key_ofReduced ha hb] at top missing
      have row := ofReduced_inj (r := true) names_nil (names_append.2 ⟨ha, hb⟩) top
      obtain ⟨rfl, rfl⟩ := List.append_eq_nil_iff.1 row.symm
      obtain ⟨d, there, -⟩ := mkdirAll_ok isRoot made
      have up : key (ofReduced true []) (parent (ofReduced false [])) = ofReduced true ([] ++ []) := rfl
      rw [up, missing] at there
      cases there
    · exact way e stored

theorem write (isRoot : IsRoot root) (name : Text) (data : Bytes) (mode : Int) :
    Topped (write root name data mode s).2 := by
  have made := topped.create isRoot name mode
  rcases write_cases root name data mode s with ⟨fault, -, eq⟩ | ⟨o, answered, eq⟩
  · rw [eq]
    exact made
  · obtain ⟨-, -, -, stored⟩ := create_eq_ok answered
    rw [eq]
    intro e found
    rw [Store.get?_put] at found
    split at found
    · next same =>
      obtain rfl := Option.some.inj found
      exact made o (same ▸ stored)
    · exact made e found

end Topped

theorem Topped.effect {s : Session} (topped : Topped s.store) (wired : s.Wired) (sound : s.store.Sound) (c : Call) :
    Topped (c.effect s) := by
  cases c with
  | on v request =>
    have isRoot := wired.root v
    cases request with
    | mkdirAll dir mode => exact topped.mkdirAll _ dir mode
    | create name mode => exact topped.create isRoot name mode
    | write name data mode => exact topped.write isRoot name data mode
    | remove name =>
      simp only [Call.effect, Request.effect, Memory.remove]
      split
      · intro e stored
        rw [Store.get?_remove sound] at stored
        split at stored
        · cases stored
        · exact topped e stored
      · exact topped
    | removeAll name =>
      simp only [Call.effect, Request.effect, Memory.removeAll]
      split
      · intro e stored
        rw [Store.get?_removeAll sound] at stored
        split at stored
        · cases stored
        · exact topped e stored
      · exact topped
    | openFile _ | stat _ | read _ | list _ | glob _ | sub _ => exact topped
  | close i =>
    simp only [Call.effect, Handle.effect]
    cases handed : (handle s.world i).commit with
    | none => exact topped
    | some data =>
      exact topped.write (wired.handles _ (handle_mem (there_of_commit handed))).2 _ data _
  | read _ _ | write _ _ | list _ _ | stat _ => exact topped

/-- Whatever is called, the root of the whole is a directory while it is stored. -/
theorem top_after (calls : List Call) : Topped (start.after calls).store := by
  induction calls using List.reverseRecOn with
  | nil =>
    intro e stored
    have there : (start.after []).store.get? [.char '/'] = some (.newDirectory here Mode.standard) := rfl
    rw [there] at stored
    obtain rfl := Option.some.inj stored
    rfl
  | append_singleton calls c ih =>
    obtain ⟨wired, sound, -⟩ := labelled_after calls
    rw [after_snoc, store_perform wired]
    exact ih.effect wired sound c

/-! ## Views -/

/-- The entry that stands under a name of a view. -/
def View.stored? (view : View) (w : World) (name : Text) : Option Entry :=
  (locate view.root (w.volume view.volume).store name).toOption.map (·.2)

theorem stored?_row (names : Names (as ++ bs)) :
    View.stored? ⟨m, ofReduced true as⟩ w (ofReduced false bs) =
      (w.volume m).store.get? (ofReduced true (as ++ bs)) := by
  obtain ⟨ha, hb⟩ := names_append.1 names
  rw [View.stored?, locate, if_pos (isValid_iff_names.2 ⟨bs, hb, rfl⟩), key_ofReduced ha hb]
  cases (w.volume m).store.get? (ofReduced true (as ++ bs)) with
  | none => rfl
  | some e => rfl

/-- Only a valid name has an entry. -/
theorem isValid_of_stored (found : view.stored? w name = some e) : isValid name = true := by
  by_contra invalid
  rw [View.stored?, locate, if_neg invalid] at found
  cases found

theorem content_row {data : Bytes} (names : Names (as ++ bs)) :
    content (ofReduced true as) (w.volume m).store (ofReduced false bs) = .ok data ↔
      ∃ e, (w.volume m).store.get? (ofReduced true (as ++ bs)) = some e ∧ e.directory = false ∧ e.data = data := by
  obtain ⟨ha, hb⟩ := names_append.1 names
  have valid : isValid (ofReduced false bs) = true := isValid_iff_names.2 ⟨bs, hb, rfl⟩
  simp only [content_eq_ok, locate_eq_ok, key_ofReduced ha hb, valid, true_and]

/-- The content under a name, or nothing. -/
theorem getD_content (names : Names (as ++ bs))
    (file : ∀ o, (w.volume m).store.get? (ofReduced true (as ++ bs)) = some o → o.directory = false) :
    (content (ofReduced true as) (w.volume m).store (ofReduced false bs)).toOption.getD [] =
      (((w.volume m).store.get? (ofReduced true (as ++ bs))).map (·.data)).getD [] := by
  cases stored : (w.volume m).store.get? (ofReduced true (as ++ bs)) with
  | some o =>
    rw [(content_row names).2 ⟨o, stored, file o stored, rfl⟩]
    rfl
  | none =>
    cases read : content (ofReduced true as) (w.volume m).store (ofReduced false bs) with
    | error fault => rfl
    | ok data =>
      obtain ⟨o, there, -⟩ := (content_row names).1 read
      rw [stored] at there
      cases there

/-- A name is another one, or leads through it. -/
def AtOrBelow (name inner : Text) : Prop :=
  isValid name = true ∧ ∃ rest, isValid rest = true ∧ inner = below name rest

theorem atOrBelow_iff (names : Names rs) (names' : Names bs) :
    AtOrBelow (ofReduced false rs) (ofReduced false bs) ↔ rs <+: bs := by
  constructor
  · rintro ⟨-, rest, valid, same⟩
    obtain ⟨cs, hc, rfl⟩ := isValid_iff_names.1 valid
    rw [below_ofReduced names hc] at same
    obtain rfl := ofReduced_inj names' (names_append.2 ⟨names, hc⟩) same
    exact List.prefix_append ..
  · rintro ⟨cs, rfl⟩
    have hc := (names_append.1 names').2
    refine ⟨isValid_iff_names.2 ⟨rs, names, rfl⟩, _, isValid_iff_names.2 ⟨cs, hc, rfl⟩, ?_⟩
    exact (below_ofReduced names hc).symm

theorem AtOrBelow.isValid (within : AtOrBelow name inner) : isValid inner = true := by
  obtain ⟨valid, rest, valid', rfl⟩ := within
  obtain ⟨rs, hr, rfl⟩ := isValid_iff_names.1 valid
  obtain ⟨cs, hc, rfl⟩ := isValid_iff_names.1 valid'
  rw [below_ofReduced hr hc]
  exact isValid_iff_names.2 ⟨_, names_append.2 ⟨hr, hc⟩, rfl⟩

/-- A view of a filesystem that some calls have left as a well-formed tree, with the root of the view in it. -/
structure Rooted (w : World) (view : View) : Prop where
  reached : ∃ calls v, (w.volume view.volume).store = (start.after calls).store ∧
    view.root = (start.after calls).root v
  linked : Linked (w.volume view.volume).store
  present : ((w.volume view.volume).store.get? view.root).isSome = true
  /-- Where a directory that a view was taken of went, a file may stand now. -/
  kind : view.root = [.char '/'] ∨ IsDirectory (w.volume view.volume).store view.root

/-- What is known of the store and the root of such a view. -/
structure Firm (s : Store Entry) (as : List Text) : Prop where
  sound : s.Sound
  labelled : Labelled s
  linked : Linked s
  names : Names as
  root : IsDirectory s (ofReduced true as)

theorem Rooted.firm (rooted : Rooted w view) :
    ∃ as, view.root = ofReduced true as ∧ Firm (w.volume view.volume).store as := by
  obtain ⟨⟨calls, v, left, root⟩, linked, present, kind⟩ := rooted
  obtain ⟨wired, sound, labelled⟩ := labelled_after calls
  obtain ⟨as, ha, row⟩ := (root ▸ wired.root v : IsRoot view.root).names
  have there : IsDirectory (w.volume view.volume).store view.root := by
    rcases kind with top | there
    · obtain ⟨e, stored⟩ := Option.isSome_iff_exists.1 present
      refine ⟨e, stored, top_after calls e ?_⟩
      rw [← left, ← top, stored]
    · exact there
  exact ⟨as, row, left ▸ sound, left ▸ labelled, linked, ha, row ▸ there⟩

/-- The whole of what an orderly session left is such a view, while its root is stored. -/
theorem rooted_top {calls : List Call} (reached : Reached (start.after calls))
    (left : (w.volume m).store = (start.after calls).store)
    (present : ((start.after calls).store.get? [.char '/']).isSome = true) : Rooted w ⟨m, [.char '/']⟩ where
  reached := ⟨calls, (start.after calls).roots.length, left, by simp [Session.root]⟩
  linked := by
    rw [left]
    exact (tree_reached reached).1.linked
  present := by rwa [left]
  kind := .inl rfl

/-- The volume of such a view is there. -/
theorem Rooted.there (rooted : Rooted w view) : view.volume < w.volumes.size := there_of_stored rooted.present

end Vfs.Memory
