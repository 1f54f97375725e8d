import Mathlib.Data.List.Induction
import Vfs.Proofs.Memory.Session

/-!
# The tree of a filesystem in memory

The store enforces no tree, but an orderly session keeps one: every key but the root's stands in a stored
directory and names its entry (`Tree`). What a call can do to the store is said once: it makes entries one
after the other (`Made`), so that what holds of one entry more holds wherever the call fails, or takes some
out (`effect_cases`). A view may go on as long as its root is stored; a file handle hands over even when the
directories above its file are gone, since it makes them again. What is left of the tree in a session that
is not orderly is said by `Labelled` and `LinkedBut`.
-/

namespace Vfs.Mode
set_option autoImplicit false

/-- Permission bits do not change the type of a word. -/
theorem typeBits_or (type word : Nat) : typeBits (type ||| permissionBits word) = typeBits type := by
  have apart : permissionMask &&& typeMask = 0 := by decide
  rw [typeBits, permissionBits, Nat.and_or_distrib_right, Nat.and_assoc, apart, Nat.and_zero, Nat.or_zero]
  rfl

theorem permissions_eq_ok {mode : Int} {bits : Nat} (h : permissions mode = .ok bits) :
    ∃ word, bits = permissionBits word := by
  unfold permissions at h
  cases checked : check mode with
  | error fault => rw [checked] at h; cases h
  | ok word => rw [checked] at h; cases h; exact ⟨word, rfl⟩

end Vfs.Mode

namespace Vfs.Memory
set_option autoImplicit false
open Vfs.Path Session

variable {s t : Store Entry} {e : Entry} {root name dir k : Text} {mode : Int} {as bs es : List Text}
  {loose : Text → Prop}

/-! ## What a tree is -/

/-- The keys of a tree: `/`, and `/` with a name behind it that a filesystem accepts. -/
def IsKey (k : Text) : Prop := k = [.char '/'] ∨ ∃ name, isValid name = true ∧ name ≠ here ∧ k = .char '/' :: name

/-- Every key but the root's has its parent stored, as a directory. -/
def Linked (s : Store Entry) : Prop :=
  ∀ k e, s.get? k = some e → k ≠ [.char '/'] → IsDirectory s (parent k)

/-- The mode word says what the entry is, and a directory has no content. -/
structure Sane (e : Entry) : Prop where
  kind : e.directory = Mode.isDirectory e.mode
  empty : e.directory = true → e.data = []

/-- The keys are those of a tree, and each entry is named by its key. -/
structure Tree (s : Store Entry) : Prop where
  keys : ∀ k e, s.get? k = some e → IsKey k
  linked : Linked s
  named : ∀ k e, s.get? k = some e → e.name = rootName k
  sane : ∀ k e, s.get? k = some e → Sane e

/-- The keys are those of a tree and name their entries, wherever these stand. -/
structure Labelled (s : Store Entry) : Prop where
  keys : ∀ k e, s.get? k = some e → IsKey k
  named : ∀ k e, s.get? k = some e → e.name = rootName k
  sane : ∀ k e, s.get? k = some e → Sane e

/-- Every key but the root's has its parent stored, as a directory, unless it is a loose one. -/
def LinkedBut (loose : Text → Prop) (s : Store Entry) : Prop :=
  ∀ k e, s.get? k = some e → k ≠ [.char '/'] → IsDirectory s (parent k) ∨ loose k

theorem linked_iff : Linked s ↔ LinkedBut (fun _ => False) s := by simp only [Linked, LinkedBut, or_false]

theorem Tree.labelled (tree : Tree s) : Labelled s := ⟨tree.keys, tree.named, tree.sane⟩

theorem Labelled.tree (labelled : Labelled s) (linked : Linked s) : Tree s :=
  ⟨labelled.keys, linked, labelled.named, labelled.sane⟩

theorem isKey_iff : IsKey k ↔ ∃ es, Names es ∧ k = ofReduced true es := by
  constructor
  · rintro (rfl | ⟨name, valid, proper, rfl⟩)
    · exact ⟨[], names_nil, rfl⟩
    · obtain ⟨es, names, rfl⟩ := isValid_iff_names.1 valid
      have hne : es ≠ [] := by
        rintro rfl
        exact proper rfl
      exact ⟨es, names, by rw [ofReduced_relative hne, ofReduced_rooted]⟩
  · rintro ⟨es, names, rfl⟩
    by_cases hne : es = []
    · exact .inl (by rw [hne]; rfl)
    · refine .inr ⟨ofReduced false es, isValid_iff_names.2 ⟨es, names, rfl⟩, ofReduced_ne_here names hne, ?_⟩
      rw [ofReduced_relative hne, ofReduced_rooted]

theorem ofReduced_ne_root (names : Names es) (hne : es ≠ []) : ofReduced true es ≠ [.char '/'] :=
  fun same => hne (ofReduced_inj names names_nil same)

/-- Linked seen along a row: each beginning of a stored row is a stored directory. -/
theorem Linked.above (linked : Linked s) (names : Names (as ++ bs)) (hne : bs ≠ [])
    (stored : s.get? (ofReduced true (as ++ bs)) = some e) : IsDirectory s (ofReduced true as) := by
  induction bs using List.reverseRecOn generalizing e with
  | nil => exact absurd rfl hne
  | append_singleton bs b ih =>
    have last : as ++ (bs ++ [b]) = (as ++ bs) ++ [b] := (List.append_assoc ..).symm
    have up := linked _ e stored (ofReduced_ne_root names (by simp))
    rw [parent_ofReduced names, last, List.dropLast_concat] at up
    by_cases direct : bs = []
    · rwa [direct, List.append_nil] at up
    · obtain ⟨above, there, -⟩ := up
      exact ih (names_append.1 (last ▸ names)).1 direct there

theorem Linked.ahead (linked : Linked s) (names : Names bs) (stored : (s.get? (ofReduced true bs)).isSome = true)
    (ahead : as <+: bs) (proper : as ≠ bs) : IsDirectory s (ofReduced true as) := by
  obtain ⟨back, rfl⟩ := ahead
  obtain ⟨e, there⟩ := Option.isSome_iff_exists.1 stored
  refine linked.above names ?_ there
  rintro rfl
  exact proper (List.append_nil as).symm

/-- A file has nothing below it. -/
theorem Tree.childless (tree : Tree s) (stored : s.get? k = some e) (file : e.directory = false) {k' : Text}
    (under : Store.Under k k') : s.get? k' = none := by
  obtain ⟨as, ha, rfl⟩ := isKey_iff.1 (tree.keys k e stored)
  by_contra present
  obtain ⟨e', there⟩ := Option.ne_none_iff_exists'.1 present
  obtain ⟨bs, hb, rfl⟩ := isKey_iff.1 (tree.keys k' e' there)
  obtain ⟨cs, hne, rfl⟩ := (under_iff ha hb).1 under
  obtain ⟨d, found, kind⟩ := tree.linked.above hb hne there
  rw [stored] at found
  obtain rfl := Option.some.inj found
  rw [file] at kind
  cases kind

/-! ## Entries taken out -/

/-- A part of a store is labelled as the store is. -/
theorem Labelled.part (labelled : Labelled s) (kept : ∀ k e, t.get? k = some e → s.get? k = some e) :
    Labelled t where
  keys := fun k e stored => labelled.keys k e (kept k e stored)
  named := fun k e stored => labelled.named k e (kept k e stored)
  sane := fun k e stored => labelled.sane k e (kept k e stored)

/-- No link is lost when entries go that no other entry stands under. -/
theorem LinkedBut.part (linked : LinkedBut loose s) (gone : Text → Prop)
    (look : ∀ k e, t.get? k = some e ↔ ¬gone k ∧ s.get? k = some e)
    (closed : ∀ k e, s.get? k = some e → k ≠ [.char '/'] → gone (parent k) → gone k) : LinkedBut loose t := by
  intro k e stored proper
  obtain ⟨stays, before⟩ := (look k e).1 stored
  rcases linked k e before proper with ⟨d, found, kind⟩ | free
  · exact .inl ⟨d, (look _ d).2 ⟨fun up => stays (closed k e before proper up), found⟩, kind⟩
  · exact .inr free

/-- An entry stands under the key of its parent. -/
theorem under_parent (isKey : IsKey k) (proper : k ≠ [.char '/']) : Store.Under (parent k) k := by
  obtain ⟨es, names, rfl⟩ := isKey_iff.1 isKey
  have hne : es ≠ [] := by
    rintro rfl
    exact proper rfl
  rw [parent_ofReduced names, under_iff names.dropLast names]
  exact ⟨[es.getLast hne], by simp, (List.dropLast_append_getLast hne).symm⟩

theorem IsKey.parent (isKey : IsKey k) : IsKey (parent k) := by
  obtain ⟨es, names, rfl⟩ := isKey_iff.1 isKey
  exact isKey_iff.2 ⟨es.dropLast, names.dropLast, parent_ofReduced names⟩

theorem under_trans {i j : Text} (hi : IsKey i) (hj : IsKey j) (isKey : IsKey k) (first : Store.Under i j)
    (second : Store.Under j k) : Store.Under i k := by
  obtain ⟨as, ha, rfl⟩ := isKey_iff.1 hi
  obtain ⟨bs, hb, rfl⟩ := isKey_iff.1 hj
  obtain ⟨cs, hc, rfl⟩ := isKey_iff.1 isKey
  obtain ⟨more, hne, rfl⟩ := (under_iff ha hb).1 first
  obtain ⟨rest, -, rfl⟩ := (under_iff hb hc).1 second
  exact (under_iff ha hc).2 ⟨more ++ rest, by simp [hne], List.append_assoc ..⟩

theorem Labelled.remove (labelled : Labelled s) (sound : s.Sound) (k : Text) : Labelled (s.remove k) := by
  refine labelled.part fun j e stored => ?_
  rw [Store.get?_remove sound] at stored
  split at stored
  · cases stored
  · exact stored

theorem LinkedBut.remove (linked : LinkedBut loose s) (labelled : Labelled s) (sound : s.Sound)
    (free : ∀ k', Store.Under k k' → s.get? k' = none) : LinkedBut loose (s.remove k) := by
  refine linked.part (fun j => j = k) (fun j e => ?_) fun j e stored proper up => ?_
  · rw [Store.get?_remove sound]
    split
    · next same => simp [same]
    · next other => simp [other]
  · have below := under_parent (labelled.keys j e stored) proper
    rw [up] at below
    rw [free j below] at stored
    cases stored

theorem Labelled.removeAll (labelled : Labelled s) (sound : s.Sound) (k : Text) :
    Labelled (s.removeAll k) := by
  refine labelled.part fun j e stored => ?_
  rw [Store.get?_removeAll sound] at stored
  split at stored
  · cases stored
  · exact stored

theorem LinkedBut.removeAll (linked : LinkedBut loose s) (labelled : Labelled s) (sound : s.Sound)
    (isKey : IsKey k) : LinkedBut loose (s.removeAll k) := by
  refine linked.part (fun j => j = k ∨ Store.Under k j) (fun j e => ?_) fun j e stored proper up => ?_
  · rw [Store.get?_removeAll sound]
    split
    · next gone => simp [gone]
    · next stays => simp [stays]
  · have here := labelled.keys j e stored
    have below := under_parent here proper
    right
    rcases up with same | above
    · rwa [same] at below
    · exact under_trans isKey here.parent here above below

/-! ## Entries made -/

theorem sane_newDirectory {bits : Nat} (allowed : Mode.permissions mode = .ok bits) (name : Text) :
    Sane (.newDirectory name bits) where
  kind := by
    obtain ⟨word, rfl⟩ := Mode.permissions_eq_ok allowed
    rw [Entry.newDirectory, Mode.isDirectory, Mode.typeBits_or]
    rfl
  empty := fun _ => rfl

theorem sane_newFile {bits : Nat} (allowed : Mode.permissions mode = .ok bits) (name : Text) :
    Sane (.newFile name bits) where
  kind := by
    obtain ⟨word, rfl⟩ := Mode.permissions_eq_ok allowed
    rw [Entry.newFile, Mode.isDirectory, Mode.typeBits_or]
    rfl
  empty := fun directory => by cases directory

/-- An entry as it is made under a key. -/
structure Fitting (k : Text) (e : Entry) : Prop where
  key : IsKey k
  named : e.name = rootName k
  sane : Sane e

/-- What a call that makes entries does to a store seen from a root, one entry after the other: where nothing
is stored an entry is put, in a stored directory or as the root itself, and the content of a stored file is
replaced. -/
inductive Made (root : Text) (s : Store Entry) : Store Entry → Prop where
  | refl : Made root s s
  | put {t : Store Entry} {k : Text} {e : Entry} : Made root s t → t.get? k = none → Fitting k e →
      k = root ∨ IsDirectory t (parent k) → Made root s (t.put k e)
  | write {t : Store Entry} {k : Text} {e : Entry} (data : Bytes) : Made root s t → t.get? k = some e →
      e.directory = false → Made root s (t.put k { e with data := data })

theorem isDirectory_put (there : IsDirectory s k) {k' : Text} (kept : k = k' → e.directory = true) :
    IsDirectory (s.put k' e) k := by
  by_cases same : k = k'
  · exact ⟨e, by rw [Store.get?_put, if_pos same], kept same⟩
  · obtain ⟨d, stored, kind⟩ := there
    exact ⟨d, by rw [Store.get?_put, if_neg same, stored], kind⟩

theorem Made.isDirectory (made : Made root s t) (there : IsDirectory s k) : IsDirectory t k := by
  induction made with
  | refl => exact there
  | put _ missing _ _ ih =>
    refine isDirectory_put ih fun same => ?_
    obtain ⟨d, stored, -⟩ := ih
    rw [same, missing] at stored
    cases stored
  | write data _ stored _ ih =>
    refine isDirectory_put ih fun same => ?_
    obtain ⟨d, found, kind⟩ := ih
    rw [same, stored] at found
    obtain rfl := Option.some.inj found
    exact kind

/-- Nothing that was stored is missing. -/
theorem Made.missing (made : Made root s t) (missing : t.get? k = none) : s.get? k = none := by
  induction made with
  | refl => exact missing
  | put _ _ _ _ ih | write _ _ _ _ ih =>
    rw [Store.get?_put] at missing
    split at missing
    · cases missing
    · exact ih missing

theorem Labelled.made (labelled : Labelled s) (made : Made root s t) : Labelled t := by
  have one {t : Store Entry} (labelled : Labelled t) {k : Text} {e : Entry} (fitting : Fitting k e) :
      Labelled (t.put k e) := by
    have each (k' : Text) (e' : Entry) (stored : (t.put k e).get? k' = some e') : Fitting k' e' := by
      rw [Store.get?_put] at stored
      split at stored
      · next same =>
        obtain rfl := Option.some.inj stored
        exact same ▸ fitting
      · exact ⟨labelled.keys k' e' stored, labelled.named k' e' stored, labelled.sane k' e' stored⟩
    exact ⟨fun k' e' h => (each k' e' h).key, fun k' e' h => (each k' e' h).named,
      fun k' e' h => (each k' e' h).sane⟩
  induction made with
  | refl => exact labelled
  | put _ _ fitting _ ih => exact one ih fitting
  | write data _ stored file ih =>
    have named := ih.named _ _ stored
    have sane := ih.sane _ _ stored
    exact one ih ⟨ih.keys _ _ stored, named,
      ⟨sane.kind, fun directory => absurd (file.symm.trans directory) Bool.false_ne_true⟩⟩

/-- Only the root can be made without its parent, and that only if it was missing. -/
theorem LinkedBut.made (linked : LinkedBut loose s) (made : Made root s t) :
    LinkedBut (fun k => loose k ∨ k = root ∧ s.get? root = none) t := by
  induction made with
  | refl => exact fun k e stored proper => (linked k e stored proper).imp_right .inl
  | @put t k e before missing fitting place ih =>
    have step : Made root t (t.put k e) := .put .refl missing fitting place
    intro k' e' stored proper
    rw [Store.get?_put] at stored
    split at stored
    · next same =>
      subst same
      rcases place with rfl | above
      · exact .inr (.inr ⟨rfl, before.missing missing⟩)
      · exact .inl (step.isDirectory above)
    · exact (ih k' e' stored proper).imp_left step.isDirectory
  | @write t k e data before found file ih =>
    have step : Made root t (t.put k { e with data := data }) := .write data .refl found file
    intro k' e' stored proper
    rw [Store.get?_put] at stored
    split at stored
    · next same =>
      subst same
      exact (ih _ _ found proper).imp_left step.isDirectory
    · exact (ih k' e' stored proper).imp_left step.isDirectory

/-- The way down from a stored directory, one level after the other. -/
theorem made_deeper (made : Made root s t) (names : Names (as ++ bs))
    (there : IsDirectory t (ofReduced true as)) :
    Made root s (makeLevels dir mode (deeper (ofReduced true as) bs) t).2 := by
  induction bs generalizing as t with
  | nil => exact made
  | cons b bs ih =>
    have whole : Names ((as ++ [b]) ++ bs) := by rwa [List.append_assoc]
    have down : Names (as ++ [b]) := (names_append.1 whole).1
    have last : Names [b] := (names_append.1 down).2
    rw [deeper_cons (names_append.1 names).1.pieces last.pieces, makeLevels]
    cases found : t.get? (ofReduced true (as ++ [b])) with
    | some e =>
      cases kind : e.directory with
      | true => simpa [kind] using ih made whole ⟨e, found, kind⟩
      | false => simpa [kind] using made
    | none =>
      cases allowed : Mode.permissions mode with
      | error fault => exact made
      | ok bits =>
        have fitting : Fitting (ofReduced true (as ++ [b])) (.newDirectory b bits) :=
          ⟨isKey_iff.2 ⟨_, down, rfl⟩, (rootName_ofReduced last as).symm, sane_newDirectory allowed b⟩
        have above : IsDirectory t (parent (ofReduced true (as ++ [b]))) := by
          rwa [parent_ofReduced down, List.dropLast_concat]
        exact ih (made.put found fitting (.inr above)) whole ⟨_, by rw [Store.get?_put, if_pos rfl], rfl⟩

theorem made_mkdirAll (isRoot : IsRoot root) (dir : Text) (mode : Int) (s : Store Entry) :
    Made root s (mkdirAll root dir mode s).2 := by
  unfold mkdirAll
  by_cases valid : isValid dir = true
  · obtain ⟨as, ha, rfl⟩ := isRoot.names
    obtain ⟨bs, hb, rfl⟩ := isValid_iff_names.1 valid
    have names := names_append.2 ⟨ha, hb⟩
    rw [if_pos valid, levels_ofReduced hb, makeLevels]
    cases found : s.get? (ofReduced true as) with
    | some e =>
      cases kind : e.directory with
      | true => simpa [kind] using made_deeper .refl names ⟨e, found, kind⟩
      | false => simpa [kind] using Made.refl
    | none =>
      cases allowed : Mode.permissions mode with
      | error fault => exact .refl
      | ok bits =>
        have fitting : Fitting (ofReduced true as) (.newDirectory (rootName (ofReduced true as)) bits) :=
          ⟨isKey_iff.2 ⟨as, ha, rfl⟩, rfl, sane_newDirectory allowed _⟩
        exact made_deeper (.put .refl found fitting (.inl rfl)) names ⟨_, by rw [Store.get?_put, if_pos rfl], rfl⟩
  · rw [if_neg valid]
    exact .refl

/-- Directories that were made are stored, down to the last one. -/
theorem mkdirAll_ok (isRoot : IsRoot root) (made : (mkdirAll root dir mode s).1 = .ok ()) :
    IsDirectory (mkdirAll root dir mode s).2 (key root dir) := by
  unfold mkdirAll at made ⊢
  split at made
  · next valid =>
    obtain ⟨as, ha, rfl⟩ := isRoot.names
    obtain ⟨bs, hb, rfl⟩ := isValid_iff_names.1 valid
    obtain ⟨level, member, last⟩ := mem_levels ha hb
    rw [if_pos valid, key_ofReduced ha hb, ← last]
    exact makeLevels_ok made level member
  · cases made

theorem made_create (isRoot : IsRoot root) (name : Text) (mode : Int) (s : Store Entry) :
    Made root s (create root name mode s).2 := by
  have way := made_mkdirAll isRoot (parent name) mode s
  have ended := created root name mode s
  generalize create root name mode s = r at ended ⊢
  cases ended with
  | invalid fault => exact .refl
  | failed fault valid => exact way
  | found e valid made found kind => exact way
  | new bits valid made missing allowed =>
    have above := mkdirAll_ok isRoot made
    obtain ⟨as, ha, rfl⟩ := isRoot.names
    obtain ⟨bs, hb, rfl⟩ := isValid_iff_names.1 valid
    rw [parent_ofReduced hb] at way above missing ⊢
    rw [key_ofReduced ha hb.dropLast] at above
    rw [key_ofReduced ha hb] at missing ⊢
    generalize (mkdirAll (ofReduced true as) (ofReduced false bs.dropLast) mode s).2 = t
      at way above missing ⊢
    rcases List.eq_nil_or_concat bs with rfl | ⟨front, b, rfl⟩
    · -- The name is not the view's own root: that was made on the way.
      obtain ⟨d, stored, -⟩ := above
      rw [List.dropLast_nil, missing] at stored
      cases stored
    · rw [List.concat_eq_append] at hb above missing ⊢
      have last : Names [b] := (names_append.1 hb).2
      have names := names_append.2 ⟨ha, hb⟩
      have row : as ++ (front ++ [b]) = (as ++ front) ++ [b] := (List.append_assoc ..).symm
      rw [lastElement_ofReduced (last.no_slash b (List.mem_cons_self ..))]
      rw [List.dropLast_concat] at above
      refine way.put missing ⟨isKey_iff.2 ⟨_, names, rfl⟩, ?_, sane_newFile allowed b⟩ (.inr ?_)
      · rw [row, rootName_ofReduced last]
        rfl
      · rwa [parent_ofReduced names, row, List.dropLast_concat]

theorem made_write (isRoot : IsRoot root) (name : Text) (data : Bytes) (mode : Int) (s : Store Entry) :
    Made root s (write root name data mode s).2 := by
  have made := made_create isRoot name mode s
  rcases write_cases root name data mode s with ⟨fault, -, eq⟩ | ⟨e, answered, eq⟩
  · rw [eq]
    exact made
  · obtain ⟨-, -, file, stored⟩ := create_eq_ok answered
    rw [eq]
    exact made.write data stored file

/-! ## What a call does -/

/-- The root key of the view through which a call makes entries. -/
def Call.maker (s : Session) : Call → Option Text
  | .on v (.mkdirAll _ _) | .on v (.create _ _) | .on v (.write _ _ _) => some (s.root v)
  | .close i => some (handle s.world i).view.root
  | _ => none

/-- What a call makes of the store: it leaves it, makes entries, or takes out one or a subtree. -/
inductive Effect (s : Session) : Call → Store Entry → Prop where
  | none (c : Call) : Effect s c s.store
  | makes {c : Call} {root : Text} {t : Store Entry} : c.maker s = some root → Made root s.store t →
      Effect s c t
  | removes (v : Nat) {name : Text} : isValid name = true →
      Effect s (.on v (.remove name)) (s.store.remove (key (s.root v) name))
  | removesAll (v : Nat) {name : Text} : isValid name = true →
      Effect s (.on v (.removeAll name)) (s.store.removeAll (key (s.root v) name))

theorem effect_cases {s : Session} (wired : s.Wired) (c : Call) : Effect s c (c.effect s) := by
  cases c with
  | on v request =>
    have isRoot := wired.root v
    cases request with
    | mkdirAll dir mode => exact .makes rfl (made_mkdirAll isRoot dir mode _)
    | create name mode => exact .makes rfl (made_create isRoot name mode _)
    | write name data mode => exact .makes rfl (made_write isRoot name data mode _)
    | remove name =>
      simp only [Call.effect, Request.effect, Memory.remove]
      split
      · next valid => exact .removes v valid
      · exact .none _
    | removeAll name =>
      simp only [Call.effect, Request.effect, Memory.removeAll]
      split
      · next valid => exact .removesAll v valid
      · exact .none _
    | openFile _ | stat _ | read _ | list _ | glob _ | sub _ => exact .none _
  | close i =>
    simp only [Call.effect, Handle.effect]
    cases handed : (handle s.world i).commit with
    | none => exact .none _
    | some data =>
      exact .makes rfl (made_write (wired.handles _ (handle_mem (there_of_commit handed))).2 _ data _ _)
  | read _ _ | write _ _ | list _ _ | stat _ => exact .none _

theorem labelled_effect {s : Session} (wired : s.Wired) (sound : s.store.Sound) (labelled : Labelled s.store)
    (c : Call) : Labelled (c.effect s) := by
  have done := effect_cases wired c
  generalize c.effect s = t at done
  cases done with
  | none => exact labelled
  | makes _ made => exact labelled.made made
  | removes v _ => exact labelled.remove sound _
  | removesAll v _ => exact labelled.removeAll sound _

/-- A call makes the root of its view, under which nothing was stored. -/
structure Call.Revives (s : Session) (c : Call) (k : Text) : Prop where
  maker : c.maker s = some k
  missing : s.store.get? k = none
  stored : (c.effect s).get? k ≠ none

/-- No link is lost but to a root made again, unless an entry is taken out of the middle. -/
theorem linkedBut_effect {s : Session} (wired : s.Wired) (sound : s.store.Sound) (labelled : Labelled s.store)
    (linked : LinkedBut loose s.store) {c : Call}
    (kept : ∀ v name, c = .on v (.remove name) → isValid name = true →
      ∀ k, Store.Under (key (s.root v) name) k → s.store.get? k = none) :
    LinkedBut (fun k => loose k ∨ c.Revives s k) (c.effect s) := by
  have more {t : Store Entry} (linked : LinkedBut loose t) : LinkedBut (fun k => loose k ∨ c.Revives s k) t :=
    fun k e stored proper => (linked k e stored proper).imp_right .inl
  have done := effect_cases wired c
  generalize left : c.effect s = t at done
  cases done with
  | none => exact more linked
  | @makes _ root _ maker made =>
    intro k e stored proper
    refine (linked.made made k e stored proper).imp_right (.imp_right ?_)
    rintro ⟨rfl, missing⟩
    exact ⟨maker, missing, by rw [left, stored]; exact Option.some_ne_none e⟩
  | removes v valid => exact more (linked.remove labelled sound (kept v _ rfl valid))
  | removesAll v valid =>
    exact more (linked.removeAll labelled sound (isKey_iff.2 (IsRoot.sub (wired.root v) valid).names))

/-! ## Orderly sessions -/

/-- The view of a root can go on: it is the whole filesystem, or its root is stored as a directory. -/
def Grounded (s : Store Entry) (root : Text) : Prop := root = [.char '/'] ∨ IsDirectory s root

/-- A call that a tree survives. What makes or takes out entries goes to the whole filesystem or to a view
whose root is stored as a directory, and what is taken out without its subtree has none. -/
def Orderly (s : Session) : Call → Prop
  | .on _ (.openFile _) | .on _ (.stat _) | .on _ (.read _) | .on _ (.list _) | .on _ (.glob _) => True
  | .on _ (.sub _) => True
  | .on v (.remove name) => Grounded s.store (s.root v) ∧ (isValid name = true →
      ∀ k, Store.Under (key (s.root v) name) k → s.store.get? k = none)
  | .on v _ => Grounded s.store (s.root v)
  | .close i => Grounded s.store (handle s.world i).view.root
  | .read _ _ | .write _ _ | .list _ _ | .stat _ => True

/-- A session that comes about from a new filesystem by orderly calls. -/
inductive Reached : Session → Prop where
  | start : Reached .start
  | call {s : Session} (c : Call) : Reached s → Orderly s c → Reached (s.perform c).2

theorem Orderly.grounded {s : Session} {c : Call} (orderly : Orderly s c) (maker : c.maker s = some root) :
    Grounded s.store root := by
  cases c with
  | on v request =>
    cases request with
    | mkdirAll _ _ | create _ _ | write _ _ _ =>
      obtain rfl := Option.some.inj maker
      exact orderly
    | _ => cases maker
  | close i =>
    obtain rfl := Option.some.inj maker
    exact orderly
  | _ => cases maker

/-- What one orderly call makes of a tree is a tree. -/
theorem tree_effect {s : Session} (wired : s.Wired) (sound : s.store.Sound) (tree : Tree s.store) {c : Call}
    (orderly : Orderly s c) : Tree (c.effect s) := by
  have kept : ∀ v name, c = .on v (.remove name) → isValid name = true →
      ∀ k, Store.Under (key (s.root v) name) k → s.store.get? k = none := by
    rintro v name rfl
    exact orderly.2
  have linked := linkedBut_effect wired sound tree.labelled (linked_iff.1 tree.linked) kept
  refine (labelled_effect wired sound tree.labelled c).tree fun k e stored proper => ?_
  rcases linked k e stored proper with up | ⟨⟨⟩⟩ | ⟨maker, missing, -⟩
  · exact up
  · rcases orderly.grounded maker with top | ⟨d, there, -⟩
    · exact absurd top proper
    · rw [missing] at there
      cases there

theorem tree_start : Tree Session.start.store := by
  have labelled : Labelled (Store.empty : Store Entry) :=
    ⟨fun _ _ h => (by cases h), fun _ _ h => (by cases h), fun _ _ h => (by cases h)⟩
  have linked : Linked (Store.empty : Store Entry) := fun _ _ h => (by cases h)
  have fitting : Fitting [.char '/'] (.newDirectory here Mode.standard) := ⟨.inl rfl, rfl, by decide, fun _ => rfl⟩
  have made : Made [.char '/'] Store.empty Session.start.store := .put .refl rfl fitting (.inl rfl)
  refine (labelled.made made).tree fun k e stored proper => ?_
  rcases (linked_iff.1 linked).made made k e stored proper with up | ⟨⟨⟩⟩ | ⟨top, -⟩
  · exact up
  · exact absurd top proper

theorem invariant_reached {s : Session} (reached : Reached s) : s.Wired ∧ s.store.Sound ∧ Tree s.store := by
  induction reached with
  | start => exact ⟨Session.wired_start, Session.sound_start, tree_start⟩
  | call c _ orderly ih =>
    obtain ⟨wired, sound, tree⟩ := ih
    refine ⟨wired.perform c, Session.sound_perform wired sound c, ?_⟩
    rw [Session.store_perform wired]
    exact tree_effect wired sound tree orderly

/-- **An orderly session keeps a tree**, in which nothing stands under a file. -/
theorem tree_reached {s : Session} (reached : Reached s) :
    Tree s.store ∧ ∀ k e, s.store.get? k = some e → e.directory = false →
      ∀ k', Store.Under k k' → s.store.get? k' = none := by
  obtain ⟨-, -, tree⟩ := invariant_reached reached
  exact ⟨tree, fun k e stored file k' under => tree.childless stored file under⟩

/-- The calls of a session that creates a file, takes its directory out, and closes the handle then. -/
def lateClose : List Call :=
  [.on 0 (.create "a/f".text 0o644), .write 0 [104, 105], .on 0 (.removeAll "a".text), .close 0]

theorem tree_lateClose :
    Reached (Session.start.after lateClose) ∧
      Tree (Session.start.after lateClose).store ∧
      ∀ k e, (Session.start.after lateClose).store.get? k = some e → e.directory = false →
        ∀ k', Store.Under k k' → (Session.start.after lateClose).store.get? k' = none := by
  have created := Reached.call (.on 0 (.create "a/f".text 0o644)) .start (.inl rfl)
  have written := Reached.call (.write 0 [104, 105]) created trivial
  have removed := Reached.call (.on 0 (.removeAll "a".text)) written (.inl rfl)
  have closed := Reached.call (.close 0) removed (.inl rfl)
  exact ⟨closed, tree_reached closed⟩

end Vfs.Memory
