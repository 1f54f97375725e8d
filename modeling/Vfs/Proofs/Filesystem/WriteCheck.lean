import Vfs.Proofs.Filesystem.Checking
import Vfs.Proofs.Filesystem.Copying
import Vfs.Proofs.Memory.Scratch

/-!
# The check of writing

A filesystem that changes what a view changes (`Serves`) does to its store what the script of the check does to it,
step by step (`Takes`): a file that is laid is written through a handle, closed and read back, and one that is refused
raises the error the script waits for. What the script put below its directory it takes out again, so below a
directory that was missing or empty nothing is left but the directory (`check_writes_clean`).
-/

namespace Vfs
set_option autoImplicit false
open Memory Vfs.Path

/-- A filesystem that makes, opens and takes out what a view does. -/
structure Serves (fs : Filesystem) (view : View) : Prop where
  openFile : fs.openFile = Memory.openFile view
  mkdirAll : fs.mkdirAll = fun dir mode => change view fun root => Memory.mkdirAll root dir mode
  create : fs.create = createFile view
  remove : fs.remove = fun name => change view fun root => Memory.remove root name
  removeAll : fs.removeAll = fun name => change view fun root => Memory.removeAll root name

variable {α : Type} {fs : Filesystem} {view : View} {w : World} {n i : Nat} {s t u : Store Entry}
  {root name : Text} {mode : Int}

/-- A layer changes what it forwards to in the same way, if that can be written and taken from. -/
theorem forwards_changes (id : Nat) (writes : fs.members.canWrite = true) (removes : fs.members.canRemove = true) :
    (Filesystem.ofFunctions id fs.delegate).mkdirAll = fs.mkdirAll ∧
      (Filesystem.ofFunctions id fs.delegate).create = fs.create ∧
      (Filesystem.ofFunctions id fs.delegate).remove = fs.remove ∧
      (Filesystem.ofFunctions id fs.delegate).removeAll = fs.removeAll := by
  obtain ⟨⟨⟨-, makes⟩, creates⟩, -⟩ : ((fs.members.canOpen = true ∧ fs.members.mkdirAll?.isSome = true) ∧
      fs.members.create?.isSome = true) ∧ fs.members.write?.isSome = true := by
    simpa only [Members.canWrite, Bool.and_eq_true] using writes
  obtain ⟨⟨-, takes⟩, clears⟩ : (fs.members.canOpen = true ∧ fs.members.remove?.isSome = true) ∧
      fs.members.removeAll?.isSome = true := by
    simpa only [Members.canRemove, Bool.and_eq_true] using removes
  obtain ⟨mkdirAll, made⟩ := Option.isSome_iff_exists.1 makes
  obtain ⟨create, created⟩ := Option.isSome_iff_exists.1 creates
  obtain ⟨remove, taken⟩ := Option.isSome_iff_exists.1 takes
  obtain ⟨removeAll, cleared⟩ := Option.isSome_iff_exists.1 clears
  have made' : fs.delegate.mkdirAll? = some mkdirAll := (if_pos writes).trans made
  have created' : fs.delegate.create? = some create := (if_pos writes).trans created
  have taken' : fs.delegate.remove? = some remove := (if_pos removes).trans taken
  have cleared' : fs.delegate.removeAll? = some removeAll := (if_pos removes).trans cleared
  refine ⟨?_, ?_, ?_, ?_⟩
  · funext dir mode
    show fs.delegate.mkdirAll?.getD _ dir mode = _
    rw [made', Option.getD_some, Filesystem.mkdirAll, writes, made]
  · funext name mode
    show fs.delegate.create?.getD _ name mode = _
    rw [created', Option.getD_some, Filesystem.create, writes, created]
  · funext name
    show fs.delegate.remove?.getD _ name = _
    rw [taken', Option.getD_some, Filesystem.remove, removes, taken]
  · funext name
    show fs.delegate.removeAll?.getD _ name = _
    rw [cleared', Option.getD_some, Filesystem.removeAll, removes, cleared]

/-- Any number of layers changes what the view does. -/
theorem serves_layered (id : Nat) (view : View) (layers : List Nat) :
    Serves (layered (filesystem id view) layers) view := by
  have opens := (layered_asks (filesystem id view) layers).1
  suffices changes : (layered (filesystem id view) layers).members.canWrite = true ∧
      (layered (filesystem id view) layers).members.canRemove = true ∧
      Serves (layered (filesystem id view) layers) view from changes.2.2
  induction layers with
  | nil => exact ⟨rfl, rfl, rfl, rfl, rfl, rfl, rfl⟩
  | cons layer layers ih =>
    obtain ⟨writes, removes, below⟩ := ih (layered_asks _ layers).1
    obtain ⟨mkdirAll, create, remove, removeAll⟩ := forwards_changes layer writes removes
    exact ⟨rfl, rfl, opens, mkdirAll.trans below.mkdirAll, create.trans below.create, remove.trans below.remove,
      removeAll.trans below.removeAll⟩

/-! ## Steps of the script -/

/-- An action answers and makes one store of a volume of another. -/
def Takes (n : Nat) (action : Action Unit) (s t : Store Entry) : Prop :=
  ∀ w, n < w.volumes.size → (w.volume n).store = s →
    ∃ w', action w = (.ok (), w') ∧ n < w'.volumes.size ∧ (w'.volume n).store = t

theorem Takes.bind {first second : Action Unit} (takes : Takes n first s t) (takes' : Takes n second t u) :
    Takes n (first >>= fun _ => second) s u := by
  intro w there store
  obtain ⟨w', run, there', store'⟩ := takes w there store
  rw [Action.bind_eq, run]
  exact takes' w' there' store'

theorem takes_pure (n : Nat) (s : Store Entry) : Takes n (pure ()) s s :=
  fun w there store => ⟨w, rfl, there, store⟩

/-- Parts are written one after the other, and the handle has collected all of them. -/
theorem writeParts_collecting (id : Nat) (h : Handle) (parts : List Bytes) (proper : ∀ part ∈ parts, part ≠ [])
    {got : Bytes} (there : i < w.memoryHandles.size) (writer : handle w i = collecting view name mode got) :
    ∃ w', Filesystem.writeParts (file id i h) parts w = (.ok (parts.flatten.length : Int), w') ∧
      handle w' i = collecting view name mode (got ++ parts.flatten) ∧ w'.volumes = w.volumes := by
  induction parts generalizing w got with
  | nil => exact ⟨w, rfl, by rw [List.flatten_nil, List.append_nil, writer], rfl⟩
  | cons part parts ih =>
    have wrote := write_file id h writer (proper part (List.mem_cons_self ..))
    obtain ⟨w', run, writer', same⟩ := ih (w := setHandle w i (collecting view name mode (got ++ part)))
      (fun part member => proper part (List.mem_cons_of_mem _ member)) (by simpa [setHandle] using there)
      (handle_setHandle there _)
    refine ⟨w', ?_, by rw [writer', List.flatten_cons, List.append_assoc], same⟩
    rw [Filesystem.writeParts, Action.bind_eq, wrote]
    dsimp only
    rw [Action.bind_eq, run]
    dsimp only
    rw [List.flatten_cons, List.length_append, Int.natCast_add]
    rfl

/-- The parts have content. -/
theorem parts_proper : (∀ part ∈ Filesystem.parts, part ≠ []) ∧ Filesystem.parts.flatten ≠ [] := by decide +kernel

/-- What is written to a new file is found there once it is closed. -/
theorem takes_written (serves : Serves fs ⟨n, root⟩) {k : Text} {old : Entry}
    (made : (create root name mode s).1 = .ok (k, old)) (id : Nat) (h : Handle) (there : n < w.volumes.size)
    (store : (w.volume n).store = (create root name mode s).2) (last : i < w.memoryHandles.size)
    (writer : handle w i = .ofNew ⟨n, root⟩ name mode) :
    ∃ w', fs.checkWritten (file id i h) name w = (.ok (), w') ∧ n < w'.volumes.size ∧
      (w'.volume n).store = (create root name mode s).2.put k (old.holding Filesystem.parts.flatten) := by
  obtain ⟨proper, content⟩ := parts_proper
  have empty : handle w i = collecting ⟨n, root⟩ name mode [] := writer
  obtain ⟨w₁, wrote, writer₁, same⟩ := writeParts_collecting id h Filesystem.parts proper last empty
  have there₁ : n < w₁.volumes.size := by rwa [same]
  have store₁ : (w₁.volume n).store = (create root name mode s).2 := by rw [volume_eq same, store]
  obtain ⟨w₂, closed, -, turned⟩ := closeHandle_collecting writer₁ there₁ made store₁
  rw [List.nil_append, if_neg content] at turned
  have there₂ : n < w₂.volumes.size := by rwa [turned.size]
  obtain ⟨valid, rfl, plain, -⟩ := create_eq_ok made
  have located : locate root (w₂.volume n).store name = .ok (key root name, old.holding Filesystem.parts.flatten) :=
    locate_eq_ok.2 ⟨valid, rfl, by rw [turned.store, Store.get?_put, if_pos rfl]⟩
  have asked := reads_opener 0 w₂ ⟨n, root⟩ name
  have opened : contentOpened root (w₂.volume n).store name = .ok Filesystem.parts.flatten := by
    rw [contentOpened, located]
    exact if_neg (by simpa [Entry.holding] using plain)
  rw [opened] at asked
  have readBack : Answers w₂ (fs.withFile name fun r => r.read (-1)) (.ok Filesystem.parts.flatten) := by
    rw [withFile_eq serves.openFile]
    exact asked
  have rescued (otherwise : Error → Action Int) :
      (Filesystem.writeParts (file id i h) Filesystem.parts).rescue otherwise w =
        (.ok (Filesystem.parts.flatten.length : Int), w₁) := by rw [Action.rescue, wrote]
  have expected (label : Text) : Filesystem.expecting label (file id i h).close w₁ = (.ok (), w₂) :=
    Action.retell_eq_ok.2 closed
  refine ⟨(fs.withFile name (fun r => r.read (-1)) w₂).2, ?_, ?_, ?_⟩
  · rw [Filesystem.checkWritten, Action.bind_eq, rescued]
    dsimp only
    rw [Action.bind_eq, expected]
    simp only [ne_eq, not_true_eq_false, if_false]
    rw [Action.bind_eq, readBack.run rfl]
    simp only [not_true_eq_false, if_false]
    rfl
  · rwa [readBack.volumes w₂ rfl]
  · rw [volume_eq (readBack.volumes w₂ rfl), turned.store]

/-- How a file is created in a store: it is refused there, or a new handle collects for it. -/
theorem createFile_run (name : Text) (mode : Int) (there : n < w.volumes.size) (store : (w.volume n).store = s) :
    ∃ w', Turned n (create root name mode s).2 w w' ∧ createFile ⟨n, root⟩ name mode w =
      match (create root name mode s).1 with
      | .error fault => (.error fault, w')
      | .ok _ => newFile (.ofNew ⟨n, root⟩ name mode) w' := by
  subst store
  exact ⟨_, turned_change there fun root => create root name mode, createFile_eq ⟨n, root⟩ name mode w⟩

section
variable (serves : Serves fs ⟨n, root⟩)
include serves

/-- A file that is laid passes as one that must not fail. -/
theorem takes_laid (laid : (lay root name sample s).1 = .ok ()) :
    Takes n (fs.checkCreate name false) s (lay root name sample s).2 := by
  intro w there store
  obtain ⟨fault, -, eq⟩ | ⟨old, made, eq⟩ := lay_file (e := sample) rfl root name s
  · rw [eq] at laid
    cases laid
  rw [copyBits_sample] at made
  obtain ⟨w₁, turned, created⟩ := createFile_run name Mode.standard there store
  rw [made] at created
  obtain ⟨w', checked, there', store'⟩ := takes_written (w := (newFile (.ofNew ⟨n, root⟩ name Mode.standard) w₁).2)
    serves made w₁.serial (.ofNew ⟨n, root⟩ name Mode.standard) (turned.size.symm ▸ there) turned.store
    (by simp [newFile]) (handle_newFile _ w₁)
  refine ⟨w', ?_, there', ?_⟩
  · rw [Filesystem.checkCreate, Action.bind_eq, Action.rescue, Action.map_eq, serves.create, created]
    exact checked
  · rw [eq, store', copyBits_sample]
    exact (if_neg parts_proper.2).symm

/-- A file that is refused passes as one that must fail. -/
theorem takes_refused {fault : Error} (refused : (lay root name sample s).1 = .error fault) :
    Takes n (fs.checkCreate name true) s (lay root name sample s).2 := by
  intro w there store
  obtain ⟨fault', failed, eq⟩ | ⟨old, -, eq⟩ := lay_file (e := sample) rfl root name s
  · have system := isSystem_create (sample.permissions_copyBits) failed
    rw [copyBits_sample] at failed
    obtain ⟨w₁, turned, created⟩ := createFile_run name Mode.standard there store
    rw [failed] at created
    refine ⟨w₁, ?_, turned.size.symm ▸ there, by rw [eq, turned.store]; rfl⟩
    rw [Filesystem.checkCreate, Action.bind_eq, Action.rescue, Action.map_eq, serves.create, created]
    dsimp only [Except.map]
    rw [if_pos system]
    rfl
  · rw [eq] at refused
    cases refused

/-- What the script does to the store it does through the filesystem. -/
theorem takes_runs {dir : Text} {cases : List (String × Bool)} (runs : Runs root dir cases s t) :
    Takes n (cases.forM fun (name, mustFail) => fs.checkCreate (dir ++ .char '/' :: name.text) mustFail) s t := by
  induction runs with
  | done => exact takes_pure n _
  | laid ok _ ih => exact (takes_laid serves ok).bind ih
  | refused failed _ ih => exact (takes_refused serves failed).bind ih

end

/-- Taking out what a name leads to passes. -/
theorem takes_change {f : Text → Store Entry → Except Error Unit × Store Entry} (done : f root s = (.ok (), t))
    (label : Text) : Takes n (Filesystem.expecting label (change ⟨n, root⟩ f)) s t := by
  intro w there store
  have turned : Turned n (f root (w.volume n).store).2 w (change ⟨n, root⟩ f w).2 := turned_change there f
  have run : change ⟨n, root⟩ f w = (.ok (), (change ⟨n, root⟩ f w).2) := by
    rw [change_eq]
    dsimp only
    rw [store, done]
  rw [store, done] at turned
  exact ⟨_, Action.retell_eq_ok.2 run, turned.size.symm ▸ there, turned.store⟩

end Vfs

namespace Vfs.Memory
set_option autoImplicit false
open Vfs.Path Session

variable {w : World} {view : View} {fs : Filesystem} {n : Nat} {s : Store Entry} {as bs : List Text} {dir : Text}

/-! ## The whole check -/

/-- The check of writing below a directory passes, and leaves the store of a view as making the directory leaves it. -/
structure PassesClean (fs : Filesystem) (view : View) (dir : Text) (w : World) : Prop where
  passes : (fs.checkWrites dir w).1 = .ok ()
  makes : (fs.mkdirAll dir Mode.standard w).1 = .ok ()
  entries : ∀ k, ((fs.checkWrites dir w).2.volume view.volume).store.get? k =
    ((fs.mkdirAll dir Mode.standard w).2.volume view.volume).store.get? k
  keys : ((fs.checkWrites dir w).2.volume view.volume).store.keys =
    ((fs.mkdirAll dir Mode.standard w).2.volume view.volume).store.keys

/-- Where the directory can be made and nothing stands below it, the check leaves what making it leaves. -/
theorem takes_checkWrites (serves : Serves fs ⟨n, ofReduced true as⟩) (ha : Names as) (hb : Names bs) (hne : bs ≠ [])
    (sound : s.Sound) (labelled : Labelled s)
    (made : (mkdirAll (ofReduced true as) (ofReduced false bs) Mode.standard s).1 = .ok ())
    (bare : ∀ cs, cs ≠ [] → Names cs → s.get? (ofReduced true (as ++ (bs ++ cs))) = none) :
    ∃ t, Takes n (fs.checkWrites (ofReduced false bs)) s t ∧ t.Sound ∧
      ∀ k, t.get? k = (mkdirAll (ofReduced true as) (ofReduced false bs) Mode.standard s).2.get? k := by
  have bare' (cs : List Text) (hcs : cs ≠ []) (hc : Names cs) :
      (mkdirAll (ofReduced true as) (ofReduced false bs) Mode.standard s).2.get? (ofReduced true (as ++ (bs ++ cs))) =
        none := by
    rw [← bare cs hcs hc]
    refine get?_mkdirAll_apart ha hb fun front behind same => ?_
    obtain rfl := ofReduced_append_inj ha (names_append.2 ⟨hb, hc⟩) (hb.ahead behind) same
    have short := behind.length_le
    have long := List.length_pos_iff.2 hcs
    rw [List.length_append] at short
    omega
  obtain ⟨u, runs, scratched⟩ := script_runs hne ha hb sound made bare'
  have dirNamed : Names [dirName] := by decide
  have hf := names_append.2 ⟨hb, names_fileName⟩
  have hd := names_append.2 ⟨hb, dirNamed⟩
  have removed : Memory.remove (ofReduced true as) (ofReduced false (bs ++ [fileName])) u =
      (.ok (), u.remove (ofReduced true (as ++ bs ++ [fileName]))) := by
    rw [Memory.remove, if_pos (isValid_iff_names.2 ⟨_, hf, rfl⟩), key_ofReduced ha hf, List.append_assoc]
  have cleared (v : Store Entry) : Memory.removeAll (ofReduced true as) (ofReduced false (bs ++ [dirName])) v =
      (.ok (), v.removeAll (ofReduced true (as ++ bs ++ [dirName]))) := by
    rw [Memory.removeAll, if_pos (isValid_iff_names.2 ⟨_, hd, rfl⟩), key_ofReduced ha hd, List.append_assoc]
  have fileRow : ofReduced false bs ++ .char '/' :: "file.txt".text = ofReduced false (bs ++ [fileName]) :=
    below_row hne (List.cons_ne_nil _ _) rfl
  have dirRow : ofReduced false bs ++ .char '/' :: "dir".text = ofReduced false (bs ++ [dirName]) :=
    below_row hne (List.cons_ne_nil _ _) rfl
  rw [← fileRow] at removed
  rw [← dirRow] at cleared
  have script := (takes_runs serves runs).bind ((takes_change (n := n) removed "file.txt: remove_file: ".text).bind
    (takes_change (n := n) (cleared _) "dir: remove_all: ".text))
  have free (k : Text) (member : Scratch (as ++ bs) k) :=
    bare_scratch ha hb (labelled.made (made_mkdirAll (isRoot_ofReduced ha) _ _ s)) bare' member
  refine ⟨_, ?_, (scratched.sound.remove _).removeAll _, scratched.cleaned free⟩
  rw [Filesystem.checkWrites, serves.remove, serves.removeAll]
  exact script

/-- What is listed is a directory. -/
theorem isDirectory_of_listing {entries : List Info} (names : Names (as ++ bs))
    (listed : listing ⟨n, ofReduced true as⟩ (ofReduced false bs) w = .ok entries) :
    IsDirectory (w.volume n).store (ofReduced true (as ++ bs)) := by
  obtain ⟨ha, hb⟩ := names_append.1 names
  rcases listing_cases w n ha (ofReduced false bs) with ⟨bs', hb', same, there⟩ | ⟨fault, refused, -⟩
  · rwa [ofReduced_inj hb hb' same]
  · rw [refused] at listed
    cases listed

/-- Nothing stands under a name, or an empty directory. -/
def View.Vacant (view : View) (w : World) (dir : Text) : Prop :=
  view.stored? w dir = none ∨ listing view dir w = .ok []

section
variable (names : Names (as ++ bs)) (vacant : View.Vacant ⟨n, ofReduced true as⟩ w (ofReduced false bs))
include names vacant

/-- Nothing stands below. -/
theorem bare_of_vacant (sound : (w.volume n).store.Sound) (labelled : Labelled (w.volume n).store)
    (linked : Linked (w.volume n).store) {cs : List Text} (hcs : cs ≠ []) (hc : Names cs) :
    (w.volume n).store.get? (ofReduced true (as ++ (bs ++ cs))) = none := by
  have whole := names_append.2 ⟨names, hc⟩
  rw [← List.append_assoc]
  rcases vacant with missing | empty
  · rw [stored?_row names] at missing
    exact linked.bare missing whole
  · obtain ⟨c, rest, rfl⟩ := List.exists_cons_of_ne_nil hcs
    have split : as ++ bs ++ c :: rest = as ++ bs ++ [c] ++ rest := by simp
    rw [split] at whole ⊢
    refine linked.bare (Option.eq_none_iff_forall_ne_some.2 fun e stored => ?_) whole
    have there := isDirectory_of_listing names empty
    obtain ⟨children, listed, -, members⟩ := listing_spec sound (labelled.under _) names there
    rw [empty] at listed
    obtain rfl := Except.ok.inj listed
    exact absurd ((members c _).2 ⟨(names_append.1 whole).1, e, stored, rfl⟩).1 List.not_mem_nil

/-- The directory is made, if no file is above it. -/
theorem mkdirAll_of_vacant
    (clear : ∀ p e, AtOrBelow p (ofReduced false bs) → p ≠ ofReduced false bs →
      View.stored? ⟨n, ofReduced true as⟩ w p = some e → e.directory = true) :
    (mkdirAll (ofReduced true as) (ofReduced false bs) Mode.standard (w.volume n).store).1 = .ok () := by
  obtain ⟨ha, hb⟩ := names_append.1 names
  have allowed : Mode.permissions Mode.standard = .ok Mode.standard := by decide
  refine (mkdirAll_ok_iff_clear ha hb allowed).2 fun p e within stored => ?_
  by_cases last : p = ofReduced false bs
  · subst last
    rcases vacant with missing | empty
    · rw [missing] at stored
      cases stored
    · obtain ⟨d, there, kind⟩ := isDirectory_of_listing names empty
      rw [stored?_row names, there] at stored
      exact Option.some.inj stored ▸ kind
  · exact clear p e within last stored

end

/-- **The check of writing passes and cleans up**, below every directory of a well-formed tree that is missing or empty
and has no file above it: asked of any view that calls on a new filesystem left, of the whole or of a directory in it,
and of what forwards to one through any number of layers. -/
theorem check_writes_clean
    (reached : ∃ calls v, (w.volume view.volume).store = (start.after calls).store ∧
      view.root = (start.after calls).root v)
    (linked : Linked (w.volume view.volume).store)
    (present : ((w.volume view.volume).store.get? view.root).isSome = true)
    (valid : isValid dir = true) (proper : dir ≠ here)
    (clear : ∀ p e, AtOrBelow p dir → p ≠ dir → view.stored? w p = some e → e.directory = true)
    (vacant : view.Vacant w dir) (id : Nat) (layers : List Nat) :
    PassesClean (layered (filesystem id view) layers) view dir w := by
  obtain ⟨calls, v, left, root⟩ := reached
  obtain ⟨wired, sound, labelled⟩ := labelled_after calls
  rw [← left] at sound labelled
  obtain ⟨as, ha, row⟩ := (root ▸ wired.root v : IsRoot view.root).names
  obtain ⟨n, key⟩ := view
  obtain rfl : key = ofReduced true as := row
  obtain ⟨bs, hb, rfl⟩ := isValid_iff_names.1 valid
  have hne : bs ≠ [] := by
    rintro rfl
    exact proper rfl
  have names := names_append.2 ⟨ha, hb⟩
  have serves := serves_layered id ⟨n, ofReduced true as⟩ layers
  have there : n < w.volumes.size := there_of_stored present
  have made := mkdirAll_of_vacant names vacant clear
  obtain ⟨t, takes, sound', same⟩ := takes_checkWrites serves ha hb hne sound labelled made
    (fun cs => bare_of_vacant names vacant sound labelled linked)
  obtain ⟨w', run, -, store⟩ := takes w there rfl
  have alone : (layered (filesystem id ⟨n, ofReduced true as⟩) layers).mkdirAll (ofReduced false bs) Mode.standard w =
      change ⟨n, ofReduced true as⟩ (fun root => mkdirAll root (ofReduced false bs) Mode.standard) w := by
    rw [serves.mkdirAll]
  have turned : Turned n (mkdirAll (ofReduced true as) (ofReduced false bs) Mode.standard (w.volume n).store).2 w
      (change ⟨n, ofReduced true as⟩ (fun root => mkdirAll root (ofReduced false bs) Mode.standard) w).2 :=
    turned_change there fun root => mkdirAll root (ofReduced false bs) Mode.standard
  refine ⟨by rw [run], ?_, ?_, ?_⟩
  · rw [alone, change_eq]
    exact made
  · rw [run, alone, turned.store]
    dsimp only
    rw [store]
    exact same
  · rw [run, alone, turned.store]
    dsimp only
    rw [store]
    exact sound'.keys_eq ((grows_mkdirAll _ _ _ _).sound sound) same

/-- The calls of a session that leaves an empty directory beside a file that begins like it, and a view of the two. -/
def besideCalls : List Call :=
  [.on 0 (.write "a/d-1".text [104, 105] 0o644), .on 0 (.mkdirAll "a/d".text 0o777), .on 0 (.sub "a".text)]

theorem check_writes_clean_beside :
    (∃ calls v, ((start.after besideCalls).world.volume 0).store = (start.after calls).store ∧
      "/a".text = (start.after calls).root v) ∧
    Linked ((start.after besideCalls).world.volume 0).store ∧
    (((start.after besideCalls).world.volume 0).store.get? "/a".text).isSome = true ∧
    isValid "d".text = true ∧ "d".text ≠ here ∧
    (∀ p e, AtOrBelow p "d".text → p ≠ "d".text →
      View.stored? ⟨0, "/a".text⟩ (start.after besideCalls).world p = some e → e.directory = true) ∧
    View.Vacant ⟨0, "/a".text⟩ (start.after besideCalls).world "d".text ∧
    PassesClean (layered (filesystem 0 ⟨0, "/a".text⟩) [1]) ⟨0, "/a".text⟩ "d".text
      (start.after besideCalls).world := by
  have wrote := Reached.call (.on 0 (.write "a/d-1".text [104, 105] 0o644)) .start (.inl rfl)
  have made := Reached.call (.on 0 (.mkdirAll "a/d".text 0o777)) wrote (.inl rfl)
  have linked := (tree_reached (.call (.on 0 (.sub "a".text)) made trivial)).1.linked
  have reached : ∃ calls v, ((start.after besideCalls).world.volume 0).store = (start.after calls).store ∧
      "/a".text = (start.after calls).root v := ⟨besideCalls, 1, rfl, by decide +kernel⟩
  have present : (((start.after besideCalls).world.volume 0).store.get? "/a".text).isSome = true := by
    decide +kernel
  have clear (p : Text) (e : Entry) (within : AtOrBelow p "d".text) (above : p ≠ "d".text)
      (stored : View.stored? ⟨0, "/a".text⟩ (start.after besideCalls).world p = some e) : e.directory = true := by
    have named : Names ["d".text] := by decide
    obtain ⟨front, behind, rfl⟩ := (atOrBelow_row named).1 within
    have split : front <+: [] ++ ["d".text] := behind
    rcases List.prefix_concat_iff.1 split with rfl | top
    · exact absurd rfl above
    · rw [List.prefix_nil.1 top] at stored
      have kind : (View.stored? ⟨0, "/a".text⟩ (start.after besideCalls).world here).all (·.directory) = true := by
        decide +kernel
      rw [ofReduced_nil] at stored
      rwa [stored] at kind
  have vacant : View.Vacant ⟨0, "/a".text⟩ (start.after besideCalls).world "d".text := .inr (by decide +kernel)
  exact ⟨reached, linked, present, by decide, by decide, clear, vacant,
    @check_writes_clean (start.after besideCalls).world ⟨0, "/a".text⟩ "d".text reached linked present (by decide)
      (by decide) clear vacant 0 [1]⟩

end Vfs.Memory
