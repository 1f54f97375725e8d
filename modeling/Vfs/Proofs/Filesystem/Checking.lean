import Vfs.Filesystem.Conformance
import Vfs.Proofs.Filesystem.Emulation
import Vfs.Proofs.Filesystem.Naming
import Vfs.Proofs.Memory.Rooted

/-!
# What a check of files accepts

A check of files asks about each name in every way there is and compares the answers. On a tree whose entries are
named by their keys it accepts just the files (`decidesFiles_layered`), be it asked of a view, of what can only
open the view, or of what forwards to either.
-/

namespace Vfs
set_option autoImplicit false

namespace Answers

variable {α : Type} {home : World} {body : Action α} {next : World → Action α} {a : α} {e : Error}
  {r : Except Error α}

/-- Looking at the world first. -/
theorem get_bind (later : ∀ w, w.volumes = home.volumes → Answers home (next w) r) :
    Answers home ((get : Action World) >>= next) r :=
  ⟨fun w same => (later w same).answer w same, fun w same => (later w same).volumes w same⟩

theorem expecting (asked : Answers home body (.ok a)) (label : Text) :
    Answers home (Filesystem.expecting label body) (.ok a) := by
  have step (w : World) (same : w.volumes = home.volumes) :
      Filesystem.expecting label body w = (.ok a, (body w).2) := by
    rw [Filesystem.expecting, Action.retell_eq, asked.answer w same]
    rfl
  exact ⟨fun w same => by rw [step w same], fun w same => by rw [step w same]; exact asked.volumes w same⟩

/-- An error of the host where nothing may fail is a disagreement. -/
theorem expecting_error (asked : Answers home body (.error e)) (system : e.isSystem = true) (label : Text) :
    Answers home (Filesystem.expecting label body) (.error (Fault.assertion (label ++ e.message)).error) := by
  have step (w : World) (same : w.volumes = home.volumes) : Filesystem.expecting label body w =
      (.error (Fault.assertion (label ++ e.message)).error, (body w).2) := by
    rw [Filesystem.expecting, Action.retell_eq, asked.answer w same, Except.mapError, if_pos system]
  exact ⟨fun w same => by rw [step w same], fun w same => by rw [step w same]; exact asked.volumes w same⟩

end Answers

end Vfs

namespace Vfs.Memory
set_option autoImplicit false
open Vfs.Path Session

/-- A file is stored under a name of a view. -/
def IsFile (view : View) (w : World) (name : Text) : Prop :=
  ∃ e, view.stored? w name = some e ∧ e.directory = false

/-- Checking files of a filesystem passes just for those of a view, its own name never among them, and fails as a
disagreement. The own name of a view whose root is a file is not covered: no directory lists it. -/
structure DecidesFiles (view : View) (w : World) (fs : Filesystem) : Prop where
  passes_iff : ∀ names, (fs.checkFiles names w).1 = .ok () ↔
    names ≠ [] ∧ ∀ name ∈ names, name ≠ here ∧ IsFile view w name
  fails : ∀ names, (fs.checkFiles names w).1 ≠ .ok () → here ∉ names ∨ ¬IsFile view w here →
    ∃ detail, (fs.checkFiles names w).1 = .error (Fault.assertion detail).error

/-- A filesystem opens, describes, lists and reads as a view does. -/
structure Reads (home : World) (view : View) (fs : Filesystem) : Prop where
  opens : fs.openFile = openFile view
  shows : Shows home view fs.stat fs.list
  read : ∀ name e, view.stored? home name = some e → e.directory = false → Answers home (fs.read name) (.ok e.data)

/-- And it finds what is stored by its escaped name alone. -/
structure Sees (home : World) (view : View) (fs : Filesystem) : Prop extends Reads home view fs where
  glob : ∀ name, name ≠ here → (view.stored? home name).isSome = true →
    Answers home (fs.glob (Glob.escape name)) (.ok [name])

variable {home : World} {n : Nat} {as bs : List Text} {fs : Filesystem} {name : Text} {names : List Text} {e : Entry}

/-- A tree whose entries are named by their keys, seen from a row of names. -/
structure Neat (s : Store Entry) (as : List Text) : Prop where
  sound : s.Sound
  formed : FormedNamed s
  names : Names as
  root : (s.get? (ofReduced true as)).isSome = true

/-! ## What a check is answered -/

theorem locate_of_stored {view : View} (stored : view.stored? home name = some e) :
    ∃ k, locate view.root (home.volume view.volume).store name = .ok (k, e) := by
  unfold View.stored? at stored
  cases located : locate view.root (home.volume view.volume).store name with
  | error fault =>
    rw [located] at stored
    cases stored
  | ok l =>
    rw [located] at stored
    exact ⟨l.1, by rw [← Option.some.inj stored]⟩

theorem content_of_stored {view : View} (stored : view.stored? home name = some e) (file : e.directory = false) :
    content view.root (home.volume view.volume).store name = .ok e.data := by
  obtain ⟨k, located⟩ := locate_of_stored stored
  obtain ⟨-, rfl, -⟩ := locate_eq_ok.1 located
  exact content_eq_ok.2 ⟨e, located, file, rfl⟩

theorem globs_view (id : Nat) (home : World) (view : View) (pattern : Text) :
    Answers home ((filesystem id view).glob pattern) (glob view.root (home.volume view.volume).store pattern) where
  answer := fun w same => by
    show glob view.root (w.volume view.volume).store pattern = _
    rw [volume_eq same]
  volumes := fun _ same => same

theorem reads_view (id : Nat) (home : World) (view : View) : Reads home view (filesystem id view) where
  opens := rfl
  shows := shows_filesystem id home view
  read := fun name e stored file => by
    have asked := reads_filesystem id home view name
    rwa [content_of_stored stored file] at asked

section
variable (neat : Neat (home.volume n).store as)
include neat

theorem Neat.row (stored : View.stored? ⟨n, ofReduced true as⟩ home name = some e) :
    ∃ bs, Names bs ∧ name = ofReduced false bs ∧ (home.volume n).store.get? (ofReduced true (as ++ bs)) = some e := by
  obtain ⟨bs, hb, rfl⟩ := isValid_iff_names.1 (isValid_of_stored stored)
  exact ⟨bs, hb, rfl, by rwa [stored?_row (names_append.2 ⟨neat.names, hb⟩)] at stored⟩

theorem Neat.sorted (dir : Text) (entries : List Info)
    (listed : listing ⟨n, ofReduced true as⟩ dir home = .ok entries) :
    entries.Pairwise fun e e' => e.name < e'.name := by
  rcases listing_cases home n neat.names dir with ⟨bs, hb, rfl, there⟩ | ⟨fault, refused, -⟩
  · obtain ⟨entries', told, sorted, -⟩ :=
      listing_named neat.sound neat.formed.named (names_append.2 ⟨neat.names, hb⟩) there
    rw [listed] at told
    cases told
    exact List.pairwise_map.1 sorted
  · rw [refused] at listed
    cases listed

theorem Neat.sees_filesystem (id : Nat) :
    Sees home ⟨n, ofReduced true as⟩ (filesystem id ⟨n, ofReduced true as⟩) where
  toReads := reads_view id home _
  glob := by
    intro name proper present
    obtain ⟨e, stored⟩ := Option.isSome_iff_exists.1 present
    obtain ⟨bs, hb, rfl, there⟩ := neat.row stored
    have hne : bs ≠ [] := by
      rintro rfl
      exact proper rfl
    have asked := globs_view id home ⟨n, ofReduced true as⟩ (Glob.escape (ofReduced false bs))
    rwa [glob_escape neat.sound neat.names hb hne neat.root (by rw [there, Option.isSome_some])] at asked

theorem Neat.sees_opener (id : Nat) :
    Sees home ⟨n, ofReduced true as⟩ (.opener id (some (openFile ⟨n, ofReduced true as⟩))) where
  opens := rfl
  shows := shows_opener id neat.sorted
  read := fun name e stored file => by
    have asked := reads_opener id home ⟨n, ofReduced true as⟩ name
    rwa [(contentOpened_content _ _ _).1 _ (content_of_stored stored file)] at asked
  glob := by
    intro name proper present
    obtain ⟨e, stored⟩ := Option.isSome_iff_exists.1 present
    obtain ⟨bs, hb, rfl, there⟩ := neat.row stored
    have hne : bs ≠ [] := by
      rintro rfl
      exact proper rfl
    exact search_escape neat.sound neat.names neat.formed.named (shows_opener id neat.sorted) neat.formed.linked
      hb hne (by rw [there, Option.isSome_some])

end

theorem Sees.layered {view : View} (sees : Sees home view fs) (layers : List Nat) :
    Sees home view (layered fs layers) := by
  obtain ⟨opens, stat, list, read, glob⟩ := layered_asks fs layers
  exact ⟨⟨opens.trans sees.opens, stat ▸ list ▸ sees.shows, read ▸ sees.read⟩, glob ▸ sees.glob⟩

/-! ## One name -/

/-- What is said of an entry is what is said of it later, as long as it is stored. -/
theorem refresh_describe {w : World} {view : View} {k : Text} (same : w.volumes = home.volumes)
    (stored : (home.volume view.volume).store.get? k = some e) :
    w.refresh (describe view (k, e) home) = describe view (k, e) home := by
  have last : ((home.volume view.volume).past k)[((home.volume view.volume).past k).length]? = none :=
    List.getElem?_eq_none (Nat.le_refl _)
  simp only [World.refresh, describe, Volume.info, Entry.info, Volume.entryOf?, volume_eq same, last, stored]

theorem withFile_eq {view : View} {α : Type} (opens : fs.openFile = openFile view) (name : Text)
    (question : File → Action α) :
    fs.withFile name question = (Filesystem.opener 0 (some (openFile view))).withFile name question := by
  rw [Filesystem.withFile, opens]
  rfl

/-- How the check of a file ends, once what it reads was compared: its directory is not listed, or it is, and then
the name is looked for by its escaped form. -/
inductive CheckEnds (home : World) (view : View) (fs : Filesystem) (name : Text) : Except Error Unit → Prop where
  | unlisted {fault : Error} : listing view (parent name) home = .error fault →
      CheckEnds home view fs name (.error fault)
  | listed {entries : List Info} {found : List Text} : listing view (parent name) home = .ok entries →
      (entries.map Info.name).Pairwise (· < ·) → lastElement name ∈ entries.map Info.name →
      Answers home (fs.glob (Glob.escape name)) (.ok found) →
      CheckEnds home view fs name (if found ≠ [name] then .error (Fault.assertion (name ++ ": glob got ".text ++
        Text.quotedList found ++ "; want ".text ++ Text.quotedList [name])).error else .ok ())

section
variable {view : View} (reads : Reads home view fs)
include reads

/-- What is no file does not open and read, and a check of it is a disagreement. -/
theorem Reads.check_other (other : ¬IsFile view home name) :
    ∃ detail, Answers home (fs.checkFile name) (.error (Fault.assertion detail).error) := by
  have asked := reads_opener 0 home view name
  have refused : ∃ e, contentOpened view.root (home.volume view.volume).store name = .error e ∧ e.isSystem = true := by
    unfold contentOpened
    cases located : locate view.root (home.volume view.volume).store name with
    | error fault => exact ⟨fault, rfl, locate_isSystem located⟩
    | ok l =>
      have stored : view.stored? home name = some l.2 := by rw [View.stored?, located]; rfl
      cases kind : l.2.directory with
      | true => exact ⟨_, if_pos kind, Fault.isSystem_at ..⟩
      | false => exact absurd ⟨_, stored, kind⟩ other
  obtain ⟨fault, refused, system⟩ := refused
  rw [refused] at asked
  refine ⟨name ++ ": open: ".text ++ fault.message, Answers.bind_error ?_⟩
  rw [withFile_eq reads.opens]
  exact asked.expecting_error system _

/-- A file that opens and reads alike is looked for in the listing of its directory, and then by its name. -/
theorem Reads.check_file {r : Except Error Unit} (stored : view.stored? home name = some e) (file : e.directory = false)
    (ends : CheckEnds home view fs name r) : Answers home (fs.checkFile name) r := by
  obtain ⟨k, located⟩ := locate_of_stored stored
  obtain ⟨valid, rfl, present⟩ := locate_eq_ok.1 located
  have opened : Answers home (Filesystem.expecting (name ++ ": open: ".text) (fs.withFile name fun f => f.read (-1)))
      (.ok e.data) := by
    have asked := reads_opener 0 home view name
    have read : contentOpened view.root (home.volume view.volume).store name = .ok e.data := by
      simp [contentOpened, located, file]
    rw [read] at asked
    rw [withFile_eq reads.opens]
    exact asked.expecting _
  have told := reads.shows.stat name
  simp only [Memory.stat, located, Except.map] at told
  have size : (describe view (key view.root name, e) home).size = e.data.length := by
    simp [describe, Volume.info, Entry.info, Entry.size, file]
  have kind : (describe view (key view.root name, e) home).directory = false := file
  refine opened.bind ((reads.read name e stored file).bind ?_)
  simp only [ne_eq, not_true_eq_false, if_false]
  refine told.bind ?_
  simp only [kind, Bool.false_eq_true, if_false]
  refine Answers.get_bind fun w same => ?_
  simp only [refresh_describe same present, size, not_true_eq_false, if_false]
  have listed := reads.shows.list (parent name)
  cases ends with
  | unlisted refused =>
    rw [refused] at listed
    exact listed.bind_error
  | @listed entries found answered sorted member globbed =>
    have ordered : (entries.map Info.name).mergeSort Text.le = entries.map Info.name :=
      List.mergeSort_of_pairwise (sorted.imp fun {a b} before => by simpa [Text.le] using List.lt_asymm before)
    rw [answered] at listed
    refine listed.bind ?_
    simp only [ordered, not_true_eq_false, if_false, member]
    refine globbed.bind ?_
    split
    · exact ⟨fun _ _ => rfl, fun _ same => same⟩
    · exact .pure ()

end

section
variable (neat : Neat (home.volume n).store as)
include neat

/-- A file other than the view's own root stands in a directory that lists it. -/
theorem Neat.ends_file (sees : Sees home ⟨n, ofReduced true as⟩ fs) (proper : name ≠ here)
    (stored : View.stored? ⟨n, ofReduced true as⟩ home name = some e) :
    CheckEnds home ⟨n, ofReduced true as⟩ fs name (.ok ()) := by
  have globbed := sees.glob name proper (by rw [stored, Option.isSome_some])
  obtain ⟨bs, hb, rfl, present⟩ := neat.row stored
  rcases List.eq_nil_or_concat' bs with rfl | ⟨front, c, rfl⟩
  · exact absurd rfl proper
  · obtain ⟨hf, single⟩ := names_append.1 hb
    have there := neat.formed.linked.holder (names_append.2 ⟨neat.names, hb⟩) (by rw [present, Option.isSome_some])
    obtain ⟨entries, listed, sorted, members⟩ :=
      listing_named neat.sound neat.formed.named (names_append.2 ⟨neat.names, hf⟩) there
    have up : parent (ofReduced false (front ++ [c])) = ofReduced false front := by
      rw [parent_ofReduced hb, List.dropLast_concat]
    have last : lastElement (ofReduced false (front ++ [c])) = c :=
      lastElement_ofReduced (single.no_slash c (List.mem_singleton_self c)) front
    have member := members c single (by rw [List.append_assoc, present, Option.isSome_some])
    have ends := CheckEnds.listed (up.symm ▸ listed) sorted (last.symm ▸ member) globbed
    rwa [if_neg (by simp)] at ends

omit neat in
/-- A view whose root is a file lists nothing, its own name least of all. -/
theorem ends_here {view : View} (stored : view.stored? home here = some e) (file : e.directory = false) :
    ∃ fault, CheckEnds home view fs here (.error fault) := by
  refine ⟨Fault.notDir.at "ReadDir".text here, .unlisted ?_⟩
  have up : parent here = here := by decide
  obtain ⟨k, located⟩ := locate_of_stored stored
  simp [up, listing, list, located, file, Except.map]

/-- A check of one file after the other passes if each of them is one, and fails at the first that is not. -/
theorem Neat.check_files (sees : Sees home ⟨n, ofReduced true as⟩ fs) (names : List Text) :
    ((∀ name ∈ names, name ≠ here ∧ IsFile ⟨n, ofReduced true as⟩ home name) ∧
        Answers home (names.forM fs.checkFile) (.ok ())) ∨
      ((¬∀ name ∈ names, name ≠ here ∧ IsFile ⟨n, ofReduced true as⟩ home name) ∧
        ∃ fault, Answers home (names.forM fs.checkFile) (.error fault) ∧
          (here ∉ names ∨ ¬IsFile ⟨n, ofReduced true as⟩ home here →
            ∃ detail, fault = (Fault.assertion detail).error)) := by
  induction names with
  | nil => exact .inl ⟨fun _ member => absurd member List.not_mem_nil, .pure ()⟩
  | cons name names ih =>
    have step : (name :: names).forM fs.checkFile = (do fs.checkFile name; names.forM fs.checkFile) := rfl
    rw [step]
    by_cases file : IsFile ⟨n, ofReduced true as⟩ home name
    · obtain ⟨e, stored, kind⟩ := file
      by_cases proper : name = here
      · subst proper
        obtain ⟨fault, ends⟩ := ends_here stored kind
        refine .inr ⟨fun each => (each here (List.mem_cons_self ..)).1 rfl, fault,
          (sees.check_file stored kind ends).bind_error, ?_⟩
        rintro (absent | other)
        · exact absurd (List.mem_cons_self ..) absent
        · exact absurd ⟨e, stored, kind⟩ other
      · have passed := sees.check_file stored kind (neat.ends_file sees proper stored)
        rcases ih with ⟨each, rest⟩ | ⟨wrong, fault, rest, told⟩
        · exact .inl ⟨List.forall_mem_cons.2 ⟨⟨proper, e, stored, kind⟩, each⟩, passed.bind rest⟩
        · refine .inr ⟨fun each => wrong (List.forall_mem_cons.1 each).2, fault, passed.bind rest, fun apart => ?_⟩
          exact told (apart.imp_left fun absent member => absent (List.mem_cons_of_mem _ member))
    · obtain ⟨detail, failed⟩ := sees.check_other file
      exact .inr ⟨fun each => file (each name (List.mem_cons_self ..)).2, _, failed.bind_error,
        fun _ => ⟨detail, rfl⟩⟩

theorem Neat.decides (sees : Sees home ⟨n, ofReduced true as⟩ fs) : DecidesFiles ⟨n, ofReduced true as⟩ home fs := by
  have refuses (names : List Text) (empty : names = []) : fs.checkFiles names home =
      (.error (Fault.assertion "expected at least one file to check".text).error, home) := by
    rw [empty]
    rfl
  have checks (names : List Text) (hne : names ≠ []) : fs.checkFiles names home = names.forM fs.checkFile home := by
    rw [Filesystem.checkFiles, if_neg (by simpa using hne)]
  constructor
  · intro names
    by_cases empty : names = []
    · rw [refuses names empty]
      exact ⟨fun told => (nomatch told), fun ⟨hne, _⟩ => absurd empty hne⟩
    · rw [checks names empty, and_iff_right empty]
      rcases neat.check_files sees names with ⟨each, passed⟩ | ⟨other, fault, failed, -⟩
      · exact ⟨fun _ => each, fun _ => passed.answer home rfl⟩
      · rw [failed.answer home rfl]
        exact ⟨fun told => (nomatch told), fun each => absurd each other⟩
  · intro names failed apart
    by_cases empty : names = []
    · exact ⟨_, by rw [refuses names empty]⟩
    · rw [checks names empty] at failed ⊢
      rcases neat.check_files sees names with ⟨each, passed⟩ | ⟨other, fault, stopped, told⟩
      · exact absurd (passed.answer home rfl) failed
      · obtain ⟨detail, rfl⟩ := told apart
        exact ⟨detail, stopped.answer home rfl⟩

end

/-! ## Any number of layers -/

/-- **A check of files accepts just the files**, of a view of a well-formed tree whose root is stored: asked of the
view, of what can only open it, and of either behind any number of layers that forward to it. The root is to be
spelled as paths are. -/
theorem decidesFiles_layered {w : World} {view : View} (sound : (w.volume view.volume).store.Sound)
    (formed : FormedNamed (w.volume view.volume).store)
    (there : ((w.volume view.volume).store.get? view.root).isSome = true) (spelled : view.root ≠ "/.".text)
    (id opening : Nat) (layers : List Nat) :
    DecidesFiles view w (layered (filesystem id view) layers) ∧
      DecidesFiles view w (layered (.opener opening (some (filesystem id view).openFile)) layers) := by
  obtain ⟨n, root⟩ := view
  obtain ⟨d, stored⟩ := Option.isSome_iff_exists.1 there
  obtain ⟨as, ha, rfl⟩ := isKey_iff.1 (formed.isKey stored spelled)
  have neat : Neat (w.volume n).store as := ⟨sound, formed, ha, there⟩
  exact ⟨neat.decides ((neat.sees_filesystem id).layered layers),
    neat.decides ((neat.sees_opener opening).layered layers)⟩

/-- The calls of a session that writes a file under a name in which every element has to be escaped. -/
def starredCalls : List Call := [.on 0 (.write "*/[a]".text [104, 105] 0o644), .on 0 (.sub "*".text)]

theorem decidesFiles_starred :
    (start.after starredCalls).store.Sound ∧ FormedNamed (start.after starredCalls).store ∧
      ((start.after starredCalls).store.get? "/*".text).isSome = true ∧ "/*".text ≠ "/.".text ∧
      DecidesFiles ⟨0, "/*".text⟩ (start.after starredCalls).world (layered (filesystem 0 ⟨0, "/*".text⟩) [1]) ∧
      DecidesFiles ⟨0, "/*".text⟩ (start.after starredCalls).world
        (layered (.opener 1 (some (filesystem 0 ⟨0, "/*".text⟩).openFile)) [1]) := by
  have written := Reached.call (.on 0 (.write "*/[a]".text [104, 105] 0o644)) .start (.inl rfl)
  obtain ⟨-, sound, tree⟩ := invariant_reached (.call (.on 0 (.sub "*".text)) written trivial)
  have there : ((start.after starredCalls).store.get? "/*".text).isSome = true := by decide +kernel
  exact ⟨sound, tree.formedNamed, there, by decide,
    @decidesFiles_layered (start.after starredCalls).world ⟨0, "/*".text⟩ sound tree.formedNamed there (by decide)
      0 1 [1]⟩

/-- The calls of a session that takes a view of a directory and then puts a file where the directory was. -/
def replacedCalls : List Call :=
  [.on 0 (.mkdirAll "d".text 0o777), .on 0 (.sub "d".text), .on 0 (.removeAll "d".text),
    .on 0 (.write "d".text [104, 105] 0o644)]

/-- A session that wrote a file, with the root of the whole also stored under another spelling. -/
def respelled : World :=
  ((Request.mkdirAll here 0o777).ask ⟨0, "/.".text⟩ (start.after [.on 0 (.write "a".text [] 0o644)]).world).2

theorem sound_respelled : (respelled.volume 0).store.Sound := by
  obtain ⟨wired, sound, -⟩ := labelled_after [.on 0 (.write "a".text [] 0o644)]
  rw [respelled, (ask_world _ ⟨0, "/.".text⟩ wired.volume (.mkdirAll here 0o777)).1]
  exact Request.sound_effect sound _ _

theorem formed_respelled : FormedNamed (respelled.volume 0).store := by
  have keys {k : Text} {e : Entry} (stored : (respelled.volume 0).store.get? k = some e) :
      k ∈ ["/".text, "/.".text, "/a".text] := by
    have row : (respelled.volume 0).store.keys.toList = ["/".text, "/.".text, "/a".text] := by decide +kernel
    rw [← row]
    exact (sound_respelled.agree k).2 (by rw [stored]; rfl)
  have up : ∀ k ∈ ["/".text, "/.".text, "/a".text], k ≠ [.char '/'] →
      IsDirectory (respelled.volume 0).store (parent k) := by decide +kernel
  have named : ∀ k ∈ ["/".text, "/.".text, "/a".text], k ≠ [.char '/'] →
      ((respelled.volume 0).store.get? k).all (fun e => e.name = lastElement k) = true := by decide +kernel
  refine ⟨⟨fun k e stored => ?_, fun k e stored => up k (keys stored)⟩, fun k e stored proper => ?_⟩
  · have found := keys stored
    simp only [List.mem_cons, List.not_mem_nil, or_false] at found
    rcases found with rfl | rfl | rfl
    · exact .inl rfl
    · exact .inr ⟨here, by decide, rfl⟩
    · exact .inr ⟨"a".text, by decide, rfl⟩
  · simpa [stored] using named k (keys stored) proper

/-- Seen from `/.` the root of the whole is listed in its place, so the file is there, but no key is below `/.`. -/
theorem refused_respelled (stored : View.stored? ⟨0, "/.".text⟩ respelled "a".text =
    some ⟨"a".text, [], Mode.regular ||| 0o644, false⟩) :
    ((filesystem 0 ⟨0, "/.".text⟩).checkFiles ["a".text] respelled).1 ≠ .ok () := by
  intro passed
  have told : (listing ⟨0, "/.".text⟩ here respelled).toOption.map (List.map Info.name) =
      some [".".text, "a".text] := by decide +kernel
  have unmatched : (glob "/.".text (respelled.volume 0).store (Glob.escape "a".text)).toOption = some [] := by
    decide +kernel
  have globbed := globs_view 0 respelled ⟨0, "/.".text⟩ (Glob.escape "a".text)
  cases listed : listing ⟨0, "/.".text⟩ here respelled with
  | error fault =>
    rw [listed] at told
    cases told
  | ok entries =>
    rw [listed] at told
    have names : entries.map Info.name = [".".text, "a".text] := Option.some.inj told
    cases found : glob "/.".text (respelled.volume 0).store (Glob.escape "a".text) with
    | error fault =>
      rw [found] at unmatched
      cases unmatched
    | ok matched =>
      rw [found] at unmatched globbed
      obtain rfl : matched = [] := Option.some.inj unmatched
      have ends : CheckEnds respelled ⟨0, "/.".text⟩ (filesystem 0 ⟨0, "/.".text⟩) "a".text _ :=
        .listed listed (by rw [names]; decide) (by rw [names]; decide) globbed
      rw [if_pos (by decide)] at ends
      have failed := ((reads_view 0 respelled ⟨0, "/.".text⟩).check_file stored rfl ends).answer respelled rfl
      have alone : (filesystem 0 ⟨0, "/.".text⟩).checkFiles ["a".text] respelled =
          ((filesystem 0 ⟨0, "/.".text⟩).checkFile "a".text >>= fun _ => pure ()) respelled := rfl
      rw [alone, Action.bind_eq] at passed
      generalize (filesystem 0 ⟨0, "/.".text⟩).checkFile "a".text respelled = x at failed passed
      obtain ⟨r, w⟩ := x
      subst failed
      cases passed

/-- Neither the own name of a view nor the spelling of its root can be left out: where the root of a view is a file
now, no directory lists it, and seen from `/.` a file is not found among the keys below. -/
theorem not_decidesFiles :
    (¬∀ (calls : List Call) (v : Nat) (names : List Text), FormedNamed (start.after calls).store →
      ((start.after calls).store.get? ((start.after calls).root v)).isSome = true →
      (((filesystem 0 ⟨0, (start.after calls).root v⟩).checkFiles names (start.after calls).world).1 = .ok () ↔
        names ≠ [] ∧ ∀ name ∈ names, IsFile ⟨0, (start.after calls).root v⟩ (start.after calls).world name)) ∧
      ¬∀ (w : World) (view : View) (names : List Text), (w.volume view.volume).store.Sound →
        FormedNamed (w.volume view.volume).store → ((w.volume view.volume).store.get? view.root).isSome = true →
        here ∉ names →
        (((filesystem 0 view).checkFiles names w).1 = .ok () ↔
          names ≠ [] ∧ ∀ name ∈ names, IsFile view w name) := by
  constructor
  · intro decides
    have written := Reached.call (.on 0 (.mkdirAll "d".text 0o777)) .start (.inl rfl)
    have viewed := Reached.call (.on 0 (.sub "d".text)) written trivial
    have removed := Reached.call (.on 0 (.removeAll "d".text)) viewed (.inl rfl)
    obtain ⟨-, -, tree⟩ := invariant_reached (.call (.on 0 (.write "d".text [104, 105] 0o644)) removed (.inl rfl))
    have file : IsFile ⟨0, (start.after replacedCalls).root 1⟩ (start.after replacedCalls).world here :=
      ⟨⟨"d".text, [104, 105], Mode.regular ||| 0o644, false⟩, by decide +kernel, rfl⟩
    have passed := (decides replacedCalls 1 [here] tree.formedNamed (by decide +kernel)).2
      ⟨List.cons_ne_nil here [], by simpa using file⟩
    have failed : ((filesystem 0 ⟨0, (start.after replacedCalls).root 1⟩).checkFiles [here]
        (start.after replacedCalls).world).1.toBool = false := by decide +kernel
    rw [passed] at failed
    cases failed
  · intro decides
    have stored : View.stored? ⟨0, "/.".text⟩ respelled "a".text =
        some ⟨"a".text, [], Mode.regular ||| 0o644, false⟩ := by decide +kernel
    have passed := (decides respelled ⟨0, "/.".text⟩ ["a".text] sound_respelled formed_respelled
      (by decide +kernel) (by decide)).2 ⟨List.cons_ne_nil _ [], by simpa using ⟨_, stored, rfl⟩⟩
    exact refused_respelled stored passed

end Vfs.Memory
