import Vfs.Proofs.Filesystem.Demand
import Vfs.Proofs.Memory.Listing
import Vfs.Proofs.Memory.Scene

/-!
# A memory filesystem keeps to its scene

Each demand on the whole of a volume does to the store what the scene says, and answers what is said there.
-/

namespace Vfs.Memory
set_option autoImplicit false
open Vfs.Path

variable {w : World} {n : Nat} {S S' : Scene} {es : List Text} {item : Item}

/-- The whole of a volume shows a scene. -/
structure Shown (n : Nat) (w : World) (S : Scene) : Prop where
  there : n < w.volumes.size
  depicts : Depicts (w.volume n).store S

/-- A new volume has nothing in it. -/
theorem depicts_fresh : Depicts (Volume.fresh [.char '/']).store .empty where
  sound := Session.sound_start
  labelled := tree_start.labelled
  shows := by
    intro es names
    rw [Volume.fresh, Store.get?_put, Scene.empty]
    by_cases top : es = []
    · rw [if_pos top, if_pos (by rw [top]; rfl)]
      rfl
    · rw [if_neg top, if_neg (ofReduced_ne_root names top)]
      rfl

/-- An entry goes by the last name of its row. -/
theorem rootName_called (names : Names es) : rootName (ofReduced true es) = Scene.called es := by
  rcases List.eq_nil_or_concat' es with rfl | ⟨front, e, rfl⟩
  · rfl
  · rw [rootName_ofReduced (names_append.1 names).2, Scene.called, List.getLastD_concat]

/-- A directory of a view lists what its scene has there. -/
theorem lists_scene {as : List Text} (sound : (w.volume n).store.Sound) (labelled : Labelled (w.volume n).store)
    (shows : ∀ es, Names (as ++ es) → ((w.volume n).store.get? (ofReduced true (as ++ es))).map Entry.item = S es)
    (linked : S.Linked) (names : Names (as ++ es))
    (there : IsDirectory (w.volume n).store (ofReduced true (as ++ es))) :
    ∃ infos, listing ⟨n, ofReduced true as⟩ (ofReduced false es) w = .ok infos ∧
      S.Lists es (infos.map Info.fact) := by
  obtain ⟨infos, listed, sorted, members⟩ := listing_spec sound (labelled.under _) names there
  refine ⟨infos, listed, List.pairwise_map.2 sorted, fun f => ?_⟩
  rw [List.mem_map]
  constructor
  · rintro ⟨info, member, rfl⟩
    obtain ⟨longer, e, stored, same⟩ := (members info.name info).1 ⟨member, rfl⟩
    rw [List.append_assoc] at longer stored
    have found : S (es ++ [info.name]) = some e.item :=
      (shows _ longer).symm.trans (congrArg (Option.map Entry.item) stored)
    have named : e.name = info.name := congrArg Info.name same
    refine ⟨e.item, found, ?_⟩
    rw [← same]
    exact e.fact_item _
  · rintro ⟨item, found, same⟩
    have last : Names [f.name] := (names_append.1 (linked.named found)).2
    have longer : Names (as ++ es ++ [f.name]) := names_append.2 ⟨names, last⟩
    have row := longer
    rw [List.append_assoc] at row
    rw [← shows _ row, ← List.append_assoc, Option.map_eq_some_iff] at found
    obtain ⟨e, stored, rfl⟩ := found
    have named : e.name = f.name := (labelled.named _ e stored).trans (rootName_ofReduced last (as ++ es))
    refine ⟨_, ((members f.name _).2 ⟨longer, e, stored, rfl⟩).1, ?_⟩
    rw [same, ← named]
    exact e.fact_item _

namespace Shown

variable (shown : Shown n w S)
include shown

/-- A change of the store. -/
theorem change {α : Type} {f : Text → Store Entry → Except Error α × Store Entry} {r : Except Error α}
    {s : Store Entry} (made : f [.char '/'] (w.volume n).store = (r, s)) (depicts : Depicts s S') :
    (Memory.change ⟨n, [.char '/']⟩ f w).1 = r ∧ Shown n (Memory.change ⟨n, [.char '/']⟩ f w).2 S' := by
  have left := store_change w ⟨n, [.char '/']⟩ shown.there f
  dsimp only at left
  rw [made] at left
  refine ⟨by rw [change_eq, made], ?_, by rw [left]; exact depicts⟩
  simpa [change_eq, World.setVolume] using shown.there

variable (linked : S.Linked) (names : Names es)
include linked names

/-- A directory lists what stands in it. -/
theorem lists (there : S es = some .directory) :
    ∃ infos, listing ⟨n, [.char '/']⟩ (ofReduced false es) w = .ok infos ∧ S.Lists es (infos.map Info.fact) := by
  have depicts := shown.depicts
  have whole : Names ([] ++ es) := names
  have shows (es : List Text) (names : Names ([] ++ es)) :
      ((w.volume n).store.get? (ofReduced true ([] ++ es))).map Entry.item = S es := depicts.shows es names
  have root : [.char '/'] = ofReduced true [] := rfl
  rw [root]
  exact lists_scene depicts.sound depicts.labelled shows linked whole ((depicts.isDirectory names).2 there)

end Shown

section
variable {s : Store Entry} (depicts : Depicts s S) (names : Names es)
include depicts names

theorem content_file {data : Bytes} (there : S es = some (.file data)) :
    content [.char '/'] s (ofReduced false es) = .ok data := by
  obtain ⟨e, located, item, -⟩ := locate_there depicts names there
  obtain ⟨file, rfl⟩ := Entry.item_eq_file.1 item
  rw [content, located]
  exact if_neg (by simp [file])

theorem content_none (noFile : ∀ data, S es ≠ some (.file data)) :
    ∃ fault, content [.char '/'] s (ofReduced false es) = .error fault ∧ fault.isSystem = true := by
  cases there : S es with
  | none =>
    rw [content, locate_missing depicts names there]
    exact ⟨_, rfl, Fault.isSystem_at ..⟩
  | some item =>
    cases item with
    | file data => exact absurd there (noFile data)
    | directory =>
      obtain ⟨e, located, item, -⟩ := locate_there depicts names there
      rw [content, located]
      exact ⟨_, if_pos (Entry.item_eq_directory.1 item), Fault.isSystem_at ..⟩

theorem list_none (noDirectory : S es ≠ some .directory) :
    ∃ fault, list [.char '/'] s (ofReduced false es) = .error fault ∧ fault.isSystem = true := by
  cases there : S es with
  | none =>
    rw [list, locate_missing depicts names there]
    exact ⟨_, rfl, Fault.isSystem_at ..⟩
  | some item =>
    cases item with
    | directory => exact absurd there noDirectory
    | file data =>
      obtain ⟨e, located, item, -⟩ := locate_there depicts names there
      rw [list, located]
      exact ⟨_, if_neg (by simp [(Entry.item_eq_file.1 item).1]), Fault.isSystem_at ..⟩

end

/-! ## One demand -/

theorem Shown.ends_change {α : Type} {f : Text → Store Entry → Except Error α × Store Entry} {put : α → Said}
    {said : Option Said} {r : Except Error α} {s : Store Entry} (shown : Shown n w S)
    (made : f [.char '/'] (w.volume n).store = (r, s)) (depicts : Depicts s S') (tells : Tells said (r.map put)) :
    Ends said (Shown n · S') ((Memory.change ⟨n, [.char '/']⟩ f >>= fun a => pure (put a)) w) := by
  obtain ⟨answer, shown'⟩ := shown.change made depicts
  exact Ends.put (Prod.ext answer rfl) tells shown'

theorem Shown.ends_write (id : Nat) {name : Text} {data : Bytes} {s : Store Entry} {r : Except Error Nat}
    {said : Option Said} (shown : Shown n w S)
    (made : write [.char '/'] name data Mode.standard (w.volume n).store = (r, s)) (depicts : Depicts s S')
    (tells : Tells said ((r.map Int.ofNat).map .count)) :
    Ends said (Shown n · S') ((Demand.write name data).on (filesystem id ⟨n, [.char '/']⟩) w) := by
  have counted := congrArg (Prod.map (Except.map Int.ofNat) fun s => s) made
  exact shown.ends_change
    (f := fun root s => (write root name data Mode.standard s).map (Except.map Int.ofNat) fun s => s)
    counted depicts tells

/-- A name that is not valid is refused, whatever is demanded. -/
theorem ends_invalid (id : Nat) {d : Demand} (shown : Shown n w S) (invalid : isValid d.name = false) :
    Ends none (Shown n · S) (d.on (filesystem id ⟨n, [.char '/']⟩) w) := by
  have refused : ¬isValid d.name = true := by rw [invalid]; exact Bool.false_ne_true
  have located (name : Text) (same : d.name = name) :
      locate [.char '/'] (w.volume n).store name = .error (Fault.invalid.at "Open".text name) :=
    if_neg (same ▸ refused)
  cases d with
  | mkdirAll name =>
    exact shown.ends_change (f := fun root => mkdirAll root name Mode.standard) (if_neg refused) shown.depicts
      (.error (Fault.isSystem_at ..))
  | write name data =>
    have created : create [.char '/'] name Mode.standard (w.volume n).store =
        (.error (Fault.invalid.at "Create".text name), (w.volume n).store) := if_neg refused
    have made : write [.char '/'] name data Mode.standard (w.volume n).store =
        (.error (Fault.invalid.at "Create".text name), (w.volume n).store) := by rw [write, created]
    exact shown.ends_write id made shown.depicts (.error (Fault.isSystem_at ..))
  | removeAll name =>
    exact shown.ends_change (f := fun root => removeAll root name) (if_neg refused) shown.depicts
      (.error (Fault.isSystem_at ..))
  | read name =>
    have asked : content [.char '/'] (w.volume n).store name = .error (Fault.invalid.at "Open".text name) := by
      rw [content, located name rfl]
    exact Ends.put (congrArg (·, w) asked) (.error (Fault.isSystem_at ..)) shown
  | list name =>
    have asked : listing ⟨n, [.char '/']⟩ name w = .error (Fault.invalid.at "Open".text name) := by
      rw [listing, list, located name rfl]
      rfl
    exact Ends.put (congrArg (·, w) asked) (.error (Fault.isSystem_at ..)) shown
  | stat name =>
    have asked : stat ⟨n, [.char '/']⟩ name w = (.error (Fault.invalid.at "Open".text name), w) := by
      rw [stat, located name rfl]
      rfl
    exact Ends.put asked (.error (Fault.isSystem_at ..)) shown

/-- The whole of a volume does what its scene says. -/
theorem keeps_filesystem (id n : Nat) (allowed : Demand → Prop) :
    Keeps (Shown n) allowed (filesystem id ⟨n, [.char '/']⟩) := by
  intro w S d said S' shown linked _ does
  have depicts := shown.depicts
  have allowed : Mode.permissions Mode.standard = .ok Mode.standard := by rfl
  cases does with
  | invalid invalid => exact ends_invalid id shown invalid
  | @made es names free =>
    obtain ⟨s', made, depicts'⟩ := mkdirAll_free depicts allowed names free
    exact shown.ends_change (f := fun root => mkdirAll root (ofReduced false es) Mode.standard) made depicts' (.ok _)
  | @notMade es names blocked =>
    obtain ⟨fault, stopped, system⟩ := mkdirAll_blocked depicts allowed linked names blocked
    exact shown.ends_change (f := fun root => mkdirAll root (ofReduced false es) Mode.standard) stopped depicts
      (.error system)
  | written data names free place =>
    obtain ⟨s', made, depicts'⟩ := write_free depicts allowed names free place data
    exact shown.ends_write id made depicts' (.ok _)
  | notWritten data names refused =>
    obtain ⟨fault, stopped, system⟩ := write_refused depicts allowed linked names refused data
    exact shown.ends_write id stopped depicts (.error system)
  | @removed es names =>
    obtain ⟨s', made, depicts'⟩ := removeAll_cut depicts names
    exact shown.ends_change (f := fun root => removeAll root (ofReduced false es)) made depicts' (.ok _)
  | content names there =>
    exact Ends.put (congrArg (·, w) (content_file depicts names there)) (.ok _) shown
  | noContent names noFile =>
    obtain ⟨fault, refused, system⟩ := content_none depicts names noFile
    exact Ends.put (congrArg (·, w) refused) (.error system) shown
  | listed names there lists =>
    obtain ⟨infos, listed, lists'⟩ := shown.lists linked names there
    rw [lists.unique lists']
    exact Ends.put (congrArg (·, w) listed) (.ok _) shown
  | @notListed es names noDirectory =>
    obtain ⟨fault, refused, system⟩ := list_none depicts names noDirectory
    have listed : listing ⟨n, [.char '/']⟩ (ofReduced false es) w = .error fault := by
      rw [listing, refused]
      rfl
    exact Ends.put (congrArg (·, w) listed) (.error system) shown
  | @told es item names there =>
    obtain ⟨e, located, rfl, named⟩ := locate_there depicts names there
    have asked : stat ⟨n, [.char '/']⟩ (ofReduced false es) w =
        (.ok (describe ⟨n, [.char '/']⟩ (ofReduced true es, e) w), w) := by
      rw [stat, located]
      rfl
    rw [← rootName_called names, ← named, ← e.fact_item]
    exact Ends.put asked (.ok _) shown
  | @notTold es names missing =>
    have asked : stat ⟨n, [.char '/']⟩ (ofReduced false es) w =
        (.error (Fault.notExist.at "Open".text (ofReduced false es)), w) := by
      rw [stat, locate_missing depicts names missing]
      rfl
    exact Ends.put asked (.error (Fault.isSystem_at ..)) shown

/-- Every demand but one to write a file under the name of the whole does something. -/
theorem Shown.does {d : Demand} (shown : Shown n w S) (linked : S.Linked) (file : ∀ data, d ≠ .write here data) :
    ∃ said S', S.Does d said S' := by
  apply Scene.exists_does _ file
  intro es names there
  obtain ⟨infos, -, lists⟩ := shown.lists linked names there
  exact ⟨_, lists⟩

end Vfs.Memory
