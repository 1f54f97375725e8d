import Vfs.Proofs.Filesystem.Demand
import Vfs.Proofs.Host.Asking
import Vfs.Proofs.Host.Confined

/-!
# A host filesystem keeps to its scene

Each demand on a directory of the host does to the tree what the scene says, and answers what is said there, as far
as the host takes the paths of the names (`keeps_filesystem`).
-/

namespace Vfs.Host
set_option autoImplicit false
open Vfs.Path

variable {w w' : World} {dir operation : Text} {S S' : Scene} {es : List Text} {e : Text} {data : Bytes} {mode : Int}
  {bits : Nat}

/-! ## Under a name -/

section
variable {α : Type} {act : Text → Action α}

theorem within_eq (names : Names es) (act : Text → Action α) (w : World) :
    within dir operation (ofReduced false es) act w =
      Action.retell (act (es.foldl attach dir)) (fun e => e.at operation (ofReduced false es)) w := by
  rw [within, Action.bind_eq, Action.ofExcept, hostPath_eq_ok.2 ⟨es, names, rfl, rfl⟩]

theorem within_ok {a : α} (names : Names es) (ran : act (es.foldl attach dir) w = (.ok a, w')) :
    within dir operation (ofReduced false es) act w = (.ok a, w') := by
  rw [within_eq names, Action.retell_eq, ran]
  rfl

/-- An error of the host stays one, in other words. -/
theorem within_fault {fault : Fault} (names : Names es) (ran : act (es.foldl attach dir) w = (.error fault.error, w'))
    (system : fault.kind.isSystem = true) :
    within dir operation (ofReduced false es) act w = (.error (fault.at operation (ofReduced false es)), w') := by
  have system' : fault.error.isSystem = true := system
  rw [within_eq names, Action.retell_eq, ran]
  dsimp only [Except.mapError]
  rw [if_pos system']
  rfl

end

/-! ## Making and writing -/

section
variable {α : Type} {a : α} {fault : Fault} {t : Tree}

theorem change_ok {f : Tree → Except Fault α × Tree} (ran : f w.tree = (.ok a, t)) :
    change f w = (.ok a, { w with tree := t }) := by
  rw [change, ran]
  rfl

theorem change_fault {f : Tree → Except Fault α × Tree} (ran : f w.tree = (.error fault, t)) :
    change f w = (.error fault.error, { w with tree := t }) := by
  rw [change, ran]
  rfl

theorem ask_ok {f : Tree → Except Fault α} (ran : f w.tree = .ok a) : ask f w = (.ok a, w) := by
  rw [ask, ran]
  rfl

theorem ask_fault {f : Tree → Except Fault α} (ran : f w.tree = .error fault) : ask f w = (.error fault.error, w) := by
  rw [ask, ran]
  rfl

end

/-- What is asked of the host to make a directory. -/
theorem mkdirAll_run (path : Text) (allowed : Mode.permissions mode = .ok bits) (w : World) :
    (do Operations.standard.mkdirAll path (← permissions mode) : Action Unit) w =
      change (fun t => t.mkdirs (.ofPath path) bits) w := by
  rw [permissions, allowed]
  rfl

theorem removeAll_run (path : Text) (w : World) :
    Operations.standard.removeAll path w = change (fun t => t.removeAll (.ofPath path)) w := rfl

/-- Opens a file for writing under a host path: the directory above is made first. -/
def opening (dir : Text) (mode : Int) (path : Text) : Action ByteStream := do
  Operations.standard.mkdirAll (madeFirst dir path) (← permissions mode)
  Operations.standard.create path

theorem opening_run (path : Text) (allowed : Mode.permissions mode = .ok bits) (w : World) :
    opening dir mode path w = match w.tree.mkdirs (.ofPath (madeFirst dir path)) bits with
      | (.error fault, t) => (.error fault.error, { w with tree := t })
      | (.ok (), t) =>
        match t.truncate (.ofPath path) with
        | (.error fault, t) => (.error fault.error, { w with tree := t })
        | (.ok n, t) =>
          (.ok (.ofNumber w.streams.size), { w with tree := t, streams := w.streams.push (.writer n) }) := by
  have made : opening dir mode path w =
      (change (fun t => t.mkdirs (.ofPath (madeFirst dir path)) bits) >>= fun _ =>
        change (fun t => t.truncate (.ofPath path)) >>= fun n => newStream (.writer n)) w := by
    rw [opening, permissions, allowed]
    rfl
  rw [made, Action.bind_eq, change]
  rcases w.tree.mkdirs (.ofPath (madeFirst dir path)) bits with ⟨r, t⟩
  cases r with
  | error fault => rfl
  | ok done =>
    dsimp only [Except.mapError]
    rw [Action.bind_eq, change]
    dsimp only
    rcases t.truncate (.ofPath path) with ⟨r, t'⟩
    cases r with
    | error fault => rfl
    | ok n => rfl

/-- The directory above is the one on the way to the entry. -/
theorem Fits.madeFirst (fits : Fits dir (es ++ [e])) (proper : rowOf dir ≠ []) :
    (Route.ofPath (madeFirst dir ((es ++ [e]).foldl attach dir))).Passes (rowOf dir ++ es) := by
  have above := fits.above
  have route : directory ((es ++ [e]).foldl attach dir) ≠ [] := by
    intro empty
    have route := above.route
    rw [names_ofPath, empty] at route
    exact proper (List.append_eq_nil_iff.1 route.symm).1
  rw [Host.madeFirst]
  split
  · next empty => exact absurd empty route
  · exact above

section
variable (depicts : Depicts dir w.tree S) (linked : S.Linked) (fits : Fits dir (es ++ [e]))
  (allowed : Mode.permissions mode = .ok bits)
include depicts linked fits allowed

/-- A file is opened at the end of a free way, where no directory stands. -/
theorem opening_free (way : w.tree.Free (directoryWord bits)) (free : ¬S.Blocked es)
    (place : S (es ++ [e]) ≠ some .directory) :
    ∃ n t, opening dir mode ((es ++ [e]).foldl attach dir) w =
        (.ok (.ofNumber w.streams.size), { w with tree := t, streams := w.streams.push (.writer n) }) ∧
      t.privileged = w.tree.privileged ∧
      ∀ data, Depicts dir (t.overwrite n 0 data) ((S.filled es).put (es ++ [e]) (.file data)) := by
  obtain ⟨t₁, made, same, depicts₁⟩ :=
    depicts.mkdirs_free linked free (fits.madeFirst depicts.proper) fits.beginning way
  have linked₁ := linked.filled fits.beginning.names_row free
  rw [← Scene.filled_snoc_end S es e] at place
  obtain ⟨n, t₂, opened, same', shown⟩ :=
    depicts₁.truncate linked₁ fits.passes fits.slash fits (Scene.filled_end free) place
  refine ⟨n, t₂, ?_, same'.trans same, shown⟩
  rw [opening_run _ allowed, made]
  dsimp only
  rw [opened]

/-- A file in the way, or a directory in the place, stops a file from being opened, and the scene stays. -/
theorem opening_refused (way : w.tree.Free (directoryWord bits))
    (refused : S.Blocked es ∨ S (es ++ [e]) = some .directory) :
    ∃ (fault : Fault) (t : Tree),
      opening dir mode ((es ++ [e]).foldl attach dir) w = (.error fault.error, { w with tree := t }) ∧
        fault.kind.isSystem = true ∧ Depicts dir t S := by
  have above := fits.madeFirst depicts.proper
  by_cases blocked : S.Blocked es
  · obtain ⟨fault, stopped, system⟩ := depicts.mkdirs_blocked linked blocked above
    exact ⟨fault, w.tree, by rw [opening_run _ allowed, stopped], system, depicts⟩
  · -- The directories are there already; the file is where a directory is.
    have there := refused.resolve_left blocked
    have up := linked.up there
    obtain ⟨t₁, made, -, depicts₁⟩ := depicts.mkdirs_free linked blocked above fits.beginning way
    rw [linked.filled_eq (by simp [up])] at depicts₁
    obtain ⟨word, found, -⟩ := depicts₁.isOpen there
    have passes := fits.passes
    have isOpen := depicts₁.openAbove_snoc linked up e
    rw [← List.append_assoc] at found passes isOpen
    refine ⟨isDirectory, t₁, ?_, by decide, depicts₁⟩
    rw [opening_run _ allowed, made]
    dsimp only
    rw [Tree.truncate_directory passes isOpen found]

end

/-- Closing a handle closes its stream, and leaves what memory filesystems are made of. -/
theorem closeHandle_run (k i : Nat) (w : World) :
    ∃ w', closeHandle k (some (.ofNumber i)) w = (.ok (), w') ∧
      w'.tree = ((w.streams.getD i (.sink true)).close w.tree).1 ∧ w'.volumes = w.volumes ∧
      w'.memoryHandles = w.memoryHandles := by
  have run : closeHandle k (some (.ofNumber i)) w =
      (closeStream i >>= fun _ w => (.ok (), setHandle w k (handle w k).close))
        (setHandle w k { handle w k with closed := true }) := rfl
  rw [run, Action.bind_eq, closeStream]
  exact ⟨_, rfl, rfl, rfl, rfl⟩

/-- A file takes all it is given, and changes nothing else. -/
theorem write_took {name : Text} {t₀ : Tree} {i n : Nat} (id k : Nat) (there : i < w.streams.size)
    (took : Stream.Took t₀ n data w.tree (w.streams.getD i (.sink true))) (more : Bytes) :
    ∃ w', (file dir name (some (.ofNumber i)) id k).write more w = (.ok more.length, w') ∧
      w'.streams.size = w.streams.size ∧ w'.volumes = w.volumes ∧ w'.memoryHandles = w.memoryHandles ∧
      Stream.Took t₀ n (data ++ more) w'.tree (w'.streams.getD i (.sink true)) := by
  obtain ⟨t, st, written, took'⟩ := took.write more
  have run : (file dir name (some (.ofNumber i)) id k).write more =
      writeStream i more >>= fun m => pure (Int.ofNat m) := rfl
  have ran : (file dir name (some (.ofNumber i)) id k).write more w =
      (.ok more.length, { w with tree := t, streams := w.streams.setIfInBounds i st }) := by
    rw [run, Action.bind_pure_eq, writeStream, written]
    rfl
  refine ⟨_, ran, by simp, rfl, rfl, ?_⟩
  simpa [there] using took'

/-- A file that was opened for writing takes all it is given, and has it when it is closed. -/
theorem write_close (name : Text) {i n : Nat} (id k : Nat) (there : i < w.streams.size)
    (stream : w.streams.getD i (.sink true) = .writer n) (data : Bytes) :
    ∃ w', Action.ensuring ((file dir name (some (.ofNumber i)) id k).write data)
        (file dir name (some (.ofNumber i)) id k).close w = (.ok data.length, w') ∧
      w'.tree = w.tree.overwrite n 0 data := by
  have begun : Stream.Took w.tree n [] w.tree (w.streams.getD i (.sink true)) := stream ▸ Stream.took_writer w.tree n
  obtain ⟨w₁, written, -, -, -, took⟩ := write_took id k there begun data
  obtain ⟨w', closed, tree, -⟩ := closeHandle_run k i w₁
  have close : (file dir name (some (.ofNumber i)) id k).close = closeHandle k (some (.ofNumber i)) := rfl
  refine ⟨w', ?_, tree.trans took.close⟩
  rw [Action.ensuring_eq, written, close, closed]
  rfl

theorem write_eq (record : Nat) (name : Text) (data : Bytes) (w : World) :
    write ⟨dir, .standard, record⟩ name data Mode.standard w =
      ((within dir "Create".text name (opening dir Mode.standard) >>= fun stream =>
        newFile dir name (some stream)) >>= fun f => Action.ensuring (f.write data) f.close) w := rfl

/-- A file that could be opened is written. -/
theorem write_opened (record : Nat) {t : Tree} {n : Nat} (names : Names es) (data : Bytes)
    (opened : opening dir Mode.standard (es.foldl attach dir) w =
      (.ok (.ofNumber w.streams.size), { w with tree := t, streams := w.streams.push (.writer n) })) :
    ∃ w', write ⟨dir, .standard, record⟩ (ofReduced false es) data Mode.standard w = (.ok data.length, w') ∧
      w'.tree = t.overwrite n 0 data := by
  rw [write_eq, Action.bind_eq, Action.bind_eq, within_ok names opened]
  dsimp only [newFile]
  apply write_close
  · simp
  · simp

/-- A file that could not be opened is not written. -/
theorem write_stopped (record : Nat) {fault : Fault} (names : Names es) (data : Bytes)
    (stopped : opening dir Mode.standard (es.foldl attach dir) w = (.error fault.error, w'))
    (system : fault.kind.isSystem = true) :
    write ⟨dir, .standard, record⟩ (ofReduced false es) data Mode.standard w =
      (.error (fault.at "Create".text (ofReduced false es)), w') := by
  rw [write_eq, Action.bind_eq, Action.bind_eq, within_fault names stopped system]

/-! ## One demand -/

/-- The tree of a world shows a scene. -/
def Shown (dir : Text) (w : World) (S : Scene) : Prop := Depicts dir w.tree S

/-- What a file is asked about is told under its own name. -/
theorem called_eq (names : Names es) :
    (if ofReduced false es = here then ofReduced false es else lastElement (ofReduced false es)) =
      Scene.called es := by
  rcases List.eq_nil_or_concat' es with rfl | ⟨front, e, rfl⟩
  · rfl
  · have last := (names_append.1 names).2.no_slash e (List.mem_singleton_self e)
    rw [if_neg (ofReduced_ne_here names (by simp)), lastElement_ofReduced last, Scene.called, List.getLastD_concat]

section
variable {item : Item} (depicts : Depicts dir w.tree S) (linked : S.Linked) (names : Names es)
include depicts linked names

/-- What stands at a row is told; only numbers are used up. -/
theorem stat_run (there : S es = some item) :
    ∃ info k, stat dir (ofReduced false es) w = (.ok info, { w with serial := k }) ∧
      info.fact = item.fact (Scene.called es) := by
  obtain ⟨info, k, ran, fact⟩ := depicts.describe_eq linked there (Scene.called es)
  refine ⟨info, k, within_ok names ?_, fact⟩
  rw [called_eq names]
  exact ran

/-- What stands in a directory is listed; only numbers are used up. -/
theorem list_run (fits : Fits dir es) (there : S es = some .directory) :
    ∃ infos k, list dir (ofReduced false es) w = (.ok infos, { w with serial := k }) ∧
      S.Lists es (infos.map Info.fact) := by
  obtain ⟨cs, listed, sorted, members⟩ := depicts.list linked fits.passes fits.plain_end there
  obtain ⟨infos, k, ran, lists⟩ := depicts.lists_describe linked sorted members
  refine ⟨infos, k, within_ok names ?_, lists⟩
  rw [Action.bind_eq, ask_ok listed]
  exact ran

end

/-- A name that is not valid is refused, whatever is demanded. -/
theorem ends_invalid (id record : Nat) {d : Demand} (invalid : isValid d.name = false)
    (shown : Shown dir w S) :
    Ends none (Shown dir · S) (d.on (filesystem id ⟨dir, .standard, record⟩) w) := by
  cases d with
  | mkdirAll name => exact Ends.put (within_refused _ invalid w) (.error (Fault.isSystem_at ..)) shown
  | write name data =>
    have refused : isValid name = false := invalid
    have stopped : write ⟨dir, .standard, record⟩ name data Mode.standard w =
        (.error (Fault.invalid.at "Create".text name), w) := by
      rw [write_eq, Action.bind_eq, Action.bind_eq, within_refused _ refused]
    exact Ends.put stopped (.error (Fault.isSystem_at ..)) shown
  | removeAll name => exact Ends.put (within_refused _ invalid w) (.error (Fault.isSystem_at ..)) shown
  | read name => exact Ends.put (within_refused _ invalid w) (.error (Fault.isSystem_at ..)) shown
  | list name => exact Ends.put (within_refused _ invalid w) (.error (Fault.isSystem_at ..)) shown
  | stat name => exact Ends.put (within_refused _ invalid w) (.error (Fault.isSystem_at ..)) shown

/-- The host takes the path of a name, if the name is valid. -/
def Takes (dir : Text) (d : Demand) : Prop := ∀ es, Names es → d.name = ofReduced false es → Fits dir es

/-- A directory of the host does what its scene says. -/
theorem keeps_filesystem (id record : Nat) :
    Keeps (Shown dir) (Takes dir) (filesystem id ⟨dir, .standard, record⟩) := by
  intro w S d said S' shown linked takes does
  have depicts : Depicts dir w.tree S := shown
  have allowed : Mode.permissions Mode.standard = .ok Mode.standard := rfl
  have way := w.tree.free_made
  cases does with
  | invalid invalid => exact ends_invalid id record invalid shown
  | @made es names free =>
    have fits := takes es names rfl
    obtain ⟨t, made, -, depicts'⟩ := depicts.mkdirs_free linked free fits.passes fits way
    exact Ends.put (within_ok names ((mkdirAll_run _ allowed w).trans (change_ok made))) (.ok _) depicts'
  | @notMade es names blocked =>
    have fits := takes es names rfl
    obtain ⟨fault, stopped, system⟩ := depicts.mkdirs_blocked linked blocked fits.passes
    have run : mkdirAll ⟨dir, .standard, record⟩ (ofReduced false es) Mode.standard w =
        (.error (fault.at "MkdirAll".text (ofReduced false es)), { w with tree := w.tree }) :=
      within_fault names ((mkdirAll_run _ allowed w).trans (change_fault stopped)) system
    exact Ends.put run (.error (Fault.isSystem_at ..)) shown
  | @written es e data names free place =>
    obtain ⟨n, t, opened, -, left⟩ :=
      opening_free depicts linked (takes (es ++ [e]) names rfl) allowed way free place
    obtain ⟨w', written, tree⟩ := write_opened record names data opened
    have shown' := left data
    rw [← tree] at shown'
    exact Ends.put written (.ok _) shown'
  | @notWritten es e data names refused =>
    obtain ⟨fault, t, stopped, system, left⟩ :=
      opening_refused depicts linked (takes (es ++ [e]) names rfl) allowed way refused
    exact Ends.put (write_stopped record names data stopped system) (.error (Fault.isSystem_at ..)) left
  | @removed es names =>
    have fits := takes es names rfl
    obtain ⟨t, removed, depicts'⟩ := depicts.removeAll linked fits.passes fits.plain_end
    exact Ends.put (within_ok names ((removeAll_run _ w).trans (change_ok removed))) (.ok _) depicts'
  | @content es data names there =>
    have fits := takes es names rfl
    have answered := depicts.fileNumber linked fits.passes fits.plain_end there
    exact Ends.put (within_ok names (ask_ok answered)) (.ok _) shown
  | @noContent es names noFile =>
    have fits := takes es names rfl
    obtain ⟨fault, refused, system⟩ := depicts.fileNumber_none linked fits.passes fits.plain_end noFile
    exact Ends.put (within_fault names (ask_fault refused) system) (.error (Fault.isSystem_at ..)) shown
  | @listed es facts names there lists =>
    have fits := takes es names rfl
    obtain ⟨infos, k, run, lists'⟩ := list_run depicts linked names fits there
    rw [lists.unique lists']
    exact Ends.put run (.ok _) shown
  | @notListed es names noDirectory =>
    have fits := takes es names rfl
    obtain ⟨fault, refused, system⟩ := depicts.list_none linked fits.passes fits.plain_end noDirectory
    have run : list dir (ofReduced false es) w = (.error (fault.at "ReadDir".text (ofReduced false es)), w) := by
      refine within_fault names ?_ system
      rw [Action.bind_eq, ask_fault refused]
    exact Ends.put run (.error (Fault.isSystem_at ..)) shown
  | @told es item names there =>
    obtain ⟨info, k, run, fact⟩ := stat_run depicts linked names there
    rw [← fact]
    exact Ends.put run (.ok _) shown
  | @notTold es names missing =>
    have fits := takes es names rfl
    obtain ⟨fault, lost, system⟩ := Tree.find_missing fits.passes (depicts.missing.2 missing)
    have stated : w.tree.stat (.ofPath (es.foldl attach dir)) = .error fault := by rw [Tree.stat, lost]
    have run : stat dir (ofReduced false es) w = (.error (fault.at "Stat".text (ofReduced false es)), w) := by
      refine within_fault names ?_ system
      rw [describe_run, stated]
    exact Ends.put run (.error (Fault.isSystem_at ..)) shown

end Vfs.Host
