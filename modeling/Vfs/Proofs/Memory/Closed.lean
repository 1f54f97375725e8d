import Vfs.Proofs.Filesystem.Pages
import Vfs.Proofs.Memory.Snapshot

/-!
# A closed handle

A handle that was closed refuses to be read or written, whatever is called then (`Shut`). Listing does not look whether
the handle is closed: it goes on from the listing that the handle has, or asks the directory for one (`source`). Closing
lets go of a listing that was begun, so that nothing more comes of it (`Emptied`), but a directory that was not listed
before is listed by a closed handle as by an open one. As long as the handle is only read, written and listed (`Used`),
the `source` stays what it was when the handle was opened, and `closed_idle` says that this one case is all that a
closed handle hands over.
-/

namespace Vfs.Memory
set_option autoImplicit false
open Session

/-! ## What is said about a closed handle -/

/-- An answer that hands nothing over: a failure, or nothing of what was asked for. Data that was accepted is counted,
so that no count is such an answer. -/
def Idle : Except Error Answer → Prop
  | .error _ => True
  | .ok (.content data) => data = []
  | .ok (.infos entries) => entries = []
  | .ok _ => False

/-- The call reads a handle, writes to it or lists it. -/
def Call.Uses (i : Nat) : Call → Prop
  | .read j _ | .write j _ | .list j _ => j = i
  | .on _ _ | .stat _ | .close _ => False

/-- A listing of the handle was begun: a call for a page was answered, or came to the end. -/
def Begun (i : Nat) (transcript : List (Call × Except Error Answer)) : Prop :=
  ∃ n answer, (.list i n, answer) ∈ transcript ∧ ∀ e, answer = .error e → e.isPath = false

/-- Something was written to the handle, if only nothing at all. -/
def Written (i : Nat) (transcript : List (Call × Except Error Answer)) : Prop :=
  ∃ data answer, (.write i data, .ok answer) ∈ transcript

/-- The session after some calls and closing a handle. -/
def Session.closing (s : Session) (i : Nat) (before : List Call) : Session := ((s.after before).perform (.close i)).2

/-- What becomes of a handle, opened in the session on a name of a view, that is closed after some calls. Whatever is
called, it is not read or written any more, and nothing comes of a listing that was begun; only a handle that was
written keeps its listing. Where nothing is called but on the handle itself, all that is handed over after closing is
the listing of a directory that was not listed before. -/
structure Closes (s : Session) (i : Nat) (h : Handle) (before : List Call) : Prop where
  reads : ∀ after size, ((s.closing i before).after after).perform (.read i size) =
    (.error h.closedFault.error, (s.closing i before).after after)
  writes : ∀ after data, ((s.closing i before).after after).perform (.write i data) =
    (.error h.closedFault.error, (s.closing i before).after after)
  lists : Begun i (s.transcript before) → ¬Written i (s.transcript before) → ∀ after n answer,
    (.list i n, answer) ∈ (s.closing i before).transcript after → Idle answer
  idle_iff : (∀ c ∈ before, c.Uses i) → ∀ after, (∀ c ∈ after, c.Uses i) →
    ((∀ said ∈ (s.closing i before).transcript after, Idle said.2) ↔
      ¬((∃ e es, listing h.view h.name s.world = .ok (e :: es)) ∧ (∀ n, .list i n ∉ before) ∧ ∃ n, .list i n ∈ after))

variable {s : Session} {i : Nat} {h : Handle} {c : Call} {calls : List Call} {entries : List Info} {e : Error} {n : Int}

/-! ## Where the pages of a handle come from -/

/-- The entries that a handle takes its pages from: those of its listing, or those that its directory has now. -/
def source (h : Handle) (w : World) : Except Error (List Info) :=
  if h.listed then .ok h.listing else listing h.view h.name w

theorem list_of_source_error (failed : source h s.world = .error e) :
    h.list n (listing h.view h.name s.world) = (.error e, h) := by
  rw [source] at failed
  split at failed
  · cases failed
  · next fresh => rw [failed, Handle.list_refused (Bool.eq_false_iff.2 fresh)]

theorem list_of_source (found : source h s.world = .ok entries) :
    h.list n (listing h.view h.name s.world) = ((takePage entries h.cursor n).1,
      { h with listed := true, listing := entries, cursor := (takePage entries h.cursor n).2 }) := by
  rw [source] at found
  split at found
  · next listed =>
    cases found
    rw [Handle.list_listed listed, ← listed]
  · next fresh => rw [found, Handle.list_fetched (Bool.eq_false_iff.2 fresh)]

/-- What a handle is on stays, with its listing and whether it is closed, and a handle that takes no data goes on to
take none. -/
structure Handle.Keeps (h h' : Handle) : Prop where
  view : h'.view = h.view
  name : h'.name = h.name
  listed : h'.listed = h.listed
  listing : h'.listing = h.listing
  cursor : h'.cursor = h.cursor
  closed : h'.closed = h.closed
  clean : h.writer = none ∧ h.wrote = false → h'.writer = none ∧ h'.wrote = false

theorem Handle.Keeps.refl (h : Handle) : h.Keeps h := ⟨rfl, rfl, rfl, rfl, rfl, rfl, id⟩

theorem Handle.keeps_read (h : Handle) (size : Int) : h.Keeps (h.read size).2 := by
  rw [Handle.read]
  split
  · exact .refl h
  · split
    · exact .refl h
    · split
      · exact .refl h
      · exact ⟨rfl, rfl, rfl, rfl, rfl, rfl, id⟩

theorem Handle.keeps_write (h : Handle) (data : Bytes) : h.Keeps (h.write data).2 := by
  rcases h.write_cases data with ⟨fault, refused⟩ | ⟨collected, room, taken⟩
  · rw [refused]
    exact .refl h
  · rw [taken]
    refine ⟨rfl, rfl, rfl, rfl, rfl, rfl, fun reader => ?_⟩
    rw [reader.1] at room
    cases room

/-- A call leaves what its handle is on, that it is closed, and that it has a listing. -/
structure Stays (h h' : Handle) : Prop where
  view : h'.view = h.view
  name : h'.name = h.name
  closed : h.closed = true → h'.closed = true
  listed : h.listed = true → h'.listed = true

theorem Stays.refl (h : Handle) : Stays h h := ⟨rfl, rfl, id, id⟩

theorem Stays.of_keeps {h' : Handle} (keeps : h.Keeps h') : Stays h h' :=
  ⟨keeps.view, keeps.name, keeps.closed.trans, keeps.listed.trans⟩

theorem stays_turn (s : Session) (h : Handle) (c : Call) : Stays h (c.turn s.world h) := by
  cases c with
  | on _ _ | stat _ => exact .refl h
  | read _ size => exact .of_keeps (h.keeps_read size)
  | write _ data => exact .of_keeps (h.keeps_write data)
  | list _ n =>
    rw [Call.turn]
    cases found : source h s.world with
    | error e =>
      rw [list_of_source_error found]
      exact .refl h
    | ok entries =>
      rw [list_of_source found]
      exact ⟨rfl, rfl, id, fun _ => rfl⟩
  | close _ =>
    rw [Call.turn, Handle.close]
    split
    · exact ⟨rfl, rfl, fun _ => rfl, id⟩
    · exact ⟨rfl, rfl, fun _ => rfl, id⟩

theorem stays_perform (there : i < s.world.memoryHandles.size) (c : Call) :
    Stays (handle s.world i) (handle (s.perform c).2.world i) :=
  holds_perform there (.refl _) fun _ => stays_turn s _ c

/-! ## Closed handles -/

/-- A handle that is closed. -/
structure Shut (s : Session) (i : Nat) : Prop where
  there : i < s.world.memoryHandles.size
  closed : (handle s.world i).closed = true

namespace Shut

theorem perform (shut : Shut s i) (c : Call) : Shut (s.perform c).2 i :=
  ⟨Nat.lt_of_lt_of_le shut.there (size_le_perform s c), (stays_perform shut.there c).closed shut.closed⟩

theorem reads (shut : Shut s i) (size : Int) :
    s.perform (.read i size) = (.error (handle s.world i).closedFault.error, s) := by
  rw [perform_read, Handle.read, if_pos shut.closed, setHandle_handle]
  rfl

theorem writes (shut : Shut s i) (data : Bytes) :
    s.perform (.write i data) = (.error (handle s.world i).closedFault.error, s) := by
  rw [perform_write, Handle.write, if_pos shut.closed, setHandle_handle]
  rfl

end Shut

theorem perform_list_error (failed : source (handle s.world i) s.world = .error e) (n : Int) :
    s.perform (.list i n) = (.error e, s) := by
  rw [perform_list, list_of_source_error failed, setHandle_handle]
  rfl

theorem perform_list_ok (found : source (handle s.world i) s.world = .ok entries) (n : Int) :
    (s.perform (.list i n)).1 = (takePage entries (handle s.world i).cursor n).1.map .infos := by
  rw [perform_list, list_of_source found]

/-- A page of no entries is empty, or the end. -/
theorem idle_takePage_nil (cursor : Nat) (n : Int) : Idle ((takePage [] cursor n).1.map .infos) := by
  by_cases positive : 0 < n
  · rw [takePage_dry positive (Nat.zero_le _)]
    trivial
  · rw [takePage_eq (fun asked => absurd asked positive)]
    simp [Idle, Except.map]

/-! ## A listing that was let go -/

theorem stays_after (there : i < s.world.memoryHandles.size) (calls : List Call) :
    i < (s.after calls).world.memoryHandles.size ∧ Stays (handle s.world i) (handle (s.after calls).world i) := by
  induction calls generalizing s with
  | nil => exact ⟨there, .refl _⟩
  | cons c calls ih =>
    obtain ⟨there', later⟩ := ih (Nat.lt_of_lt_of_le there (size_le_perform s c))
    have first := stays_perform there c
    exact ⟨there', later.view.trans first.view, later.name.trans first.name, later.closed ∘ first.closed,
      later.listed ∘ first.listed⟩

theorem isPath_source (failed : source h s.world = .error e) : e.isPath = true := by
  rw [source] at failed
  split at failed
  · cases failed
  · exact isPath_listing failed

/-- A listing that was begun is there. -/
theorem listed_of_begun (there : i < s.world.memoryHandles.size) (begun : Begun i (s.transcript calls)) :
    (handle (s.after calls).world i).listed = true := by
  induction calls generalizing s with
  | nil =>
    obtain ⟨n, answer, told, -⟩ := begun
    cases told
  | cons c calls ih =>
    have there' := Nat.lt_of_lt_of_le there (size_le_perform s c)
    obtain ⟨n, answer, told, other⟩ := begun
    rcases List.mem_cons.1 told with first | later
    · cases first
      refine (stays_after there' calls).2.listed ?_
      cases found : source (handle s.world i) s.world with
      | error e =>
        rw [perform_list_error found] at other
        have path := other e rfl
        rw [isPath_source found] at path
        cases path
      | ok entries => rw [handle_perform_own there rfl, Call.turn, list_of_source found]
    · exact ih there' ⟨n, answer, later, other⟩

/-- Where nothing was written there is nothing to hand over. -/
theorem clean_of_not_written (there : i < s.world.memoryHandles.size) (clean : (handle s.world i).wrote = false)
    (quiet : ¬Written i (s.transcript calls)) : (handle (s.after calls).world i).wrote = false := by
  induction calls generalizing s with
  | nil => exact clean
  | cons c calls ih =>
    refine ih (Nat.lt_of_lt_of_le there (size_le_perform s c)) ?_ fun written => quiet ?_
    · refine holds_perform (P := fun h => h.wrote = false) there clean fun own => ?_
      cases c with
      | on _ _ | stat _ => exact clean
      | read _ size => exact (Handle.alike_read ..).wrote.trans clean
      | list _ n => exact (Handle.alike_list ..).wrote.trans clean
      | close _ => exact (Handle.alike_close _).wrote.trans clean
      | write j data =>
        obtain rfl := Option.some.inj own
        rw [Call.turn]
        rcases (handle s.world j).write_cases data with ⟨fault, refused⟩ | ⟨collected, -, taken⟩
        · rw [refused]
          exact clean
        · refine absurd ⟨data, .count data.length, ?_⟩ quiet
          rw [Session.transcript, perform_write, taken]
          exact List.mem_cons_self ..
    · obtain ⟨data, answer, told⟩ := written
      exact ⟨data, answer, List.mem_cons_of_mem _ told⟩

/-- A closed handle that has a listing without entries, and nothing to hand over. -/
structure Emptied (s : Session) (i : Nat) : Prop extends Shut s i where
  listed : (handle s.world i).listed = true
  empty : (handle s.world i).listing = []
  clean : (handle s.world i).wrote = false

namespace Emptied

theorem source_eq (emptied : Emptied s i) : source (handle s.world i) s.world = .ok [] := by
  rw [source, if_pos emptied.listed, emptied.empty]

theorem idle (emptied : Emptied s i) (n : Int) : Idle (s.perform (.list i n)).1 := by
  rw [perform_list_ok emptied.source_eq]
  exact idle_takePage_nil _ n

theorem perform (emptied : Emptied s i) (c : Call) : Emptied (s.perform c).2 i := by
  have next : (handle (s.perform c).2.world i).listing = [] ∧ (handle (s.perform c).2.world i).wrote = false := by
    refine holds_perform (P := fun h => h.listing = [] ∧ h.wrote = false) emptied.there
      ⟨emptied.empty, emptied.clean⟩ fun _ => ?_
    cases c with
    | on _ _ | stat _ => exact ⟨emptied.empty, emptied.clean⟩
    | read _ size =>
      rw [Call.turn, Handle.read, if_pos emptied.closed]
      exact ⟨emptied.empty, emptied.clean⟩
    | write _ data =>
      rw [Call.turn, Handle.write, if_pos emptied.closed]
      exact ⟨emptied.empty, emptied.clean⟩
    | list _ n =>
      rw [Call.turn, list_of_source emptied.source_eq]
      exact ⟨rfl, emptied.clean⟩
    | close _ =>
      rw [Call.turn, Handle.close, if_neg (by simp [emptied.clean])]
      exact ⟨rfl, emptied.clean⟩
  exact ⟨emptied.toShut.perform c, (stays_perform emptied.there c).listed emptied.listed, next.1, next.2⟩

theorem transcript (emptied : Emptied s i) {answer : Except Error Answer}
    (told : (.list i n, answer) ∈ s.transcript calls) : Idle answer := by
  induction calls generalizing s with
  | nil => cases told
  | cons c calls ih =>
    rcases List.mem_cons.1 told with first | later
    · cases first
      exact emptied.idle n
    · exact ih (emptied.perform c) later

end Emptied

theorem shut_close (there : i < s.world.memoryHandles.size) : Shut (s.perform (.close i)).2 i := by
  refine ⟨Nat.lt_of_lt_of_le there (size_le_perform s _), ?_⟩
  rw [handle_perform_own there rfl, Call.turn, Handle.close]
  split
  · rfl
  · rfl

theorem emptied_close (there : i < s.world.memoryHandles.size) (listed : (handle s.world i).listed = true)
    (clean : (handle s.world i).wrote = false) : Emptied (s.perform (.close i)).2 i := by
  have turned : handle (s.perform (.close i)).2.world i = { handle s.world i with closed := true, listing := [] } := by
    rw [handle_perform_own there rfl, Call.turn, Handle.close, if_neg (by simp [clean])]
  exact ⟨shut_close there, by rw [turned]; exact listed, by rw [turned], by rw [turned]; exact clean⟩

/-! ## Nothing but calls on the handle -/

theorem volumes_use (uses : c.Uses i) : (s.perform c).2.world.volumes = s.world.volumes := by
  cases c with
  | on _ _ | stat _ | close _ => cases uses
  | read _ _ | write _ _ | list _ _ => rfl

theorem number_of_uses (uses : c.Uses i) : c.number? = some i := by
  cases c with
  | on _ _ | stat _ | close _ => cases uses
  | read _ _ | write _ _ | list _ _ => exact congrArg some uses

/-- What is written to a handle goes to a file, if the volume is there. -/
def OnFile (w : World) (h : Handle) : Prop := h.view.volume < w.volumes.size →
  ∃ e, (w.volume h.view.volume).store.get? (key h.view.root h.name) = some e ∧ e.directory = false

theorem OnFile.congr {w w' : World} {h' : Handle} (filed : OnFile w h) (same : w'.volumes = w.volumes)
    (view : h'.view = h.view) (name : h'.name = h.name) : OnFile w' h' := by
  rw [OnFile, view, name, same, volume_eq same]
  exact filed

/-- A handle on a file has nothing to list. -/
theorem source_of_onFile {w : World} (fresh : h.listed = false) (filed : OnFile w h) : ∃ e, source h w = .error e := by
  have located (k : Text) (e : Entry) (found : locate h.view.root (w.volume h.view.volume).store h.name = .ok (k, e)) :
      e.directory = false := by
    obtain ⟨-, -, stored⟩ := locate_eq_ok.1 found
    obtain ⟨e', there, file⟩ := filed (there_of_stored (by rw [stored, Option.isSome_some]))
    rw [stored] at there
    cases there
    exact file
  rw [source, if_neg (by simp [fresh]), listing, list]
  cases found : locate h.view.root (w.volume h.view.volume).store h.name with
  | error e => exact ⟨e, rfl⟩
  | ok l =>
    obtain ⟨k, e⟩ := l
    exact ⟨Fault.notDir.at "ReadDir".text h.name, by simp [located k e found, Except.map]⟩

/-- How a handle is while it is only read, written and listed: it takes no data, or it is on a file and was not
listed. -/
structure Waits (s : Session) (i : Nat) : Prop where
  there : i < s.world.memoryHandles.size
  start : (handle s.world i).listed = false → (handle s.world i).cursor = 0
  fits : (handle s.world i).writer = none ∧ (handle s.world i).wrote = false ∨
    (handle s.world i).listed = false ∧ OnFile s.world (handle s.world i)

/-- A handle that can be listed takes no data. -/
theorem Waits.clean (waits : Waits s i) (found : source (handle s.world i) s.world = .ok entries) :
    (handle s.world i).writer = none ∧ (handle s.world i).wrote = false := by
  rcases waits.fits with reader | ⟨fresh, filed⟩
  · exact reader
  · obtain ⟨e, failed⟩ := source_of_onFile fresh filed
    rw [failed] at found
    cases found

theorem source_congr {w w' : World} {h' : Handle} (same : w'.volumes = w.volumes) (view : h'.view = h.view)
    (name : h'.name = h.name) (listed : h'.listed = h.listed) (listing : h'.listing = h.listing) :
    source h' w' = source h w := by
  rw [source, source, view, name, listed, listing, listing_eq same]

/-- What calls on a handle make of it, other than closing it: its `source` stays, and it is listed from the first call
on that asks for a page. -/
structure Used (s t : Session) (i : Nat) (lists : Prop) : Prop where
  waits : Waits t i
  same : source (handle t.world i) t.world = source (handle s.world i) s.world
  listed : ∀ entries, source (handle s.world i) s.world = .ok entries →
    ((handle t.world i).listed = true ↔ (handle s.world i).listed = true ∨ lists)

theorem Waits.kept {t : Session} {lists : Prop} (waits : Waits s i) (there : i < t.world.memoryHandles.size)
    (same : t.world.volumes = s.world.volumes) (keeps : (handle s.world i).Keeps (handle t.world i))
    (unlisted : ¬lists) :
    Used s t i lists where
  waits := by
    refine ⟨there, ?_, waits.fits.imp keeps.clean fun filed => ?_⟩
    · rw [keeps.listed, keeps.cursor]
      exact waits.start
    · exact ⟨keeps.listed.trans filed.1, filed.2.congr same keeps.view keeps.name⟩
  same := source_congr same keeps.view keeps.name keeps.listed keeps.listing
  listed := by simp [keeps.listed, unlisted]

theorem Waits.use (waits : Waits s i) (uses : c.Uses i) : Used s (s.perform c).2 i (∃ n, c = .list i n) := by
  have there' := Nat.lt_of_lt_of_le waits.there (size_le_perform s c)
  have same := volumes_use (s := s) uses
  have turned := handle_perform_own waits.there (number_of_uses uses)
  cases c with
  | on _ _ | stat _ | close _ => cases uses
  | read j size => exact waits.kept there' same (turned ▸ Handle.keeps_read _ size) (by simp)
  | write j data => exact waits.kept there' same (turned ▸ Handle.keeps_write _ data) (by simp)
  | list j n =>
    obtain rfl : j = i := uses
    cases found : source (handle s.world j) s.world with
    | error e =>
      have stays : (s.perform (.list j n)).2 = s := by rw [perform_list_error found]
      rw [stays]
      exact ⟨waits, rfl, fun entries other => by rw [found] at other; cases other⟩
    | ok entries =>
      rw [Call.turn, list_of_source found] at turned
      refine ⟨⟨there', ?_, ?_⟩, ?_, ?_⟩
      all_goals rw [turned]
      · intro fresh
        cases fresh
      · exact .inl (waits.clean found)
      · rw [found]
        exact if_pos rfl
      · simp

theorem Waits.after (waits : Waits s i) (uses : ∀ c ∈ calls, c.Uses i) :
    Used s (s.after calls) i (∃ n, .list i n ∈ calls) := by
  induction calls generalizing s with
  | nil => exact ⟨waits, rfl, by simp [Session.after]⟩
  | cons c calls ih =>
    obtain ⟨own, later⟩ := List.forall_mem_cons.1 uses
    have first := waits.use own
    have rest := ih first.waits later
    refine ⟨rest.waits, rest.same.trans first.same, fun entries found => ?_⟩
    refine (rest.listed entries (first.same.trans found)).trans ?_
    rw [first.listed entries found, or_assoc]
    simp only [List.mem_cons, exists_or, @eq_comm _ c]

/-! ## Closing -/

/-- Writing leaves a file. -/
theorem OnFile.write {w : World} (filed : OnFile w h) (data : Bytes) :
    OnFile (change h.view (fun root => write root h.name data h.mode) w).2 h := by
  intro there
  have size : (change h.view (fun root => Memory.write root h.name data h.mode) w).2.volumes.size =
      w.volumes.size := by
    simp [change_eq, World.setVolume]
  rw [size] at there
  rw [store_change w h.view there]
  obtain ⟨e, stored, file⟩ := filed there
  rcases Memory.write_cases h.view.root h.name data h.mode (w.volume h.view.volume).store with
    ⟨fault, -, failed⟩ | ⟨made, created, written⟩
  · rw [failed]
    exact ⟨e, (grows_create ..).kept _ _ stored, file⟩
  · rw [written]
    obtain ⟨-, -, kind, -⟩ := create_eq_ok created
    exact ⟨{ made with data := data }, by rw [Store.get?_put, if_pos rfl], kind⟩

/-- What closing makes of a handle: a listing that it has is let go, and one that it does not have is still there to be
asked for. -/
structure Ended (s t : Session) (i : Nat) : Prop where
  shut : Shut t i
  waits : Waits t i
  listed : (handle t.world i).listed = (handle s.world i).listed
  left : ∀ e es, source (handle t.world i) t.world = .ok (e :: es) ↔
    source (handle s.world i) s.world = .ok (e :: es) ∧ (handle s.world i).listed = false

theorem world_close (s : Session) (i : Nat) : (s.perform (.close i)).2.world =
    match (handle s.world i).commit with
    | none => setHandle s.world i (handle s.world i).close
    | some data => (change (handle s.world i).view
        (fun root => write root (handle s.world i).name data (handle s.world i).mode)
        (setHandle s.world i (handle s.world i).close)).2 := by
  simp only [perform, perform.act, telling_eq, closeHandle]
  cases (handle s.world i).commit with
  | none => rfl
  | some data => rfl

theorem Waits.close (waits : Waits s i) : Ended s (s.perform (.close i)).2 i := by
  have shut := shut_close waits.there
  have turned := handle_perform_own (c := .close i) waits.there rfl
  rw [Call.turn, Handle.close] at turned
  cases wrote : (handle s.world i).wrote with
  | false =>
    rw [if_neg (by simp [wrote])] at turned
    have same : (s.perform (.close i)).2.world.volumes = s.world.volumes := by
      rw [world_close, Handle.commit, if_neg (by simp [wrote])]
      rfl
    refine ⟨shut, ⟨shut.there, ?_, ?_⟩, ?_, ?_⟩
    all_goals rw [turned]
    · exact waits.start
    · exact waits.fits.imp id fun filed => ⟨filed.1, filed.2.congr same rfl rfl⟩
    · -- A handle that was not listed still asks its directory, which nothing was written to.
      intro e es
      rw [source, source, listing_eq same]
      cases (handle s.world i).listed with
      | true => simp
      | false => simp
  | true =>
    rw [if_pos wrote] at turned
    rcases waits.fits with ⟨-, clean⟩ | ⟨fresh, filed⟩
    · rw [wrote] at clean
      cases clean
    have filed' : OnFile (s.perform (.close i)).2.world { handle s.world i with closed := true } := by
      have there : OnFile (setHandle s.world i (handle s.world i).close) (handle s.world i) :=
        filed.congr rfl rfl rfl
      rw [world_close, Handle.commit, if_pos wrote]
      exact (there.write _).congr rfl rfl rfl
    refine ⟨shut, ⟨shut.there, ?_, ?_⟩, ?_, ?_⟩
    all_goals rw [turned]
    · exact waits.start
    · exact .inr ⟨fresh, filed'⟩
    · intro e es
      obtain ⟨failure, before⟩ := source_of_onFile fresh filed
      obtain ⟨failure', after⟩ := source_of_onFile (h := { handle s.world i with closed := true }) fresh filed'
      rw [before, after]
      simp

/-! ## What a closed handle hands over -/

/-- A closed handle that has nothing to list, or is not asked to, hands nothing over. -/
theorem idle_of_dry (shut : Shut s i) (waits : Waits s i) (uses : ∀ c ∈ calls, c.Uses i)
    (dry : (∃ n, .list i n ∈ calls) → ∀ e es, source (handle s.world i) s.world ≠ .ok (e :: es)) :
    ∀ said ∈ s.transcript calls, Idle said.2 := by
  induction calls generalizing s with
  | nil => exact fun said told => absurd told List.not_mem_nil
  | cons c calls ih =>
    obtain ⟨own, later⟩ := List.forall_mem_cons.1 uses
    have next := waits.use own
    refine List.forall_mem_cons.2 ⟨?_, ih (shut.perform c) next.waits later ?_⟩
    · cases c with
      | on _ _ | stat _ | close _ => cases own
      | read j size =>
        obtain rfl : j = i := own
        rw [shut.reads]
        trivial
      | write j data =>
        obtain rfl : j = i := own
        rw [shut.writes]
        trivial
      | list j n =>
        obtain rfl : j = i := own
        cases found : source (handle s.world j) s.world with
        | error e =>
          rw [perform_list_error found]
          trivial
        | ok entries =>
          cases entries with
          | nil =>
            rw [perform_list_ok found]
            exact idle_takePage_nil _ n
          | cons e es => exact absurd found (dry ⟨n, List.mem_cons_self ..⟩ e es)
    · rintro ⟨n, asked⟩
      rw [next.same]
      exact dry ⟨n, List.mem_cons_of_mem _ asked⟩

/-- A page from the beginning of a listing with entries has some. -/
theorem not_idle_takePage (e : Info) (es : List Info) (n : Int) : ¬Idle ((takePage (e :: es) 0 n).1.map .infos) := by
  have positive : pageLength ((e :: es).length - 0) n ≠ 0 := by
    unfold pageLength
    split
    · simp
    · simp; omega
  rw [takePage_eq fun _ => Nat.succ_pos _]
  simp only [Except.map, Idle, List.drop_zero, List.take_eq_nil_iff, reduceCtorEq, or_false]
  exact positive

/-- A handle that was not listed yet hands over entries once it is asked for them, if there are any. -/
theorem not_idle_of_fresh (waits : Waits s i) (fresh : (handle s.world i).listed = false) {e : Info} {es : List Info}
    (found : source (handle s.world i) s.world = .ok (e :: es)) (uses : ∀ c ∈ calls, c.Uses i)
    (asked : .list i n ∈ calls) : ∃ said ∈ s.transcript calls, ¬Idle said.2 := by
  induction calls generalizing s with
  | nil => cases asked
  | cons c calls ih =>
    obtain ⟨own, later⟩ := List.forall_mem_cons.1 uses
    by_cases first : ∃ n, c = .list i n
    · obtain ⟨n, rfl⟩ := first
      refine ⟨_, List.mem_cons_self .., ?_⟩
      rw [perform_list_ok found, waits.start fresh]
      exact not_idle_takePage e es n
    · have next := waits.use own
      have still : (handle (s.perform c).2.world i).listed = false := by
        rw [← Bool.not_eq_true, next.listed _ found, fresh]
        simpa using first
      have asked' : .list i n ∈ calls := (List.mem_cons.1 asked).resolve_left fun same => first ⟨n, same.symm⟩
      obtain ⟨said, told, full⟩ := ih next.waits still (next.same.trans found) later asked'
      exact ⟨said, List.mem_cons_of_mem _ told, full⟩

/-! ## Opening -/

theorem map_ne {α β : Type} {f : α → β} {b : β} (other : ∀ a, f a ≠ b) (r : Except Error α) : r.map f ≠ .ok b := by
  cases r with
  | error e => exact fun same => by cases same
  | ok a => exact fun same => other a (Except.ok.inj same)

/-- A handle that is answered is the one that the request opens, with the next number. -/
theorem opened_of_ask {view : View} {request : Request} {w : World}
    (told : (request.ask view w).1 = .ok (.handle i h)) :
    i = w.memoryHandles.size ∧ request.opened view (w.volume view.volume).store = some h := by
  cases request with
  | openFile name =>
    rw [Request.ask, opening_openFile] at told
    rw [Request.opened]
    cases found : locate view.root (w.volume view.volume).store name with
    | error e =>
      rw [found] at told
      cases told
    | ok located =>
      rw [found] at told
      cases told
      exact ⟨rfl, rfl⟩
  | create name mode =>
    rw [Request.ask, opening_createFile, change_eq] at told
    rw [Request.opened]
    cases made : (Memory.create view.root name mode (w.volume view.volume).store).1 with
    | error e =>
      rw [made] at told
      cases told
    | ok located =>
      rw [made] at told
      cases told
      exact ⟨rfl, rfl⟩
  | stat _ | read _ | list _ | glob _ | sub _ | mkdirAll _ _ | write _ _ _ | remove _ | removeAll _ =>
    rw [Request.ask, telling_eq] at told
    exact absurd told (map_ne (fun _ same => by cases same) _)

/-- A handle is opened unlisted and with nothing to hand over. It takes no data, or its file was just made. -/
theorem fresh_of_opened {view : View} {request : Request} {store : Store Entry}
    (made : request.opened view store = some h) :
    h.listed = false ∧ h.cursor = 0 ∧ h.wrote = false ∧ (h.writer = none ∨ ∃ mode located,
      request = .create h.name mode ∧ h.view = view ∧ (Memory.create view.root h.name mode store).1 = .ok located) := by
  cases request with
  | openFile name =>
    simp only [Request.opened] at made
    split at made
    · cases made
    · next e _ =>
      cases made
      split
      · exact ⟨rfl, rfl, rfl, .inl rfl⟩
      · exact ⟨rfl, rfl, rfl, .inl rfl⟩
  | create name mode =>
    simp only [Request.opened] at made
    split at made
    · cases made
    · next located created =>
      cases made
      exact ⟨rfl, rfl, rfl, .inr ⟨mode, located, rfl, rfl, created⟩⟩
  | stat _ | read _ | list _ | glob _ | sub _ | mkdirAll _ _ | write _ _ _ | remove _ | removeAll _ => cases made

/-- A file that was just made is one. -/
theorem onFile_of_created {view : View} {w : World} {mode : Int} {located : Text × Entry} (own : h.view = view)
    (created : (Memory.create view.root h.name mode (w.volume view.volume).store).1 = .ok located) :
    OnFile (Request.ask view (.create h.name mode) w).2 h := by
  obtain ⟨k, e⟩ := located
  obtain ⟨-, rfl, file, stored⟩ := create_eq_ok created
  intro there
  rw [own] at there ⊢
  have there' : view.volume < w.volumes.size := by
    rw [Request.ask, opening_createFile, change_eq, created] at there
    simpa [newFile, World.setVolume] using there
  rw [(ask_world w view there' _).1]
  exact ⟨e, stored, file⟩

theorem waits_of_opened (opened : (s.perform c).1 = .ok (.handle i h)) :
    Waits (s.perform c).2 i ∧ handle (s.perform c).2.world i = h ∧ h.listed = false ∧ h.wrote = false := by
  cases c with
  | on v request =>
    obtain ⟨rfl, made⟩ := opened_of_ask opened
    obtain ⟨fresh, start, clean, kind⟩ := fresh_of_opened made
    have pushed : (s.perform (.on v request)).2.world.memoryHandles = s.world.memoryHandles.push h := by
      rw [handles_perform, Call.handles, store, made, more]
    have state : handle (s.perform (.on v request)).2.world s.world.memoryHandles.size = h := by
      simp [handle, pushed]
    refine ⟨⟨by simp [pushed], fun _ => by rw [state, start], ?_⟩, state, fresh, clean⟩
    rw [state]
    rcases kind with reader | ⟨mode, located, rfl, own, created⟩
    · exact .inl ⟨reader, clean⟩
    · exact .inr ⟨fresh, onFile_of_created own created⟩
  | read _ _ | write _ _ | list _ _ | stat _ | close _ =>
    exact absurd opened (map_ne (fun _ same => by cases same) _)

/-! ## Closing an opened handle -/

/-- **A handle that is closed** hands nothing over any more: it is not read or written, and a listing that was begun
has no entries left. Only a directory that was not listed before it was closed is still listed afterwards. -/
theorem closed_idle (opened : (s.perform c).1 = .ok (.handle i h)) (before : List Call) :
    Closes (s.perform c).2 i h before := by
  obtain ⟨waits, state, fresh, clean⟩ := waits_of_opened opened
  generalize (s.perform c).2 = t at waits state
  subst state
  have there := waits.there
  obtain ⟨there', stays⟩ := stays_after there before
  have shut : Shut (t.closing i before) i := shut_close there'
  have later (after : List Call) : Shut ((t.closing i before).after after) i ∧
      (handle ((t.closing i before).after after).world i).closedFault = (handle t.world i).closedFault := by
    obtain ⟨there'', stays'⟩ := stays_after shut.there after
    have name := stays'.name.trans ((stays_perform there' (.close i)).name.trans stays.name)
    exact ⟨⟨there'', stays'.closed shut.closed⟩, by rw [Handle.closedFault, name, Handle.closedFault]⟩
  refine ⟨fun after size => ?_, fun after data => ?_, fun begun quiet after n answer => ?_, fun uses after uses' => ?_⟩
  · rw [(later after).1.reads, (later after).2]
  · rw [(later after).1.writes, (later after).2]
  · exact (emptied_close there' (listed_of_begun there begun) (clean_of_not_written there clean quiet)).transcript
  · have goes := waits.after uses
    have ends := goes.waits.close
    have closing (e : Info) (es : List Info) : source (handle (t.closing i before).world i) (t.closing i before).world =
        .ok (e :: es) ↔ source (handle t.world i) t.world = .ok (e :: es) ∧ ∀ n, .list i n ∉ before := by
      rw [Session.closing, ends.left, goes.same]
      refine and_congr_right fun found => ?_
      rw [← Bool.not_eq_true, goes.listed _ found, fresh]
      simp
    have asks : source (handle t.world i) t.world = listing (handle t.world i).view (handle t.world i).name t.world :=
      if_neg (by simp [fresh])
    rw [← asks]
    constructor
    · rintro idle ⟨⟨e, es, found⟩, unlisted, n, asked⟩
      have left := (closing e es).2 ⟨found, unlisted⟩
      have fresh' := ends.listed.trans ((ends.left e es).1 left).2
      obtain ⟨said, told, full⟩ := not_idle_of_fresh ends.waits fresh' left uses' asked
      exact full (idle said told)
    · intro exempt
      refine idle_of_dry ends.shut ends.waits uses' fun asked e es found => ?_
      obtain ⟨found, unlisted⟩ := (closing e es).1 found
      exact exempt ⟨⟨e, es, found⟩, unlisted, asked⟩

/-- A directory that is stored can be opened. -/
theorem opens_directory (s : Session) (v : Nat) {name : Text} (valid : Path.isValid name = true)
    (there : IsDirectory s.store (key (s.root v) name)) : ∃ h,
      (s.perform (.on v (.openFile name))).1 = .ok (.handle s.world.memoryHandles.size h) := by
  obtain ⟨e, stored, -⟩ := there
  rw [perform_on, Request.ask, opening_openFile, ← Session.store, locate_eq_ok.2 ⟨valid, rfl, stored⟩]
  exact ⟨_, rfl⟩

theorem opens_saved : ∃ h, (saved.perform (.on 0 (.openFile Path.here))).1 = .ok (.handle 0 h) := by
  have first : saved.world.memoryHandles.size = 0 := by decide +kernel
  rw [← first]
  exact opens_directory saved 0 (by decide) (by decide +kernel)

/-- A directory is listed before it is closed. -/
theorem closed_idle_listed : ∃ h, (saved.perform (.on 0 (.openFile Path.here))).1 = .ok (.handle 0 h) ∧
    Closes (saved.perform (.on 0 (.openFile Path.here))).2 0 h [.list 0 1] := by
  obtain ⟨h, opened⟩ := opens_saved
  exact ⟨h, opened, closed_idle opened [.list 0 1]⟩

/-- The number of entries that an answer hands over. -/
def Answer.length : Answer → Nat
  | .infos entries => entries.length
  | _ => 0

theorem not_idle_of_length {r : Except Error Answer} {k : Nat} (told : r.map Answer.length = .ok (k + 1)) :
    ¬Idle r := by
  rintro idle
  cases r with
  | error e => cases told
  | ok answer =>
    cases answer with
    | infos entries =>
      obtain rfl : entries = [] := idle
      cases told
    | _ => cases told

/-- A directory that is closed at once is listed afterwards. -/
theorem not_closed_idle :
    ¬∀ (calls : List Call) (c : Call) (i : Nat) (h : Handle) (before after : List Call),
      ((start.after calls).perform c).1 = .ok (.handle i h) → (∀ c ∈ before, c.Uses i) → (∀ c ∈ after, c.Uses i) →
      ∀ said ∈ (((start.after calls).perform c).2.closing i before).transcript after, Idle said.2 := by
  intro idle
  obtain ⟨h, opened⟩ := opens_saved
  have asked : ∀ c ∈ [Call.list 0 0], c.Uses 0 := by simp [Call.Uses]
  obtain ⟨said, told, full⟩ : ∃ said ∈ ((saved.perform (.on 0 (.openFile Path.here))).2.closing 0 []).transcript
      [.list 0 0], ¬Idle said.2 := by
    refine ⟨_, List.mem_singleton_self _, not_idle_of_length (k := 0) ?_⟩
    decide +kernel
  exact full (idle _ _ 0 h [] [.list 0 0] opened (by simp) asked said told)

end Vfs.Memory
