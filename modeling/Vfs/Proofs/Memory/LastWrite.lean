import Vfs.Proofs.Memory.Session

/-!
# The last write wins

A `Ledger` is kept of a session's calls and their answers alone: the root key of each view, what was
written to each handle of a file being created, and what was effectively done to the content under keys.
`Agrees.perform` says that the store under every key holds what the ledger's latest deed left, one call
after the other, and `lastWriteWins` what follows for reading: through any view, under any name.
-/

namespace Vfs.Memory
set_option autoImplicit false
open Session

/-! ## What is said about a session -/

/-- A change of what is under a key. -/
inductive Deed where
  | wrote (key : Text) (data : Bytes)
  | removed (key : Text)
  | removedAll (above : Text)

/-- The content under a key after a deed, when it was `before`. -/
def Deed.leaves (k : Text) (before : Bytes) : Deed → Bytes
  | .wrote key data => if k = key then data else before
  | .removed key => if k = key then [] else before
  | .removedAll above => if k = above ∨ Store.Under above k then [] else before

/-- What deeds left under a key, the newest one first: the data of the latest write to it, unless it was
removed since. -/
def latest (k : Text) : List Deed → Bytes
  | [] => []
  | deed :: earlier => deed.leaves k (latest k earlier)

/-- A file being created: its key, and what was written to its handle, oldest first. -/
structure Draft where
  key : Text
  pieces : List Bytes

/-- What the calls of a session and their answers say. A handle opened for reading has no draft. -/
structure Ledger where
  roots : List Text := [[.char '/']]
  drafts : List (Option Draft) := []
  deeds : List Deed := []

namespace Ledger

/-- The root key of a view. -/
def root (l : Ledger) (v : Nat) : Text := l.roots.getD v [.char '/']

/-- The draft of a handle. -/
def draft (l : Ledger) (i : Nat) : Option Draft := l.drafts.getD i none

/-- The ledger with one more deed. -/
def did (l : Ledger) (deed : Deed) : Ledger := { l with deeds := deed :: l.deeds }

/-- The ledger after a request that a view answered. -/
def noteRequest (l : Ledger) (v : Nat) : Request → Ledger
  | .write name data _ => l.did (.wrote (key (l.root v) name) data)
  | .remove name => l.did (.removed (key (l.root v) name))
  | .removeAll name => l.did (.removedAll (key (l.root v) name))
  | .create name _ => { l with drafts := l.drafts ++ [some ⟨key (l.root v) name, []⟩] }
  | .openFile _ => { l with drafts := l.drafts ++ [none] }
  | .sub dir => { l with roots := l.roots ++ [key (l.root v) dir] }
  | .stat _ | .read _ | .list _ | .glob _ | .mkdirAll _ _ => l

/-- The ledger after a call with its answer. What fails is not noted, and closing a handle writes only
if something was written to it. -/
def note (l : Ledger) : Call → Except Error Answer → Ledger
  | _, .error _ => l
  | .on v request, .ok _ => l.noteRequest v request
  | .write i data, .ok _ =>
    { l with drafts := l.drafts.modify i (Option.map fun d => ⟨d.key, d.pieces ++ [data]⟩) }
  | .close i, .ok _ =>
    match l.draft i with
    | none | some ⟨_, []⟩ => l
    | some ⟨key, pieces⟩ => l.did (.wrote key pieces.flatten)
  | .read _ _, .ok _ | .list _ _, .ok _ | .stat _, .ok _ => l

/-- The ledger of calls with their answers. -/
def ofTranscript (transcript : List (Call × Except Error Answer)) : Ledger :=
  transcript.foldl (fun l said => l.note said.1 said.2) {}

end Ledger

/-- Reading answers what the latest deed left, and a call that is no deed takes nothing from any reader. -/
structure LastWriteWins (s : Session) (l : Ledger) : Prop where
  latest : ∀ v name data, (s.perform (.on v (.read name))).1 = .ok (.content data) →
    data = latest (key (s.root v) name) l.deeds
  steady : ∀ c, (l.note c (s.perform c).1).deeds = l.deeds → ∀ v < s.roots.length, ∀ name data,
    (s.perform (.on v (.read name))).1 = .ok (.content data) →
      ((s.perform c).2.perform (.on v (.read name))).1 = .ok (.content data)

/-! ## The content under keys -/

variable {s t : Store Entry} {e : Entry} {k : Text}

/-- The content under a key, nothing where no file is. -/
def dataAt (s : Store Entry) (k : Text) : Bytes :=
  match s.get? k with
  | none => []
  | some e => if e.directory then [] else e.data

theorem Grows.dataAt (grows : Grows s t) (k : Text) : dataAt t k = dataAt s k := by
  unfold Memory.dataAt
  cases before : s.get? k with
  | some e => rw [grows.kept k e before]
  | none =>
    cases after : t.get? k with
    | none => rfl
    | some e => simp [grows.blank k e before after]

theorem dataAt_put (file : e.directory = false) (key : Text) :
    dataAt (s.put key e) k = if k = key then e.data else dataAt s k := by
  by_cases same : k = key
  · simp [dataAt, Store.get?_put, same, file]
  · simp [dataAt, Store.get?_put, same]

theorem dataAt_remove (sound : s.Sound) (key : Text) :
    dataAt (s.remove key) k = if k = key then [] else dataAt s k := by
  by_cases same : k = key
  · simp [dataAt, Store.get?_remove sound, same]
  · simp [dataAt, Store.get?_remove sound, same]

theorem dataAt_removeAll (sound : s.Sound) (above : Text) :
    dataAt (s.removeAll above) k = if k = above ∨ Store.Under above k then [] else dataAt s k := by
  by_cases gone : k = above ∨ Store.Under above k
  · simp [dataAt, Store.get?_removeAll sound, gone]
  · simp [dataAt, Store.get?_removeAll sound, gone]

theorem dataAt_of_content {root name : Text} {data : Bytes} (read : content root s name = .ok data) :
    dataAt s (key root name) = data := by
  obtain ⟨e, found, file, rfl⟩ := content_eq_ok.1 read
  obtain ⟨-, -, stored⟩ := locate_eq_ok.1 found
  simp [dataAt, stored, file]

theorem Grows.content {root name : Text} {data : Bytes} (grows : Grows s t)
    (read : content root s name = .ok data) : content root t name = .ok data := by
  obtain ⟨e, found, file, same⟩ := content_eq_ok.1 read
  obtain ⟨valid, key, stored⟩ := locate_eq_ok.1 found
  exact content_eq_ok.2 ⟨e, locate_eq_ok.2 ⟨valid, key, grows.kept _ e stored⟩, file, same⟩

/-- Writing puts the data under the name's key, or it fails and leaves all content. -/
theorem dataAt_write (root name : Text) (data : Bytes) (mode : Int) (s : Store Entry) :
    (∃ fault, (write root name data mode s).1 = .error fault ∧ Grows s (write root name data mode s).2) ∨
      (write root name data mode s).1 = .ok data.length ∧ ∀ k,
        dataAt (write root name data mode s).2 k = if k = key root name then data else dataAt s k := by
  have way := grows_create root name mode s
  rcases write_cases root name data mode s with ⟨fault, -, eq⟩ | ⟨e, made, eq⟩
  · rw [eq]
    exact .inl ⟨fault, rfl, way⟩
  · obtain ⟨-, -, file, -⟩ := create_eq_ok made
    rw [eq]
    have written : ({ e with data := data } : Entry).directory = false := file
    exact .inr ⟨rfl, fun k => by rw [dataAt_put written, way.dataAt]⟩

/-! ## Handles and their drafts -/

/-- A handle collects what its draft says, or nothing if it has none. -/
def Collects (h : Handle) : Option Draft → Prop
  | none => h.writer = none ∧ h.wrote = false
  | some d => key h.view.root h.name = d.key ∧ h.writer = some d.pieces.flatten ∧ h.wrote = !d.pieces.isEmpty

theorem Collects.alike {h h' : Handle} {d : Option Draft} (collects : Collects h d) (alike : h.Alike h') :
    Collects h' d := by
  cases d with
  | none => exact ⟨alike.writer.trans collects.1, alike.wrote.trans collects.2⟩
  | some d =>
    obtain ⟨place, writer, wrote⟩ := collects
    exact ⟨by rw [alike.view, alike.name, place], alike.writer.trans writer, alike.wrote.trans wrote⟩

/-- Every handle of a world collects what its draft in a ledger says. -/
structure Drafted (handles : Array Handle) (drafts : List (Option Draft)) : Prop where
  count : handles.size = drafts.length
  each : ∀ (i : Nat) h d, handles[i]? = some h → drafts[i]? = some d → Collects h d

variable {handles : Array Handle} {drafts : List (Option Draft)}

theorem Drafted.push (drafted : Drafted handles drafts) {h : Handle} {d : Option Draft} (new : Collects h d) :
    Drafted (handles.push h) (drafts ++ [d]) where
  count := by rw [Array.size_push, List.length_append, drafted.count]; rfl
  each := by
    intro i h' d' found drawn
    rw [Array.getElem?_push] at found
    split at found
    · next last =>
      obtain rfl := Option.some.inj found
      rw [last, drafted.count, List.getElem?_concat_length] at drawn
      obtain rfl := Option.some.inj drawn
      exact new
    · next before =>
      have inside : i < drafts.length := by
        obtain ⟨bound, -⟩ := Array.getElem?_eq_some_iff.1 found
        rw [← drafted.count]
        exact bound
      rw [List.getElem?_append_left inside] at drawn
      exact drafted.each i h' d' found drawn

/-- A handle changes together with its draft. -/
theorem Drafted.set (drafted : Drafted handles drafts) {i : Nat} {h : Handle} {f : Option Draft → Option Draft}
    (new : ∀ d, drafts[i]? = some d → Collects h (f d)) :
    Drafted (handles.setIfInBounds i h) (drafts.modify i f) where
  count := by rw [Array.size_setIfInBounds, List.length_modify, drafted.count]
  each := by
    intro j h' d' found drawn
    rw [Array.getElem?_setIfInBounds] at found
    split at found
    · next same =>
      subst same
      rw [List.getElem?_modify_eq] at drawn
      obtain ⟨d, before, rfl⟩ := Option.map_eq_some_iff.1 drawn
      split at found
      · obtain rfl := Option.some.inj found
        exact new d before
      · cases found
    · next other =>
      rw [List.getElem?_modify_ne f drafts other] at drawn
      exact drafted.each j h' d' found drawn

/-- A handle changes, but not in what it hands over. -/
theorem Drafted.keep (drafted : Drafted handles drafts) {i : Nat} {h : Handle}
    (new : ∀ d, drafts[i]? = some d → Collects h d) : Drafted (handles.setIfInBounds i h) drafts := by
  have kept := drafted.set (f := id) new
  rwa [List.modify_id] at kept

/-- A number without a handle has neither a writer nor a draft. -/
theorem Drafted.handle {w : World} (drafted : Drafted w.memoryHandles drafts) (i : Nat) :
    Collects (handle w i) (drafts.getD i none) := by
  rw [List.getD_eq_getElem?_getD]
  by_cases there : i < w.memoryHandles.size
  · have drawn : i < drafts.length := drafted.count ▸ there
    have found : w.memoryHandles[i]? = some (Memory.handle w i) := by simp [Memory.handle, there]
    rw [List.getElem?_eq_getElem drawn]
    exact drafted.each i _ _ found (List.getElem?_eq_getElem drawn)
  · have outside := Nat.le_of_not_lt there
    rw [handle_of_size_le outside, List.getElem?_eq_none (drafted.count ▸ outside)]
    exact ⟨rfl, rfl⟩

theorem Drafted.collects {w : World} (drafted : Drafted w.memoryHandles drafts) {i : Nat} {d : Option Draft}
    (drawn : drafts[i]? = some d) : Collects (Memory.handle w i) d := by
  have collects := drafted.handle i
  rwa [List.getD_eq_getElem?_getD, drawn] at collects

/-! ## Sessions and their ledgers -/

/-- What a ledger says of a session holds. -/
structure Agrees (s : Session) (l : Ledger) : Prop where
  wired : s.Wired
  sound : s.store.Sound
  roots : s.roots = l.roots
  drafted : Drafted s.world.memoryHandles l.drafts
  data : ∀ k, dataAt s.store k = latest k l.deeds

variable {l : Ledger}

theorem Agrees.root {s : Session} (agrees : Agrees s l) (v : Nat) : s.root v = l.root v := by
  rw [Session.root, agrees.roots]
  rfl

theorem note_error (l : Ledger) (c : Call) (fault : Error) : l.note c (.error fault) = l := by
  cases c <;> rfl

/-- Of the ledger, only `sub` adds a root. -/
theorem roots_note (l : Ledger) (c : Call) (a : Answer) :
    (l.note c (.ok a)).roots =
      match c with
      | .on v (.sub dir) => l.roots ++ [key (l.root v) dir]
      | _ => l.roots := by
  cases c with
  | on v request => cases request <;> rfl
  | close i =>
    simp only [Ledger.note]
    split
    · rfl
    · rfl
    · rfl
  | read _ _ | write _ _ | list _ _ | stat _ => rfl

theorem Agrees.roots_perform {s : Session} (agrees : Agrees s l) (c : Call) :
    (s.perform c).2.roots = (l.note c (s.perform c).1).roots := by
  cases answered : (s.perform c).1 with
  | error fault =>
    rw [note_error, ← agrees.roots]
    cases c with
    | on v request =>
      rw [perform_on] at answered ⊢
      dsimp only at answered ⊢
      rw [answered]
      exact List.append_nil _
    | read _ _ | write _ _ | list _ _ | stat _ | close _ => rfl
  | ok a =>
    rw [roots_note, ← agrees.roots]
    cases c with
    | on v request =>
      rw [perform_on] at answered ⊢
      dsimp only at answered ⊢
      rcases newRoots_ask ⟨0, s.root v⟩ request s.world with ⟨dir, rfl, -, told⟩ | ⟨told, fails⟩
      · rw [told, agrees.root]
      · rw [told, List.append_nil]
        cases request with
        | sub dir =>
          obtain ⟨fault, failed⟩ := fails dir rfl
          rw [failed] at answered
          cases answered
        | _ => rfl
    | read _ _ | write _ _ | list _ _ | stat _ | close _ => rfl

theorem drafts_close (l : Ledger) (i : Nat) (r : Except Error Answer) :
    (l.note (.close i) r).drafts = l.drafts := by
  cases r with
  | error fault => rfl
  | ok a =>
    simp only [Ledger.note]
    split
    · rfl
    · rfl
    · rfl

theorem Agrees.drafted_request {s : Session} (agrees : Agrees s l) (v : Nat) (request : Request) :
    Drafted (more s.world.memoryHandles (request.opened ⟨0, s.root v⟩ s.store))
      (l.note (.on v request) (request.ask ⟨0, s.root v⟩ s.world).1).drafts := by
  cases request with
  | openFile name =>
    simp only [Request.ask, opening_openFile, Request.opened, store]
    cases locate (s.root v) (s.world.volume 0).store name with
    | error fault => exact agrees.drafted
    | ok located =>
      refine agrees.drafted.push ?_
      split
      · exact ⟨rfl, rfl⟩
      · exact ⟨rfl, rfl⟩
  | create name mode =>
    simp only [Request.ask, opening_createFile, change_eq, Request.opened, store]
    cases (create (s.root v) name mode (s.world.volume 0).store).1 with
    | error fault => exact agrees.drafted
    | ok made => exact agrees.drafted.push ⟨by rw [agrees.root]; rfl, rfl, rfl⟩
  | _ =>
    cases answered : Prod.fst _ with
    | error fault =>
      rw [note_error]
      exact agrees.drafted
    | ok a => exact agrees.drafted

theorem Agrees.drafted_perform {s : Session} (agrees : Agrees s l) (c : Call) :
    Drafted (s.perform c).2.world.memoryHandles (l.note c (s.perform c).1).drafts := by
  rw [handles_perform]
  -- Reading, listing and closing leave what a handle hands over.
  have kept {i : Nat} {h : Handle} (alike : (handle s.world i).Alike h)
      (same : ∀ r, (l.note c r).drafts = l.drafts) :
      Drafted (s.world.memoryHandles.setIfInBounds i h) (l.note c (s.perform c).1).drafts := by
    rw [same]
    exact agrees.drafted.keep fun d drawn => (agrees.drafted.collects drawn).alike alike
  cases c with
  | on v request => exact agrees.drafted_request v request
  | read i size => exact kept (Handle.alike_read ..) fun r => by cases r <;> rfl
  | list i n => exact kept (Handle.alike_list ..) fun r => by cases r <;> rfl
  | close i => exact kept (Handle.alike_close ..) (drafts_close l i)
  | stat i =>
    have same (r : Except Error Answer) : (l.note (.stat i) r).drafts = l.drafts := by cases r <;> rfl
    rw [same]
    exact agrees.drafted
  | write i data =>
    have answer : (s.perform (.write i data)).1 = ((handle s.world i).write data).1.map .count := rfl
    rw [answer]
    rcases (handle s.world i).write_cases data with ⟨fault, eq⟩ | ⟨collected, writer, eq⟩
    · simp only [Call.handles, eq]
      exact agrees.drafted.keep fun d drawn => agrees.drafted.collects drawn
    · simp only [Call.handles, eq]
      refine agrees.drafted.set fun d drawn => ?_
      have collects := agrees.drafted.collects drawn
      cases d with
      | none =>
        rw [Collects, writer] at collects
        cases collects.1
      | some d =>
        obtain ⟨place, found, -⟩ := collects
        rw [writer] at found
        obtain rfl := Option.some.inj found
        exact ⟨place, by simp, by simp⟩

/-! ## One call after the other -/

/-- Closing a handle that hands something over answers what writing it does. -/
theorem perform_close {s : Session} (wired : s.Wired) (i : Nat) {data : Bytes}
    (handed : (handle s.world i).commit = some data) :
    (s.perform (.close i)).1 =
      (write (handle s.world i).view.root (handle s.world i).name data (handle s.world i).mode s.store).1.map
        fun _ => .done := by
  have here := wired.volume_handle i
  simp only [Session.perform, perform.act, telling_eq, closeHandle, handed, change_eq, here]
  show ((write _ _ data _ s.store).1.map fun _ => ()).map (fun _ => Answer.done) = _
  cases (write (handle s.world i).view.root (handle s.world i).name data (handle s.world i).mode s.store).1 with
  | error fault => rfl
  | ok n => rfl

/-- What becomes of the deeds and of the store. There is no new deed, and then the store only grows, or
there is one, and the content under every key is what it leaves. -/
inductive Accounts (s t : Store Entry) (earlier : List Deed) : List Deed → Prop where
  | quiet : Grows s t → Accounts s t earlier earlier
  | did (deed : Deed) : (∀ k, dataAt t k = deed.leaves k (dataAt s k)) → Accounts s t earlier (deed :: earlier)

theorem Accounts.data {earlier deeds : List Deed} (accounts : Accounts s t earlier deeds)
    (data : ∀ k, dataAt s k = latest k earlier) (k : Text) : dataAt t k = latest k deeds := by
  cases accounts with
  | quiet grows => rw [grows.dataAt, data]
  | did deed left =>
    rw [left, data]
    rfl

/-- Deeds that do not change are accounted for by a store that grows. -/
theorem Accounts.grows {deeds : List Deed} (accounts : Accounts s t deeds deeds) : Grows s t := by
  cases accounts with
  | quiet grows => exact grows

/-- Writing is a deed exactly if it succeeds. -/
theorem accounts_write (root name : Text) (data : Bytes) (mode : Int) (s : Store Entry) (l : Ledger)
    (c : Call) (tell : Nat → Answer) (noted : ∀ a, (l.note c (.ok a)).deeds = .wrote (key root name) data :: l.deeds) :
    Accounts s (write root name data mode s).2 l.deeds
      (l.note c ((write root name data mode s).1.map tell)).deeds := by
  rcases dataAt_write root name data mode s with ⟨fault, failed, grows⟩ | ⟨done, left⟩
  · rw [failed]
    show Accounts _ _ l.deeds (l.note c (.error fault)).deeds
    rw [note_error]
    exact .quiet grows
  · rw [done]
    show Accounts _ _ l.deeds (l.note c (.ok _)).deeds
    rw [noted]
    exact .did (.wrote (key root name) data) left

theorem Agrees.accounts_on {s : Session} (agrees : Agrees s l) (v : Nat) (request : Request) :
    Accounts s.store (Call.effect s (.on v request)) l.deeds
      (l.note (.on v request) (s.perform (.on v request)).1).deeds := by
  have root := agrees.root v
  -- What fails is not noted, and no more is a request that is no deed.
  have quiet {t : Store Entry} (grows : Grows s.store t) (same : (l.noteRequest v request).deeds = l.deeds) :
      Accounts s.store t l.deeds (l.note (.on v request) (s.perform (.on v request)).1).deeds := by
    have unnoted : (l.note (.on v request) (s.perform (.on v request)).1).deeds = l.deeds := by
      cases (s.perform (.on v request)).1 with
      | error fault => rfl
      | ok a => exact same
    rw [unnoted]
    exact .quiet grows
  cases request with
  | write name data mode =>
    exact accounts_write (s.root v) name data mode s.store l _ .count fun a => by rw [root]; rfl
  | remove name =>
    have answer : (s.perform (.on v (.remove name))).1 =
        (remove (s.root v) name s.store).1.map fun _ => .done := rfl
    rw [answer, Call.effect, Request.effect, Memory.remove]
    split
    · refine .did (.removed (key (l.root v) name)) fun k => ?_
      rw [← root]
      exact dataAt_remove agrees.sound _
    · exact .quiet (.refl _)
  | removeAll name =>
    have answer : (s.perform (.on v (.removeAll name))).1 =
        (removeAll (s.root v) name s.store).1.map fun _ => .done := rfl
    rw [answer, Call.effect, Request.effect, Memory.removeAll]
    split
    · refine .did (.removedAll (key (l.root v) name)) fun k => ?_
      rw [← root]
      exact dataAt_removeAll agrees.sound _
    · exact .quiet (.refl _)
  | mkdirAll dir mode => exact quiet (grows_mkdirAll ..) rfl
  | create name mode => exact quiet (grows_create ..) rfl
  | openFile _ | stat _ | read _ | list _ | glob _ | sub _ => exact quiet (.refl _) rfl

/-- Closing is a deed if something was written to the handle. -/
theorem Agrees.accounts_close {s : Session} (agrees : Agrees s l) (i : Nat) :
    Accounts s.store (Call.effect s (.close i)) l.deeds (l.note (.close i) (s.perform (.close i)).1).deeds := by
  have collects : Collects (handle s.world i) (l.draft i) := agrees.drafted.handle i
  -- Without a piece there is nothing to hand over.
  have idle (wrote : (handle s.world i).wrote = false) (unnoted : ∀ a, l.note (.close i) (.ok a) = l) :
      Accounts s.store (Call.effect s (.close i)) l.deeds (l.note (.close i) (s.perform (.close i)).1).deeds := by
    have nothing : (handle s.world i).commit = none := by rw [Handle.commit, wrote]; rfl
    simp only [Call.effect, Handle.effect, nothing]
    cases (s.perform (.close i)).1 with
    | error fault => exact .quiet (.refl _)
    | ok a =>
      rw [unnoted]
      exact .quiet (.refl _)
  cases draft : l.draft i with
  | none =>
    rw [draft] at collects
    exact idle collects.2 fun a => by simp only [Ledger.note, draft]
  | some d =>
    rw [draft] at collects
    obtain ⟨place, writer, wrote⟩ := collects
    obtain ⟨k, pieces⟩ := d
    cases pieces with
    | nil => exact idle wrote fun a => by simp only [Ledger.note, draft]
    | cons p pieces =>
      have handed : (handle s.world i).commit = some (p :: pieces).flatten := by
        rw [Handle.commit, wrote, writer]
        rfl
      rw [perform_close agrees.wired i handed]
      simp only [Call.effect, Handle.effect, handed]
      apply accounts_write
      intro a
      simp only [Ledger.note, draft, place]
      rfl

theorem Agrees.accounts {s : Session} (agrees : Agrees s l) (c : Call) :
    Accounts s.store (c.effect s) l.deeds (l.note c (s.perform c).1).deeds := by
  -- Of the calls on a handle, only closing can be a deed.
  have quiet (same : ∀ r, (l.note c r).deeds = l.deeds) :
      Accounts s.store s.store l.deeds (l.note c (s.perform c).1).deeds := by
    rw [same]
    exact .quiet (.refl _)
  cases c with
  | on v request => exact agrees.accounts_on v request
  | close i => exact agrees.accounts_close i
  | read _ _ | write _ _ | list _ _ | stat _ => exact quiet fun r => by cases r <;> rfl

theorem Agrees.perform {s : Session} (agrees : Agrees s l) (c : Call) :
    Agrees (s.perform c).2 (l.note c (s.perform c).1) where
  wired := agrees.wired.perform c
  sound := sound_perform agrees.wired agrees.sound c
  roots := agrees.roots_perform c
  drafted := agrees.drafted_perform c
  data := by
    rw [store_perform agrees.wired]
    exact (agrees.accounts c).data agrees.data

theorem agrees_start : Agrees Session.start {} where
  wired := wired_start
  sound := sound_start
  roots := rfl
  drafted := ⟨rfl, fun _ _ _ found => absurd found (by simp [Session.start, newFilesystem])⟩
  data := by
    intro k
    have fresh : Session.start.store = Store.empty.put [.char '/'] (.newDirectory Path.here Mode.standard) := rfl
    by_cases top : k = [.char '/']
    · simp [fresh, dataAt, Store.get?_put, top, Entry.newDirectory, latest]
    · have missing : (Store.empty : Store Entry).get? k = none := rfl
      simp [fresh, dataAt, Store.get?_put, top, missing, latest]

/-- What a ledger says goes on to hold when it is kept. -/
theorem Agrees.after {s : Session} (agrees : Agrees s l) (calls : List Call) :
    Agrees (s.after calls) ((s.transcript calls).foldl (fun l said => l.note said.1 said.2) l) := by
  induction calls generalizing s l with
  | nil => exact agrees
  | cons c rest ih => exact ih (agrees.perform c)

/-- Reading through a view answers the content under the name's key. -/
theorem read_eq_ok {s : Session} {v : Nat} {name : Text} {data : Bytes} :
    (s.perform (.on v (.read name))).1 = .ok (.content data) ↔ content (s.root v) s.store name = .ok data := by
  have answer : (s.perform (.on v (.read name))).1 = (content (s.root v) s.store name).map .content := rfl
  rw [answer]
  cases content (s.root v) s.store name with
  | error fault => simp [Except.map]
  | ok found => simp [Except.map]

/-- **The last write wins**, through every view and after any calls. -/
theorem lastWriteWins (calls : List Call) :
    LastWriteWins (Session.start.after calls) (.ofTranscript (Session.start.transcript calls)) := by
  have agrees : Agrees (Session.start.after calls) (.ofTranscript (Session.start.transcript calls)) :=
    agrees_start.after calls
  constructor
  · intro v name data read
    rw [read_eq_ok] at read
    exact (dataAt_of_content read).symm.trans (agrees.data _)
  · intro c quiet v there name data read
    rw [read_eq_ok] at read ⊢
    rw [root_perform there, store_perform agrees.wired]
    have accounts := agrees.accounts c
    rw [quiet] at accounts
    exact accounts.grows.content read

end Vfs.Memory
