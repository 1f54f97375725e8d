import Vfs.Proofs.Filesystem.Asking
import Vfs.Proofs.Filesystem.Backends
import Vfs.Proofs.Filesystem.Paging
import Vfs.Proofs.Filesystem.Undisturbed

/-!
# Handles list page by page

A handle in memory and one on the host keep listing and cursor each in its own way, and both page through one
listing (`Pager`): the one that the directory had when the handle could first list it. Whatever is made and taken
out meanwhile, nothing is lost and nothing comes twice (`pages_once`).
-/

namespace Vfs
set_option autoImplicit false
open Vfs.Path

/-! ## What is said about a handle -/

/-- A call for a page, or a change in between. -/
inductive Turn where
  | page (n : Int)
  | change (b : Backend) (c : Host.Change) (name : Text)

/-- The calls for pages of a file among some turns, with what `listing` answers at the time of each. -/
def pageCalls (f : File) (listing : Action (List Info)) : World → List Turn → List PageCall
  | _, [] => []
  | w, .page n :: turns => ⟨n, (listing w).1, (f.list n w).1⟩ :: pageCalls f listing (f.list n w).2 turns
  | w, .change b c name :: turns => pageCalls f listing (b.ask c name w).2 turns

/-- A file is listed page by page, where `stands` says how far it is in a world. -/
structure Pager (f : File) (listing : Action (List Info)) (stands : World → Progress → Prop) : Prop where
  page : ∀ w p n, stands w p → ∃ p', stands (f.list n w).2 p' ∧ Step p ⟨n, (listing w).1, (f.list n w).1⟩ p'
  change : ∀ w w' p, stands w p → Undisturbed w w' → stands w' p

/-- Every call is a step, whatever changes in between. -/
theorem Pager.steps {f : File} {listing : Action (List Info)} {stands : World → Progress → Prop} {w : World}
    {p : Progress} {turns : List Turn} (pager : Pager f listing stands)
    (gentle : ∀ b c name, .change b c name ∈ turns → b.Gentle) (there : stands w p) :
    ∃ p', Steps p (pageCalls f listing w turns) p' := by
  induction turns generalizing w p with
  | nil => exact ⟨p, .nil p⟩
  | cons turn turns ih =>
    have later : ∀ b c name, .change b c name ∈ turns → b.Gentle := fun b c name member =>
      gentle b c name (List.mem_cons_of_mem _ member)
    cases turn with
    | page n =>
      obtain ⟨p₁, next, step⟩ := pager.page w p n there
      obtain ⟨p', steps⟩ := ih later next
      exact ⟨p', .cons step steps⟩
    | change b c name =>
      have undisturbed := Backend.undisturbed (gentle b c name (List.mem_cons_self ..)) c name w
      exact ih later (pager.change w _ p there undisturbed)

/-! ## A handle in memory -/

namespace Memory

/-- How far a handle is in its listing. -/
def Handle.progress (h : Handle) : Progress := if h.listed then some (h.listing, h.cursor) else none

namespace Handle

variable {h : Handle}

theorem list_listed (listed : h.listed = true) (n : Int) (current : Except Error (List Info)) :
    h.list n current = ((takePage h.listing h.cursor n).1, { h with cursor := (takePage h.listing h.cursor n).2 }) := by
  rw [Handle.list, if_pos listed, takePage]
  cases page : nextPage h.listing h.cursor n with
  | error fault => simp [page]
  | ok shown => simp [page]

theorem list_fetched (fresh : h.listed = false) (n : Int) (entries : List Info) :
    h.list n (.ok entries) = ((takePage entries h.cursor n).1,
      { h with listed := true, listing := entries, cursor := (takePage entries h.cursor n).2 }) := by
  rw [Handle.list, if_neg (by simp [fresh]), takePage]
  cases page : nextPage entries h.cursor n with
  | error fault => simp [page, Except.map]
  | ok shown => simp [page, Except.map]

theorem list_refused (fresh : h.listed = false) (n : Int) (e : Error) : h.list n (.error e) = (.error e, h) := by
  rw [Handle.list, if_neg (by simp [fresh])]
  rfl

end Handle

variable {w : World} {view : View} {name : Text}

/-- Asking for a listing fails as an operation on a path. -/
theorem isPath_listing {e : Error} (failed : listing view name w = .error e) : e.isPath = true := by
  have refused : list view.root (w.volume view.volume).store name = .error e := by
    rw [listing] at failed
    cases told : list view.root (w.volume view.volume).store name with
    | error e' =>
      rw [told] at failed
      cases failed
      rfl
    | ok ls =>
      rw [told] at failed
      cases failed
  unfold list locate at refused
  split at refused
  · next e' missing =>
    cases refused
    split at missing
    · split at missing
      · cases missing
        rfl
      · cases missing
    · cases missing
      rfl
  · split at refused
    · cases refused
    · cases refused
      rfl

/-- How far a handle on a name of a view is. Before it has a listing its cursor is at the beginning. -/
structure Stands (i : Nat) (view : View) (name : Text) (w : World) (p : Progress) : Prop where
  there : i < w.memoryHandles.size
  view : (handle w i).view = view
  name : (handle w i).name = name
  progress : (handle w i).progress = p
  fresh : p = none → (handle w i).cursor = 0

/-- The handle in another state. -/
theorem Stands.turn {i : Nat} {p : Progress} (stands : Stands i view name w p) {h : Handle}
    (sameView : h.view = (handle w i).view) (sameName : h.name = (handle w i).name)
    (fresh : h.progress = none → h.cursor = 0) : Stands i view name (setHandle w i h) h.progress := by
  have own := handle_setHandle stands.there h
  refine ⟨?_, ?_, ?_, by rw [own], ?_⟩
  · simpa [setHandle] using stands.there
  · rw [own, sameView, stands.view]
  · rw [own, sameName, stands.name]
  · rwa [own]

theorem pager_file (id i : Nat) (h : Handle) (view : View) (name : Text) :
    Pager (file id i h) (fun w => (listing view name w, w)) (Stands i view name) where
  page := by
    intro w p n stands
    have ran : (file id i h).list n w = (((handle w i).list n (listing view name w)).1,
        setHandle w i ((handle w i).list n (listing view name w)).2) := by
      rw [← stands.view, ← stands.name]
      rfl
    have progress := stands.progress
    rw [ran]
    cases listed : (handle w i).listed with
    | true =>
      rw [Handle.progress, if_pos listed] at progress
      rw [Handle.list_listed listed, ← progress]
      let turned : Handle := { handle w i with cursor := (takePage (handle w i).listing (handle w i).cursor n).2 }
      have next : turned.progress = some (turned.listing, turned.cursor) := if_pos listed
      exact ⟨_, next ▸ stands.turn rfl rfl fun start => (by rw [next] at start; cases start), .again rfl⟩
    | false =>
      rw [Handle.progress, if_neg (by simp [listed])] at progress
      subst progress
      have start := stands.fresh rfl
      cases current : listing view name w with
      | error e =>
        rw [Handle.list_refused listed]
        have same := stands.turn (h := handle w i) rfl rfl fun _ => start
        rw [stands.progress] at same
        exact ⟨none, same, .refused (isPath_listing current) rfl rfl⟩
      | ok entries =>
        rw [Handle.list_fetched listed, start]
        let turned : Handle :=
          { handle w i with listed := true, listing := entries, cursor := (takePage entries 0 n).2 }
        have next : turned.progress = some (turned.listing, turned.cursor) := rfl
        exact ⟨_, next ▸ stands.turn rfl rfl fun start => (by cases start), .fetched rfl rfl⟩
  change := by
    intro w w' p stands undisturbed
    obtain ⟨there, same⟩ := undisturbed.memory_handle stands.there
    exact ⟨there, by rw [same, stands.view], by rw [same, stands.name], by rw [same, stands.progress],
      fun start => by rw [same, stands.fresh start]⟩

/-- A handle that is opened stands at the beginning. -/
theorem stands_openFile {f : File} {w' : World} (opened : openFile view name w = (.ok f, w')) :
    ∃ id i h, f = file id i h ∧ Stands i view name w' none := by
  rw [openFile_eq] at opened
  cases found : locate view.root (w.volume view.volume).store name with
  | error e =>
    rw [found] at opened
    cases opened
  | ok located =>
    rw [found] at opened
    obtain ⟨sameView, sameName, -, fresh, start⟩ := handleOn_fresh view name located.2
    have made : newFile (handleOn view name located.2) w = (.ok f, w') := opened
    have own := handle_newFile (handleOn view name located.2) w
    cases made
    refine ⟨w.serial, w.memoryHandles.size, _, rfl, by simp, ?_, ?_, ?_, fun _ => ?_⟩
    · exact (congrArg Handle.view own).trans sameView
    · exact (congrArg Handle.name own).trans sameName
    · exact (congrArg Handle.progress own).trans (if_neg (by simp [fresh]))
    · exact (congrArg Handle.cursor own).trans start

end Memory

/-! ## A handle on a host -/

namespace Host

/-- How far a handle is in its listing. -/
def Handle.progress (h : Handle) : Progress := h.listing.map fun entries => (entries, h.cursor)

theorem Handle.page_eq (h : Handle) (n : Int) (entries : List Info) :
    h.page n entries = ((takePage entries h.cursor n).1,
      { h with listing := some entries, cursor := (takePage entries h.cursor n).2 }) := by
  rw [Handle.page, takePage]
  cases page : nextPage entries h.cursor n with
  | error fault => rfl
  | ok shown => rfl

variable {w : World} {dir name path : Text} {i : Nat}

theorem page_listed {entries : List Info} (listed : (handle w i).listing = some entries) (n : Int) :
    page dir name i n w = (((handle w i).page n entries).1, setHandle w i ((handle w i).page n entries).2) := by
  have looked : (get : Action World) w = (.ok w, w) := rfl
  rw [page, Action.bind_eq, looked]
  dsimp only
  rw [listed]
  rfl

theorem page_fresh (fresh : (handle w i).listing = none) (n : Int) :
    page dir name i n w = match list dir name w with
      | (.error e, w) => (.error e, w)
      | (.ok entries, w) => (((handle w i).page n entries).1, setHandle w i ((handle w i).page n entries).2) := by
  have looked : (get : Action World) w = (.ok w, w) := rfl
  rw [page, Action.bind_eq, looked]
  dsimp only
  rw [fresh]
  dsimp only
  rw [Action.bind_eq]
  rcases list dir name w with ⟨r, w'⟩
  cases r with
  | error e => rfl
  | ok entries => rfl

/-- How far a handle is, on a host that can be. Before it has a listing its cursor is at the beginning. -/
structure Stands (i : Nat) (w : World) (p : Progress) : Prop where
  there : i < w.hostHandles.size
  natural : w.tree.Natural
  progress : (handle w i).progress = p
  fresh : p = none → (handle w i).cursor = 0

/-- The handle in another state. -/
theorem Stands.turn {p : Progress} (stands : Stands i w p) {h : Handle} (fresh : h.progress = none → h.cursor = 0) :
    Stands i (setHandle w i h) h.progress := by
  have own : handle (setHandle w i h) i = h := by simp [handle, setHandle, stands.there]
  refine ⟨?_, stands.natural, by rw [own], ?_⟩
  · simpa [setHandle] using stands.there
  · rwa [own]

theorem pager_file {operation : Text} (told : hostPath dir operation name = .ok path) (plain : Plain path)
    (stream : Option ByteStream) (id i : Nat) :
    Pager (file dir name stream id i) (list dir name) (Stands i) where
  page := by
    intro w p n stands
    have ran : (file dir name stream id i).list n w = page dir name i n w := rfl
    have progress := stands.progress
    rw [ran]
    cases listed : (handle w i).listing with
    | some entries =>
      rw [Handle.progress, listed] at progress
      rw [page_listed listed, Handle.page_eq, ← progress]
      exact ⟨_, stands.turn fun start => (by cases start), .again rfl⟩
    | none =>
      rw [Handle.progress, listed] at progress
      obtain rfl : none = p := progress
      have start := stands.fresh rfl
      obtain ⟨r, k, answered, path⟩ := list_cases stands.natural told plain
      rw [page_fresh listed, answered]
      have same : handle { w with serial := k } i = handle w i := rfl
      have stands' : Stands i { w with serial := k } none :=
        ⟨stands.there, stands.natural, stands.progress, stands.fresh⟩
      cases r with
      | error e => exact ⟨none, stands', .refused (path e rfl) rfl rfl⟩
      | ok entries =>
        dsimp only
        rw [Handle.page_eq, same, start]
        exact ⟨_, stands'.turn fun start => (by cases start), .fetched rfl rfl⟩
  change := by
    intro w w' p stands undisturbed
    obtain ⟨there, same⟩ := undisturbed.host_handle stands.there
    exact ⟨there, undisturbed.natural stands.natural, by rw [same, stands.progress],
      fun start => by rw [same, stands.fresh start]⟩

/-- What is opened under a path is found there. -/
theorem find_of_opened {f : File} {w' : World} (opened : (do
      if (← get).tree.holdsDirectory (.ofPath path) then newFile dir name none
      else newFile dir name (some (← openStream path)) : Action File) w = (.ok f, w')) :
    ∃ found stream, w.tree.find (.ofPath path) = .ok found ∧
      f = file dir name stream w.serial w.hostHandles.size ∧ w'.tree = w.tree ∧
      w'.hostHandles = w.hostHandles.push {} := by
  have looked : (get : Action World) w = (.ok w, w) := rfl
  rw [Action.bind_eq, looked] at opened
  dsimp only at opened
  split at opened
  · next directory =>
    cases opened
    cases found : w.tree.find (.ofPath path) with
    | error fault =>
      rw [Tree.holdsDirectory, found] at directory
      cases directory
    | ok there => exact ⟨there, none, rfl, rfl, rfl, rfl⟩
  · rw [Action.bind_eq, openStream, Action.bind_eq] at opened
    cases numbered : w.tree.fileNumber (.ofPath path) with
    | error fault =>
      rw [ask_fault numbered] at opened
      cases opened
    | ok n =>
      rw [ask_ok numbered] at opened
      cases opened
      cases found : w.tree.find (.ofPath path) with
      | error fault =>
        rw [Tree.fileNumber, found] at numbered
        cases numbered
      | ok there => exact ⟨there, _, rfl, rfl, rfl, rfl⟩

/-- A handle that is opened stands at the beginning, under a path that the host can be told. -/
theorem stands_openFile {f : File} {w' : World} (natural : w.tree.Natural)
    (opened : openFile dir name w = (.ok f, w')) :
    ∃ path stream id i, hostPath dir "Open".text name = .ok path ∧ Plain path ∧
      f = file dir name stream id i ∧ Stands i w' none := by
  rw [openFile, within, Action.bind_eq, Action.ofExcept] at opened
  cases told : hostPath dir "Open".text name with
  | error e =>
    rw [told] at opened
    cases opened
  | ok path =>
    rw [told] at opened
    obtain ⟨found, stream, there, rfl, tree, handles⟩ := find_of_opened (Action.retell_eq_ok.1 opened)
    have plain := Tree.plain_of_find there
    rw [Route.path_ofPath] at plain
    have own : handle w' w.hostHandles.size = {} := by simp [handle, handles]
    refine ⟨path, stream, _, _, rfl, plain, rfl, ?_, tree ▸ natural, ?_, fun _ => ?_⟩
    · simp [handles]
    · rw [own]
      rfl
    · rw [own]

/-- A host with one directory in another can be. -/
theorem natural_scratch : scratch.Natural := by
  have empty : ({} : Tree).Natural :=
    ⟨fun n member => absurd member List.not_mem_nil, fun n member => absurd member List.not_mem_nil⟩
  have small : ∀ word, Node.directory standardDirectory = .directory word → word < 0x100000000 := by
    intro word same
    obtain rfl := Node.directory.inj same
    decide
  exact (empty.put (by decide) small).put (by decide) small

end Host

/-- **A handle pages through one listing**, the one that its directory had when it could first list it, in memory and
on the host, whatever is made and taken out in between: every entry comes once, in order, and a page is as long as was
asked for or as what is left. -/
theorem pages_once {b : Backend} {id : Nat} {name : Text} {f : File} {w w' : World} {turns : List Turn}
    (opened : (b.filesystem id).openFile name w = (.ok f, w')) (natural : ∀ m, b = .host m → w.tree.Natural)
    (gentle : ∀ b' c name', .change b' c name' ∈ turns → b'.Gentle) :
    Paged (pageCalls f ((b.filesystem id).list name) w' turns) := by
  cases b with
  | memory view =>
    obtain ⟨k, i, h, rfl, stands⟩ := Memory.stands_openFile opened
    obtain ⟨p, steps⟩ := (Memory.pager_file k i h view name).steps gentle stands
    exact steps.paged
  | host m =>
    obtain ⟨path, stream, k, i, told, plain, rfl, stands⟩ := Host.stands_openFile (natural m rfl) opened
    obtain ⟨p, steps⟩ := (Host.pager_file told plain stream k i).steps gentle stands
    exact steps.paged

/-- A directory of a host that has another one in it. -/
def outer : Backend := .host ⟨"/t".text, .standard, 0⟩

/-- The directory is listed one entry at a time, while a file is made in it and the other directory taken out. -/
def outerTurns : List Turn :=
  [.page 1, .change outer (.write [1] 0o644) "a".text, .page 1, .change outer .removeAll "x".text, .page 0]

theorem pages_once_outer : ∃ f w', (outer.filesystem 0).openFile here { tree := Host.scratch } = (.ok f, w') ∧
    Host.scratch.Natural ∧ (∀ b c name, .change b c name ∈ outerTurns → b.Gentle) ∧
    Paged (pageCalls f ((outer.filesystem 0).list here) w' outerTurns) := by
  have natural := Host.natural_scratch
  have gentle : ∀ b c name, .change b c name ∈ outerTurns → b.Gentle := by
    intro b c name member
    simp only [outerTurns, List.mem_cons, List.not_mem_nil, or_false, Turn.change.injEq, reduceCtorEq, false_or]
      at member
    rcases member with ⟨rfl, -, -⟩ | ⟨rfl, -, -⟩
    · exact Host.gentle_standard
    · exact Host.gentle_standard
  have opened : ((outer.filesystem 0).openFile here { tree := Host.scratch }).1.isOk = true := by decide +kernel
  cases ran : (outer.filesystem 0).openFile here { tree := Host.scratch } with
  | mk r w' =>
    rw [ran] at opened
    cases r with
    | error e => cases opened
    | ok f => exact ⟨f, w', rfl, natural, gentle, pages_once ran (fun _ _ => natural) gentle⟩

end Vfs
