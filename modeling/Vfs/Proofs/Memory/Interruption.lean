import Vfs.Filesystem.Delegate
import Vfs.Proofs.Memory.Copy

/-!
# A copy that is interrupted

`troubled` forwards to a filesystem, but raises an error where there is `Trouble`: where an entry is told, a directory
listed, a file opened or a chunk read, depending on the name and on all that is in the world. A copy from it to a new
filesystem that ends with an error leaves the entries that were reached before, complete, and at the last one nothing,
a directory, or the chunks that were read (`copy_interrupted`).
-/

namespace Vfs
set_option autoImplicit false
open Memory Vfs.Path Session

/-- An error of the host. -/
abbrev SystemError : Type := { e : Error // e.isSystem = true }

/-- Raises an error in place of an action where there is one to raise. -/
def Action.unless {α : Type} (trouble : World → Option SystemError) (action : Action α) : Action α := fun w =>
  match trouble w with
  | some fault => (.error fault, w)
  | none => action w

/-- The errors that are raised, by the name that is asked for and the world it is asked in. -/
structure Trouble where
  stat : Text → World → Option SystemError
  list : Text → World → Option SystemError
  openFile : Text → World → Option SystemError
  read : Text → Int → World → Option SystemError

/-- An error that is raised about a name in a world. -/
def Trouble.Raises (trouble : Trouble) (name : Text) (w : World) (fault : Error) : Prop :=
  ∃ e : SystemError, e.val = fault ∧ (trouble.stat name w = some e ∨ trouble.list name w = some e ∨
    trouble.openFile name w = some e ∨ ∃ size, trouble.read name size w = some e)

/-- A filesystem of functions that forward to another one, where there is no trouble. -/
def troubled (id : Nat) (trouble : Trouble) (source : Filesystem) : Filesystem :=
  .ofFunctions id
    { source.delegate with
      stat? := some fun name => (source.stat name).unless (trouble.stat name)
      list? := some fun dir => (source.list dir).unless (trouble.list dir)
      openFile? := some fun name => Action.unless (trouble.openFile name) do
        let f ← source.openFile name
        return .ofFunctions id
          { f.delegate with read? := some fun size => (f.read size).unless (trouble.read name size) } }

variable {α : Type} {raised : Error → Prop} {source : Filesystem} {trouble : Trouble} {view : View} {w w' : World}

theorem Trouble.Raises.system {name : Text} {fault : Error} (raises : trouble.Raises name w fault) :
    fault.isSystem = true := by
  obtain ⟨e, rfl, -⟩ := raises
  exact e.property

theorem tries_unless {troubles : World → Option SystemError} {action : Action α}
    (raises : ∀ e, troubles w = some e → raised e) : Tries raised (action.unless troubles) action w := by
  cases told : troubles w with
  | some e => exact .raises (by rw [Action.unless, told]) (raises e told) (.refl w)
  | none => exact .follows (by rw [Action.unless, told]; rfl) (.refl _)

/-- A filesystem with trouble tells what the view tells that it forwards to, but for the errors it raises. -/
theorem falters_troubled (id id' : Nat) (trouble : Trouble) (view : View) :
    Falters trouble.Raises (troubled id trouble (filesystem id' view)) view where
  stat := fun name w => tries_unless fun e told => ⟨e, rfl, .inl told⟩
  list := fun dir w => tries_unless fun e told => ⟨e, rfl, .inr (.inl told)⟩
  openFile := by
    intro name w
    have run : (troubled id trouble (filesystem id' view)).openFile name w =
        Action.unless (trouble.openFile name) (do
          let f ← (Memory.openFile view name : Action File)
          return .ofFunctions id
            { f.delegate with read? := some fun size => (f.read size).unless (trouble.read name size) }) w := rfl
    cases told : trouble.openFile name w with
    | some e =>
      refine .raises (by rw [run, Action.unless, told]) ⟨e, rfl, .inr (.inr (.inl told))⟩ (.refl w)
    | none =>
      have opened := openFile_eq view name w
      rw [Action.unless, told] at run
      dsimp only at run
      rw [Action.bind_eq] at run
      cases located : locate view.root (w.volume view.volume).store name with
      | error fault =>
        rw [located] at opened
        rw [opened] at run
        exact .refused (by rw [opened]) run (.refl w)
      | ok l =>
        rw [located] at opened
        rw [opened] at run
        refine .opened run (by rw [opened]; exact .refl _) ⟨fun size w => ?_, fun w => .refl _ _ w⟩
        exact tries_unless fun e told => ⟨e, rfl, .inr (.inr (.inr ⟨size, told⟩))⟩

namespace Memory

variable {faults : Text → World → Error → Prop} {home broke : World} {n m : Nat} {as ds rs bs : List Text}
  {front : List (List Text)} {fault : Error} {e e' : Entry} {src dest : View} {name stop : Text}

/-! ## Where a copy stops -/

/-- Where a copy stopped in the order of its rows: behind `front`, at `bs`. It has walked the rows up to that one, or
none, and has laid the rows before it, and maybe that one. -/
structure Cut (order : List (List Text)) (rs : List Text) (front : List (List Text)) (bs : List Text)
    (walked done : List (List Text)) : Prop where
  split : ∃ back, order = front ++ [bs] ++ back
  begun : ∃ rest, order = rs :: rest
  walked : walked = front ++ [bs] ∨ walked = [] ∧ front = [] ∧ bs = rs
  laid : done = front ∨ done = front ++ [bs]

namespace Cut

variable {order walked done : List (List Text)} {row : List Text} (cut : Cut order rs front bs walked done)
include cut

theorem inside (member : row ∈ front ++ [bs]) : row ∈ order := by
  obtain ⟨back, split⟩ := cut.split
  rw [split]
  exact List.mem_append_left _ member

theorem here : bs ∈ order := cut.inside (List.mem_append_right _ (List.mem_singleton_self bs))

theorem seen (member : row ∈ done) : row ∈ front ++ [bs] := by
  rcases cut.laid with rfl | rfl
  · exact List.mem_append_left _ member
  · exact member

theorem complete (before : row ∈ front) : row ∈ done := by
  rcases cut.laid with rfl | rfl
  · exact before
  · exact List.mem_append_left _ before

theorem first : front = [] ∧ bs = rs ∨ rs ∈ front := by
  obtain ⟨back, split⟩ := cut.split
  obtain ⟨rest, begun⟩ := cut.begun
  rw [begun] at split
  cases front with
  | nil => exact .inl ⟨rfl, (List.cons.inj split).1.symm⟩
  | cons row front => exact .inr (List.mem_cons.2 (.inl (List.cons.inj split).1))

theorem first_seen : rs ∈ front ++ [bs] := by
  rcases cut.first with ⟨-, rfl⟩ | before
  · exact List.mem_append_right _ (List.mem_singleton_self bs)
  · exact List.mem_append_left _ before

/-- If any row was laid, the first was. -/
theorem leads (hne : done ≠ []) : rs ∈ done := by
  rcases cut.laid with rfl | rfl
  · exact cut.first.resolve_left fun before => hne before.1
  · exact cut.first_seen

theorem prefix_order : walked <+: order := by
  obtain ⟨back, rfl⟩ := cut.split
  rcases cut.walked with rfl | ⟨rfl, -, -⟩
  · exact List.prefix_append _ back
  · exact List.nil_prefix

theorem dropLast : walked.dropLast = front := by
  rcases cut.walked with rfl | ⟨rfl, rfl, -⟩
  · exact List.dropLast_concat
  · rfl

theorem getLastD {α : Type} (f : List Text → α) : f bs = (walked.map f).getLastD (f rs) := by
  rcases cut.walked with rfl | ⟨rfl, -, rfl⟩
  · rw [List.map_append, List.map_singleton, List.getLastD_concat]
  · rfl

/-- A row that was not walked, and is not the last, comes later. -/
theorem later {α : Type} {f : List Text → α} (unseen : f row ∉ walked.map f) (other : f row ≠ f bs) :
    row ∉ front ++ [bs] := by
  intro before
  rcases cut.walked with rfl | ⟨-, rfl, -⟩
  · exact unseen (List.mem_map_of_mem before)
  · exact other (by rw [List.mem_singleton.1 before])

end Cut

/-- What is laid at the row that a copy stopped at: a directory, or a file with the chunks that were read of it before
the world `broke`, in which the error was raised. -/
inductive Partial (broke : World) (e : Entry) : Entry → Prop where
  | directory : e.directory = true → Partial broke e e
  | file (k : Nat) : e.directory = false → (reading broke).reader = some (e.data.drop (k * chunk)) →
      Partial broke e (e.holding (e.data.take (k * chunk)))

/-- A copy that nothing was in the way of stopped because its source raised an error. It has laid the rows before
the last one, and of the last nothing, or a part. -/
theorem Stops.partial (stops : Stops faults home n m as ds rs front bs fault w)
    (clear : Clear (foundIn home n as) (home.volume m).store ds rs) (found : foundIn home n as bs = some e) :
    ∃ broke e' done, faults (ofReduced false bs) broke fault ∧
      (done = front ∨ done = front ++ [bs] ∧ Partial broke e e') ∧
      Spread (Function.update (foundIn home n as) bs (some e')) (home.volume m).store ds rs done
        (w.volume m).store := by
  have same : Function.update (foundIn home n as) bs (some e) = foundIn home n as := by
    rw [← found, Function.update_eq_self]
  cases stops with
  | refused taken => exact absurd clear taken
  | @before broke own proceeds => exact ⟨broke, e, front, own, .inl rfl, by rw [same]; exact proceeds.spread⟩
  | @behind broke own directory proceeds =>
    obtain ⟨d, stored, kind⟩ := directory
    obtain rfl := Option.some.inj (found.symm.trans stored)
    exact ⟨broke, e, front ++ [bs], own, .inr ⟨rfl, .directory kind⟩, by rw [same]; exact proceeds.spread⟩
  | @within e₁ k broken found' file spread =>
    obtain rfl := Option.some.inj (found.symm.trans found')
    obtain ⟨broke, own, left⟩ := broken
    exact ⟨broke, _, front ++ [bs], own, .inr ⟨rfl, .file k file left⟩, spread⟩

/-- A copy that ended with an error stopped at a row. It walked the rows up to that one, or none. -/
theorem Task.stopped {source : Filesystem} (task : Task home n m as ds rs)
    (falters : Falters faults source ⟨n, ofReduced true as⟩) (id : Nat) {t : Trace} {fault : Error}
    (run : source.walkWith (Filesystem.copyEntry (filesystem id ⟨m, ofReduced true ds⟩) source) (ofReduced false rs)
      home = (t, w)) (failed : t.outcome = .error fault) :
    ∃ front bs back walked, walkOrder home n as rs = front ++ bs :: back ∧
      t.names = walked.map (ofReduced false) ∧ (walked = front ++ [bs] ∨ walked = [] ∧ front = [] ∧ bs = rs) ∧
      Stops faults home n m as ds rs front bs fault w := by
  have copied := task.copied falters id
  rw [run] at copied
  cases copied with
  | untold stops =>
    obtain rfl := Except.error.inj failed
    obtain ⟨back, order⟩ := walkOrder_cons home n as rs
    exact ⟨[], rs, back, [], order, rfl, .inr ⟨rfl, rfl, rfl⟩, stops⟩
  | went went =>
    cases went with
    | through ended _ _ =>
      rw [failed] at ended
      cases ended
    | @stopped _ _ fault' front back bs split names ended stops =>
      obtain rfl := Except.error.inj (failed.symm.trans ended)
      exact ⟨front, bs, back, front ++ [bs], split, names, .inl rfl, stops⟩

/-! ## What is left -/

/-- What is left of a copy of the tree at `name` of `src` to the new filesystem `dest` that stopped at the name
`stop`, where an error was raised in the world `broke`: `order` is the order of a walk, and `walked` has the names
that were reached. -/
structure CleanPrefix (src dest : View) (name : Text) (w w' : World) (order walked : List Text) (stop : Text)
    (broke : World) : Prop where
  last : stop = walked.getLastD name
  reached : walked <+: order
  whole : ∀ inner ∈ walked.dropLast, ∃ e o, src.stored? w inner = some e ∧ dest.stored? w' inner = some o ∧
    o.directory = e.directory ∧ o.data = e.data ∧ (inner ≠ here → Mode.permissionBits o.mode = e.copyBits)
  /-- Of a file there are the chunks that were read, and all others were still to be read. -/
  part : ∀ o, dest.stored? w' stop = some o → ∃ e, src.stored? w stop = some e ∧ o.directory = e.directory ∧
    (o.directory = false → ∃ k, o.data = e.data.take (k * chunk) ∧
      (reading broke).reader = some (e.data.drop (k * chunk)))
  only : ∀ inner o, dest.stored? w' inner = some o → inner = here ∨ inner ∈ walked.dropLast ∨ inner = stop ∨
    AtOrBelow inner name ∧ inner ≠ name ∧ o.directory = true
  later : ∀ inner ∈ order, inner ∉ walked → inner ≠ stop → dest.stored? w' inner = none
  root : ∃ d, dest.stored? w' here = some d ∧ d.directory = true
  above : ∀ inner o up, dest.stored? w' inner = some o → AtOrBelow up inner → up ≠ inner →
    ∃ d, dest.stored? w' up = some d ∧ d.directory = true

section
variable {walked done : List (List Text)} {row : List Text} {o : Entry} {t : Store Entry}
  (cut : Cut (walkOrder home n as rs) rs front bs walked done)
  (spread : Spread (Function.update (foundIn home n as) bs (some e')) (Volume.fresh [.char '/']).store [] rs done t)
include cut spread

/-- What was reached before is complete. -/
theorem laid_whole (once : bs ∉ front) (before : row ∈ front) :
    ∃ e o, foundIn home n as row = some e ∧ t.get? (ofReduced true row) = some o ∧ o.directory = e.directory ∧
      o.data = e.data ∧ (row ≠ [] → Mode.permissionBits o.mode = e.copyBits) := by
  obtain ⟨e, o, found, same⟩ := laid_fresh spread (cut.complete before)
  have other : row ≠ bs := by
    rintro rfl
    exact once before
  rw [Function.update_of_ne other] at found
  exact ⟨e, o, found, same⟩

/-- What stands where the copy stopped is a part of what was to go there. -/
theorem laid_part (task : Task home n m as [] rs) (found : foundIn home n as bs = some e)
    (partly : bs ∈ done → Partial broke e e') (stored : t.get? (ofReduced true bs) = some o) :
    o.directory = e.directory ∧ (o.directory = false → ∃ k, o.data = e.data.take (k * chunk) ∧
      (reading broke).reader = some (e.data.drop (k * chunk))) := by
  obtain ⟨-, names, behind⟩ := task.row cut.here
  rcases (stored_fresh spread cut.leads names).1 (by rw [stored, Option.isSome_some]) with
    rfl | member | ⟨-, up, proper⟩
  · -- The root is a directory on both sides.
    obtain ⟨d, root, directory⟩ := task.source.root
    obtain ⟨d', root', directory'⟩ := spread.made.isDirectory firm_fresh.root
    obtain rfl := Option.some.inj (stored.symm.trans root')
    rw [foundIn, List.append_nil, root] at found
    obtain rfl := Option.some.inj found
    exact ⟨directory'.trans directory.symm, fun file => absurd (file.symm.trans directory') Bool.false_ne_true⟩
  · obtain ⟨e₁, o', found', stored', kind, data, -⟩ := laid_fresh spread member
    rw [Function.update_self] at found'
    obtain rfl := Option.some.inj found'
    obtain rfl := Option.some.inj (stored.symm.trans stored')
    cases partly member with
    | directory directory =>
      exact ⟨kind, fun file => absurd (file.symm.trans (kind.trans directory)) Bool.false_ne_true⟩
    | file k file left => exact ⟨kind, fun _ => ⟨k, data, left⟩⟩
  · exact absurd (up.eq_of_length_le behind.length_le) proper

/-- Nothing stands anywhere else, but the root and the directories above the first row. -/
theorem laid_only (names : Names row) (stored : t.get? (ofReduced true row) = some o) :
    row = [] ∨ row ∈ front ∨ row = bs ∨ row <+: rs ∧ row ≠ rs ∧ o.directory = true := by
  rcases (stored_fresh spread cut.leads names).1 (by rw [stored, Option.isSome_some]) with
    top | member | ⟨hne, up, proper⟩
  · exact .inl top
  · rcases List.mem_append.1 (cut.seen member) with before | last
    · exact .inr (.inl before)
    · exact .inr (.inr (.inl (List.mem_singleton.1 last)))
  · obtain ⟨d, stored', directory⟩ := above_fresh spread (cut.leads hne) up proper
    obtain rfl := Option.some.inj (stored.symm.trans stored')
    exact .inr (.inr (.inr ⟨up, proper, directory⟩))

/-- What comes later in the order is not there. -/
theorem unlaid_later (task : Task home n m as [] rs) (ordered : row ∈ walkOrder home n as rs)
    (late : row ∉ front ++ [bs]) : t.get? (ofReduced true row) = none := by
  obtain ⟨-, names, down⟩ := task.row ordered
  by_contra present
  obtain ⟨o, stored⟩ := Option.ne_none_iff_exists'.1 present
  rcases laid_only cut spread names stored with rfl | before | rfl | ⟨up, proper, -⟩
  · obtain rfl := List.prefix_nil.1 down
    exact late cut.first_seen
  · exact late (List.mem_append_left _ before)
  · exact late (List.mem_append_right _ (List.mem_singleton_self row))
  · exact proper (up.eq_of_length_le down.length_le)

end

/-- What is left where a copy to a new filesystem stopped, by names. -/
theorem cleanPrefix (task : Task home n m as [] rs) (fresh : home.volume m = .fresh [.char '/'])
    {walked done : List (List Text)} (cut : Cut (walkOrder home n as rs) rs front bs walked done) (once : bs ∉ front)
    (found : foundIn home n as bs = some e) (partly : bs ∈ done → Partial broke e e')
    (spread : Spread (Function.update (foundIn home n as) bs (some e')) (home.volume m).store [] rs done
      (w.volume m).store) :
    CleanPrefix ⟨n, ofReduced true as⟩ ⟨m, [.char '/']⟩ (ofReduced false rs) home w
      ((walkOrder home n as rs).map (ofReduced false)) (walked.map (ofReduced false)) (ofReduced false bs) broke := by
  rw [fresh] at spread
  have ahead : (walked.map (ofReduced false)).dropLast = front.map (ofReduced false) := by
    rw [← List.map_dropLast, cut.dropLast]
  have named := (task.row cut.here).2.1
  refine ⟨cut.getLastD _, cut.prefix_order.map _, ?whole, ?part, ?only, ?later, ?root, ?above⟩
  case whole =>
    intro inner member
    rw [ahead] at member
    obtain ⟨row, before, rfl⟩ := List.mem_map.1 member
    have names := (task.row (cut.inside (List.mem_append_left _ before))).2.1
    obtain ⟨e₁, o, found', stored, kind, data, bits⟩ := laid_whole cut spread once before
    exact ⟨e₁, o, (task.told names).trans found', (stored?_fresh names).trans stored, kind, data,
      fun proper => bits fun top => proper (by rw [top]; rfl)⟩
  case part =>
    intro o stored
    rw [stored?_fresh named] at stored
    exact ⟨e, (task.told named).trans found, laid_part cut spread task found partly stored⟩
  case only =>
    intro inner o stored
    obtain ⟨row, names, rfl⟩ := isValid_iff_names.1 (isValid_of_stored stored)
    rw [stored?_fresh names] at stored
    rcases laid_only cut spread names stored with rfl | before | rfl | ⟨up, proper, directory⟩
    · exact .inl rfl
    · exact .inr (.inl (ahead ▸ List.mem_map_of_mem before))
    · exact .inr (.inr (.inl rfl))
    · exact .inr (.inr (.inr ⟨(atOrBelow_iff names task.named).2 up,
        fun same => proper (ofReduced_inj names task.named same), directory⟩))
  case later =>
    intro inner member unseen other
    obtain ⟨row, ordered, rfl⟩ := List.mem_map.1 member
    rw [stored?_fresh (task.row ordered).2.1]
    exact unlaid_later cut spread task ordered (cut.later unseen other)
  case root =>
    rw [← ofReduced_nil, stored?_fresh names_nil]
    exact spread.made.isDirectory firm_fresh.root
  case above =>
    intro inner o up stored ahead proper
    obtain ⟨row, names, rfl⟩ := isValid_iff_names.1 (isValid_of_stored stored)
    obtain ⟨row', names', rfl⟩ := isValid_iff_names.1 ahead.1
    rw [stored?_fresh names] at stored
    rw [stored?_fresh names']
    exact (linked_fresh spread).ahead names (by rw [stored, Option.isSome_some])
      ((atOrBelow_iff names' names).1 ahead) fun same => proper (by rw [same])

/-! ## The report -/

/-- How a copy to a new filesystem ended that an error interrupted, and what it left: `walked` are the names that were
reached, one line of the log for each, and `stop` is the last of them, which the error was raised about in the world
`broke`. -/
structure Interrupted (src dest : View) (name : Text) (raises : Text → World → Error → Prop) (home : World)
    (order : List Text) (ended : CopyReport × World) (fault : Error) (walked : List Text) (stop : Text)
    (broke : World) : Prop where
  left : CleanPrefix src dest name home ended.2 order walked stop broke
  own : raises stop broke fault
  told : ∃ lines, List.Forall₂ Logged lines walked ∧ ended.1.log =
    lines ++ [(.warning, "copy_fs aborted at ".text ++ stop ++ ": ".text ++ fault.message)]

/-- **A copy to a new filesystem that is interrupted leaves a clean prefix** of what a walk would have reached. -/
theorem copy_interrupted {home : World} {dest : Filesystem} (rooted : Rooted w src)
    (there : (src.stored? w name).isSome = true) (opened : newFilesystem [.char '/'] w = (.ok dest, home))
    (id id' : Nat)
    (trouble : Trouble)
    (failed : (dest.copy (troubled id trouble (filesystem id' src)) name home).1.outcome = .error fault) :
    ∃ walked stop broke, Interrupted src ⟨w.volumes.size, [.char '/']⟩ name trouble.Raises home
      ((filesystem id' src).walk name home).1.names (dest.copy (troubled id trouble (filesystem id' src)) name home)
      fault walked stop broke := by
  have made : filesystem w.serial ⟨w.volumes.size, ofReduced true []⟩ = dest :=
    Except.ok.inj (congrArg Prod.fst opened)
  obtain ⟨as, rs, root, rfl, -, fresh, task⟩ := task_fresh rooted there (congrArg Prod.snd opened)
  obtain ⟨n, _⟩ := src
  obtain rfl := root
  obtain rfl := made
  have falters := falters_troubled id id' trouble ⟨n, ofReduced true as⟩
  rw [copy_run] at failed ⊢
  generalize run : (troubled id trouble (filesystem id' ⟨n, ofReduced true as⟩)).walkWith _ (ofReduced false rs)
    home = x at failed ⊢
  obtain ⟨t, w'⟩ := x
  obtain ⟨front, bs, back, walked, order, names, reached, stops⟩ := task.stopped falters w.serial run failed
  obtain ⟨e, found⟩ := task.found order
  have clear : Clear (foundIn home n as) (home.volume w.volumes.size).store [] rs := by
    rw [fresh]
    exact clear_fresh task.source task.named
  obtain ⟨broke, e', done, own, laid, spread⟩ := stops.partial clear found
  have cut : Cut (walkOrder home n as rs) rs front bs walked done :=
    ⟨⟨back, by rw [order, List.append_cons]⟩, walkOrder_cons home n as rs, reached, laid.imp_right And.left⟩
  obtain ⟨e₀, stored⟩ := Option.isSome_iff_exists.1 task.stored
  obtain ⟨-, quiet⟩ := walk_order (shows_filesystem id' home ⟨n, ofReduced true as⟩)
    ⟨task.source.sound, task.source.labelled.under _, task.names, stored⟩
  obtain ⟨lines, log, each⟩ := copyLog_error failed (Trouble.Raises.system own) (ofReduced false rs)
  rw [names] at log each
  rw [← cut.getLastD] at log
  refine ⟨walked.map (ofReduced false), ofReduced false bs, broke, ?_, own, lines, each, log⟩
  rw [quiet]
  have once := (task.next order).fresh
  have partly : bs ∈ done → Partial broke e e' := fun member =>
    (laid.resolve_left fun unlaid => once (unlaid ▸ member)).2
  exact cleanPrefix task fresh cut once found partly spread

/-- A file that cannot be read to its end. -/
def unreadable (name : Text) : Trouble where
  stat := fun _ _ => none
  list := fun _ _ => none
  openFile := fun _ _ => none
  read := fun name' _ w =>
    if name' = name ∧ (reading w).reader = some [] then
      some ⟨(Fault.host 5 "Input/output error".text).error, rfl⟩
    else none

theorem copy_interrupted_unreadable :
    ∃ dest home fault, Rooted (start.after writtenCalls).world ⟨0, [.char '/']⟩ ∧
      newFilesystem [.char '/'] (start.after writtenCalls).world = (.ok dest, home) ∧
      (dest.copy (troubled 0 (unreadable "a/f".text) (filesystem 1 ⟨0, [.char '/']⟩)) here home).1.outcome =
        .error fault ∧
      ∃ walked stop broke, Interrupted ⟨0, [.char '/']⟩ ⟨1, [.char '/']⟩ here (unreadable "a/f".text).Raises home
        ((filesystem 1 ⟨0, [.char '/']⟩).walk here home).1.names
        (dest.copy (troubled 0 (unreadable "a/f".text) (filesystem 1 ⟨0, [.char '/']⟩)) here home) fault walked stop
          broke := by
  have rooted : Rooted (start.after writtenCalls).world ⟨0, [.char '/']⟩ :=
    rooted_top reached_written rfl (by decide +kernel)
  have there : (View.stored? ⟨0, [.char '/']⟩ (start.after writtenCalls).world here).isSome = true := by decide +kernel
  have failed : ((filesystem (start.after writtenCalls).world.serial ⟨1, [.char '/']⟩).copy
      (troubled 0 (unreadable "a/f".text) (filesystem 1 ⟨0, [.char '/']⟩)) here
      (newFilesystem [.char '/'] (start.after writtenCalls).world).2).1.outcome =
        .error (Fault.host 5 "Input/output error".text).error := by decide +kernel
  exact ⟨_, _, _, rooted, rfl, failed, copy_interrupted rooted there rfl 0 1 (unreadable "a/f".text) failed⟩

end Memory

end Vfs
