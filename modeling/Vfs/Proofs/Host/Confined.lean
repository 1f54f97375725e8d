import Vfs.Host.Filesystem
import Vfs.Proofs.Action
import Vfs.Proofs.Path.Steps

/-!
# What a mounted directory hands to its host

Every change of a host goes through the operations that a directory is mounted with, so what is asked of a host
is what these operations are called with. `Operations.watched` writes the calls down before it makes them,
whatever comes of them, and `Reports` says what an action may write. A name that is not valid gets nowhere, and
the paths made from valid names lead to the mounted directory or below it (`confined`). There is one call that
does not: a file made under the directory's own name has the directory above it made.
-/

namespace Vfs.Host
set_option autoImplicit false
open Vfs.Path

variable {α β : Type} {i : Nat} {allowed allowed' : Call → Prop} {good : α → Prop} {good' : β → Prop}

/-! ## Writing calls down -/

/-- An action that leaves a record. -/
def Silent (i : Nat) (action : Action α) : Prop := ∀ w, (action w).2.records[i]? = w.records[i]?

namespace Silent

variable {action : Action α} {next : α → Action β} {last : Action Unit}

theorem bind (first : Silent i action) (later : ∀ a, Silent i (next a)) : Silent i (action >>= next) := by
  intro w
  have left := first w
  rw [Action.bind_eq]
  generalize action w = x at left
  obtain ⟨r, w'⟩ := x
  cases r with
  | ok a => exact (later a w').trans left
  | error e => exact left

theorem ensuring (body : Silent i action) (after : Silent i last) : Silent i (action.ensuring last) := by
  intro w
  rw [Action.ensuring_eq]
  exact (after _).trans (body w)

end Silent

/-- A stream that leaves a record while it is written and closed. -/
structure ByteStream.Silent (i : Nat) (stream : ByteStream) : Prop where
  write : ∀ data, Host.Silent i (stream.write data)
  close : Host.Silent i stream.close

theorem ByteStream.Silent.closeHandle {stream : ByteStream} (quiet : stream.Silent i) (n : Nat) :
    Host.Silent i (Host.closeHandle n (some stream)) := by
  unfold Host.closeHandle
  apply Host.Silent.bind
  · intro w
    rfl
  · intro _
    apply quiet.close.bind
    intro _ w
    rfl

/-- Operations that leave a record themselves. -/
structure Operations.Silent (i : Nat) (ops : Operations) : Prop where
  create : ∀ path, Host.Silent i (ops.create path)
  stream : ∀ path w stream, (ops.create path w).1 = .ok stream → stream.Silent i
  mkdirAll : ∀ path mode, Host.Silent i (ops.mkdirAll path mode)
  remove : ∀ path, Host.Silent i (ops.remove path)
  removeAll : ∀ path, Host.Silent i (ops.removeAll path)

/-- Operations that write each call down before they make it. -/
def Operations.watched (ops : Operations) (i : Nat) : Operations where
  create path := do record i ⟨.create, path, none⟩; ops.create path
  mkdirAll path mode := do record i ⟨.mkdirAll, path, some mode⟩; ops.mkdirAll path mode
  remove path := do record i ⟨.remove, path, none⟩; ops.remove path
  removeAll path := do record i ⟨.removeAll, path, none⟩; ops.removeAll path

/-- An action that writes only calls of a kind in a record, and what it answers is good. -/
def Reports (i : Nat) (allowed : Call → Prop) (action : Action α) (good : α → Prop) : Prop :=
  ∀ w, (∃ calls, (action w).2.records[i]? = w.records[i]?.map (· ++ calls) ∧ ∀ c ∈ calls, allowed c) ∧
    ∀ a, (action w).1 = .ok a → good a

namespace Reports

variable {action : Action α} {next : α → Action β}

theorem ofSilent (silent : Silent i action) (answers : ∀ w a, (action w).1 = .ok a → good a) :
    Reports i allowed action good := by
  intro w
  refine ⟨⟨[], ?_, fun c member => absurd member List.not_mem_nil⟩, answers w⟩
  rw [silent w]
  simp

theorem mono (reports : Reports i allowed action good) (wider : ∀ c, allowed c → allowed' c) :
    Reports i allowed' action good := by
  intro w
  obtain ⟨⟨calls, written, each⟩, answer⟩ := reports w
  exact ⟨⟨calls, written, fun c member => wider c (each c member)⟩, answer⟩

theorem bind (first : Reports i allowed action good) (later : ∀ a, good a → Reports i allowed (next a) good') :
    Reports i allowed (action >>= next) good' := by
  intro w
  obtain ⟨⟨calls, written, each⟩, answer⟩ := first w
  rw [Action.bind_eq]
  generalize action w = x at written answer
  obtain ⟨r, w'⟩ := x
  cases r with
  | error e =>
    refine ⟨⟨calls, written, each⟩, fun b failed => ?_⟩
    cases failed
  | ok a =>
    obtain ⟨⟨more, written', each'⟩, answer'⟩ := later a (answer a rfl) w'
    dsimp only at written
    refine ⟨⟨calls ++ more, ?_, ?_⟩, answer'⟩
    · rw [written', written, Option.map_map]
      congr 1
      funext before
      exact List.append_assoc ..
    · intro c member
      rcases List.mem_append.1 member with early | late
      · exact each c early
      · exact each' c late

theorem retell (reports : Reports i allowed action good) (tell : Error → Error) :
    Reports i allowed (action.retell tell) good := by
  intro w
  rw [Action.retell_eq]
  refine ⟨(reports w).1, fun a answered => (reports w).2 a ?_⟩
  cases told : (action w).1 with
  | ok b =>
    rw [told] at answered
    exact answered
  | error e =>
    rw [told] at answered
    cases answered

/-- A name is turned into a host path before anything is done. -/
theorem within {dir operation name : Text} {act : Text → Action α}
    (each : ∀ path, hostPath dir operation name = .ok path → Reports i allowed (act path) good) :
    Reports i allowed (Host.within dir operation name act) good := by
  have found : Reports i allowed (Action.ofExcept (hostPath dir operation name))
      fun path => hostPath dir operation name = .ok path := ofSilent (fun _ => rfl) fun _ _ told => told
  exact found.bind fun path valid => (each path valid).retell _

theorem record (i : Nat) (call : Call) : Reports i (· = call) (Host.record i call) fun _ => True := by
  intro w
  refine ⟨⟨[call], ?_, fun c member => List.mem_singleton.1 member⟩, fun _ _ => trivial⟩
  rw [Host.record, Array.getElem?_modify, if_pos rfl]

/-- A call that is written down first. -/
theorem watched (call : Call) (silent : Silent i action) (answers : ∀ w a, (action w).1 = .ok a → good a) :
    Reports i (· = call) (do Host.record i call; action) good :=
  (record i call).bind fun _ _ => ofSilent silent answers

end Reports

/-! ## Paths inside a directory -/

/-- A path is that of a directory or below it, once both are cleaned. -/
def Inside (dir p : Text) : Prop := clean p = clean dir ∨ attach (clean dir) [] <+: clean p

section
variable {dir operation name path p : Text} {es : List Text}

theorem inside_of_steps (rooted : isRooted dir = true) (rootedPath : isRooted p = true) (names : Names es)
    (row : steps p = steps dir ++ es) : Inside dir p := by
  have top : Names (reduce true (steps dir)) := names_reduce fun e member => no_slash_of_mem_steps member
  rw [Inside, clean_steps_append rootedPath names row, clean_rooted rooted]
  by_cases same : es = []
  · left
    rw [same, List.append_nil]
  · right
    by_cases root : reduce true (steps dir) = []
    · rw [root]
      exact List.prefix_append [.char '/'] (joined es)
    · have ends := getLast?_ofReduced (r := true) top.pieces root
      have slash : attach (ofReduced true (reduce true (steps dir))) [] =
          ofReduced true (reduce true (steps dir)) ++ [.char '/'] := by
        rw [attach, if_neg (by decide), if_neg]
        rintro (empty | slash)
        · exact absurd empty (List.cons_ne_nil _ _)
        · exact ends slash
      rw [slash, ofReduced_append same root]
      exact ⟨joined es, List.append_assoc ..⟩

theorem inside_foldl (rooted : isRooted dir = true) (names : Names es) : Inside dir (es.foldl attach dir) :=
  inside_of_steps rooted (isRooted_foldl_attach names.pieces rooted) names (steps_foldl_attach names.pieces dir)

/-- The directory that a path below leads to an entry of is not left either. -/
theorem inside_directory (rooted : isRooted dir = true) (names : Names es) (hne : es ≠ []) :
    Inside dir (directory (es.foldl attach dir)) := by
  rcases List.eq_nil_or_concat es with rfl | ⟨front, e, rfl⟩
  · exact absurd rfl hne
  · rw [List.concat_eq_append] at names ⊢
    obtain ⟨before, last⟩ := names_append.1 names
    have plain : .char '/' ∉ e := last.no_slash e (List.mem_singleton_self e)
    have rootedFront := isRooted_foldl_attach before.pieces rooted
    rw [List.foldl_append]
    apply inside_of_steps rooted (isRooted_directory_attach plain rootedFront) before
    exact (steps_directory_attach plain _).trans (steps_foldl_attach before.pieces dir)

/-- The host path of a name is the directory with the row of the name attached. -/
theorem hostPath_eq_ok :
    hostPath dir operation name = .ok path ↔
      ∃ es, Names es ∧ name = ofReduced false es ∧ path = es.foldl attach dir := by
  rw [hostPath]
  constructor
  · intro told
    split at told
    · next valid =>
      obtain ⟨es, names, rfl⟩ := isValid_iff_names.1 valid
      cases told
      refine ⟨es, names, rfl, ?_⟩
      by_cases own : es = []
      · subst own
        rfl
      · rw [if_neg (ofReduced_ne_here names own), ofReduced_relative own, names.elements_joined own]
    · cases told
  · rintro ⟨es, names, rfl, rfl⟩
    rw [if_pos (isValid_iff_names.2 ⟨es, names, rfl⟩)]
    by_cases own : es = []
    · subst own
      rfl
    · rw [if_neg (ofReduced_ne_here names own), ofReduced_relative own, names.elements_joined own]

end

/-! ## Mounted directories -/

/-- The directories that are mounted below one, each by its name in the one before. -/
inductive Below (m : Mount) : Mount → Prop
  | refl : Below m m
  | sub {n n' : Mount} {name : Text} : Below m n → Host.sub n name = .ok n' → Below m n'

/-- The directory mounted below under a name has the row of the name attached. -/
theorem sub_eq_ok {m n : Mount} {name : Text} :
    Host.sub m name = .ok n ↔
      ∃ es, Names es ∧ name = ofReduced false es ∧ n = { m with dir := es.foldl attach m.dir } := by
  rw [Host.sub]
  constructor
  · intro opened
    cases told : hostPath m.dir "Sub".text name with
    | error e =>
      rw [told] at opened
      cases opened
    | ok path =>
      rw [told] at opened
      cases opened
      obtain ⟨es, names, row, rfl⟩ := hostPath_eq_ok.1 told
      exact ⟨es, names, row, rfl⟩
  · rintro ⟨es, names, rfl, rfl⟩
    rw [hostPath_eq_ok.2 ⟨es, names, rfl, rfl⟩]
    rfl

/-- A directory mounted below has the same operations, and its path is that of the first with names attached. -/
theorem Below.spec {m n : Mount} (below : Below m n) :
    n.ops = m.ops ∧ ∃ es, Names es ∧ n.dir = es.foldl attach m.dir := by
  induction below with
  | refl => exact ⟨rfl, [], names_nil, rfl⟩
  | @sub n n' name _ opened ih =>
    obtain ⟨same, es, names, path⟩ := ih
    obtain ⟨es', names', -, rfl⟩ := sub_eq_ok.1 opened
    refine ⟨same, es ++ es', names_append.2 ⟨names, names'⟩, ?_⟩
    rw [List.foldl_append, ← path]

/-- A change that a mounted directory can be asked for under a name. -/
inductive Change where
  | mkdirAll (mode : Int)
  | create (mode : Int)
  | write (data : Bytes) (mode : Int)
  | remove
  | removeAll

namespace Change

/-- Asks a mounted directory for a change. -/
def ask (m : Mount) (name : Text) : Change → Action Unit
  | .mkdirAll mode => Host.mkdirAll m name mode
  | .create mode => do let _ ← createFile m name mode
  | .write data mode => do let _ ← Host.write m name data mode
  | .remove => Host.remove m name
  | .removeAll => Host.removeAll m name

/-- What the change is called where it fails. -/
def operation : Change → Text
  | .mkdirAll _ => "MkdirAll".text
  | .create _ | .write _ _ => "Create".text
  | .remove => "Remove".text
  | .removeAll => "RemoveAll".text

/-- The change makes a file, in a directory that it makes if that is missing. -/
def makesFile : Change → Bool
  | .create _ | .write _ _ => true
  | .mkdirAll _ | .remove | .removeAll => false

end Change

/-- A call that a directory mounted at or below `dir` may make for a change under a name: its path is inside,
unless a file is made under the name of `dir` itself. Then what is above `dir` is made first. -/
def Allowed (dir : Text) (m : Mount) (o : Change) (name : Text) (c : Call) : Prop :=
  Inside dir c.path ∨
    o.makesFile = true ∧ name = here ∧ m.dir = dir ∧ c.verb = .mkdirAll ∧ c.path = directory dir

/-- The directory that is made before a file is created under a path. -/
def madeFirst (dir path : Text) : Text :=
  match directory path with
  | [] => dir
  | above => above

section
variable {dir name : Text} {ops : Operations} {m : Mount} {as : List Text}

theorem reports_permissions (mode : Int) : Reports i allowed (permissions mode) fun _ => True :=
  .ofSilent (fun _ => rfl) fun _ _ _ => trivial

variable (silent : ops.Silent i)
include silent

/-- Creating a file has the directory of its path made, and then the file. -/
theorem reports_createFile (own : m.ops = ops.watched i) (mode : Int)
    (inside : ∀ path, hostPath m.dir "Create".text name = .ok path →
      (∀ bits, allowed ⟨.mkdirAll, madeFirst m.dir path, some bits⟩) ∧ allowed ⟨.create, path, none⟩) :
    Reports i allowed (createFile m name mode) fun f => (∀ data, Silent i (f.write data)) ∧ Silent i f.close := by
  have opened : Reports i allowed (Host.within m.dir "Create".text name fun path => do
      m.ops.mkdirAll (madeFirst m.dir path) (← permissions mode)
      m.ops.create path) (ByteStream.Silent i) := by
    apply Reports.within
    intro path valid
    obtain ⟨first, second⟩ := inside path valid
    rw [own]
    apply (reports_permissions mode).bind
    intro bits _
    have made := Reports.watched ⟨.mkdirAll, madeFirst m.dir path, some bits⟩
      (silent.mkdirAll (madeFirst m.dir path) bits) fun _ _ _ => trivial
    have created := Reports.watched ⟨.create, path, none⟩ (silent.create path) (silent.stream path)
    apply (made.mono fun c same => same ▸ first bits).bind
    intro _ _
    exact created.mono fun c same => same ▸ second
  apply opened.bind
  intro stream quiet
  apply Reports.ofSilent
  · intro w
    rfl
  · intro w f made
    cases made
    constructor
    · intro data
      exact (quiet.write data).bind fun _ _ => rfl
    · exact quiet.closeHandle _

end

/-- A name that is not valid is refused before anything is done. -/
theorem within_refused {dir operation name : Text} (act : Text → Action α) (invalid : isValid name = false)
    (w : World) :
    within dir operation name act w = (.error (Fault.invalid.at operation name), w) := by
  have refused : hostPath dir operation name = .error (Fault.invalid.at operation name) := by
    rw [hostPath, if_neg (by simp [invalid])]
  rw [within, Action.bind_eq, refused]
  rfl

theorem refused {name : Text} (m : Mount) (o : Change) (invalid : isValid name = false) (w : World) :
    o.ask m name w = (.error (Fault.invalid.at o.operation name), w) := by
  have created (mode : Int) : createFile m name mode w = (.error (Fault.invalid.at "Create".text name), w) := by
    rw [createFile, Action.bind_eq, within_refused _ invalid]
  cases o with
  | mkdirAll mode => exact within_refused _ invalid w
  | create mode =>
    rw [Change.ask, Action.bind_eq, created]
    rfl
  | write data mode =>
    rw [Change.ask, Action.bind_eq, Host.write, Action.bind_eq, created]
    rfl
  | remove => exact within_refused _ invalid w
  | removeAll => exact within_refused _ invalid w

/-- What a mounted directory does for a change: it makes only calls that are allowed, and none at all for a
name that is not valid, which is refused. -/
structure Confined (dir : Text) (i : Nat) (m : Mount) : Prop where
  calls : ∀ (o : Change) (name : Text), Reports i (Allowed dir m o name) (o.ask m name) fun _ => True
  refuses : ∀ (o : Change) (name : Text), isValid name = false →
    (Fault.invalid.at o.operation name).name = "InvalidPathError".text ∧
      ∀ w, o.ask m name w = (.error (Fault.invalid.at o.operation name), w)

/-- **A mounted directory stays inside**, through every chain of directories mounted below it, whatever the
operations do with what they are handed, but for the directory above it that a file under its own name asks for. -/
theorem confined {dir : Text} {ops : Operations} {m : Mount} {record : Nat} (rooted : isRooted dir = true)
    (silent : ops.Silent i) (below : Below ⟨dir, ops.watched i, record⟩ m) : Confined dir i m := by
  obtain ⟨own, as, ha, base⟩ := below.spec
  dsimp only at own base
  -- Every host path is the directory with names attached.
  have inside {operation name path : Text} (valid : hostPath m.dir operation name = .ok path) :
      ∃ es, Names es ∧ path = (as ++ es).foldl attach dir ∧ name = ofReduced false es ∧ Inside dir path := by
    obtain ⟨es, names, row, rfl⟩ := hostPath_eq_ok.1 valid
    rw [base, ← List.foldl_append]
    exact ⟨es, names, rfl, row, inside_foldl rooted (names_append.2 ⟨ha, names⟩)⟩
  have created (o : Change) (makes : o.makesFile = true) (name : Text) (mode : Int) :
      Reports i (Allowed dir m o name) (createFile m name mode) fun f =>
        (∀ data, Silent i (f.write data)) ∧ Silent i f.close := by
    apply reports_createFile silent own
    intro path valid
    obtain ⟨es, names, row, named, direct⟩ := inside valid
    refine ⟨fun bits => ?_, .inl direct⟩
    by_cases top : as ++ es = []
    · -- The path is that of the first directory itself.
      obtain ⟨rfl, rfl⟩ := List.append_eq_nil_iff.1 top
      rw [row, madeFirst]
      split
      · exact .inl (base ▸ inside_foldl rooted names_nil)
      · next above found => exact .inr ⟨makes, named, base, rfl, rfl⟩
    · have below := inside_directory rooted (names_append.2 ⟨ha, names⟩) top
      rw [row, madeFirst]
      split
      · exact .inl (base ▸ inside_foldl rooted ha)
      · exact .inl below
  refine ⟨fun o name => ?_, fun o name invalid => ⟨rfl, refused m o invalid⟩⟩
  cases o with
  | mkdirAll mode =>
    apply Reports.within
    intro path valid
    obtain ⟨-, -, -, -, direct⟩ := inside valid
    apply (reports_permissions mode).bind
    intro bits _
    rw [own]
    have made := Reports.watched ⟨.mkdirAll, path, some bits⟩ (silent.mkdirAll path bits) fun _ _ _ => trivial
    exact made.mono fun c same => .inl (same ▸ direct)
  | create mode => exact (created _ rfl name mode).bind fun _ _ => .ofSilent (fun _ => rfl) fun _ _ _ => trivial
  | write data mode =>
    have written : Reports i (Allowed dir m (.write data mode) name) (Host.write m name data mode) fun _ => True := by
      apply (created (.write data mode) rfl name mode).bind
      intro f quiet
      exact .ofSilent ((quiet.1 data).ensuring quiet.2) fun _ _ _ => trivial
    exact written.bind fun _ _ => .ofSilent (fun _ => rfl) fun _ _ _ => trivial
  | remove =>
    apply Reports.within
    intro path valid
    obtain ⟨-, -, -, -, direct⟩ := inside valid
    rw [own]
    have made := Reports.watched ⟨.remove, path, none⟩ (silent.remove path) fun _ _ _ => trivial
    exact made.mono fun c same => .inl (same ▸ direct)
  | removeAll =>
    apply Reports.within
    intro path valid
    obtain ⟨-, -, -, -, direct⟩ := inside valid
    rw [own]
    have made := Reports.watched ⟨.removeAll, path, none⟩ (silent.removeAll path) fun _ _ _ => trivial
    exact made.mono fun c same => .inl (same ▸ direct)

/-- The changes of the tree itself leave every record. -/
theorem silent_standard (i : Nat) : Operations.standard.Silent i := by
  have changed {α : Type} (f : Tree → Except Fault α × Tree) : Silent i (Host.change f) := fun _ => rfl
  have opened (st : Stream) : Silent i (newStream st) := fun _ => rfl
  refine ⟨fun path => (changed _).bind fun number => opened _, fun path w stream created => ?_,
    fun path mode => changed _, fun path => changed _, fun path => changed _⟩
  have made : Operations.standard.create path =
      Host.change (fun t => t.truncate (.ofPath path)) >>= fun number => newStream (.writer number) := rfl
  rw [made, Action.bind_eq] at created
  generalize Host.change (fun t => t.truncate (.ofPath path)) w = x at created
  obtain ⟨r, w'⟩ := x
  cases r with
  | error e => cases created
  | ok number =>
    cases created
    exact ⟨fun _ _ => rfl, fun _ => rfl⟩

theorem confined_standard :
    isRooted "/tmp/x".text = true ∧ Operations.standard.Silent 0 ∧
      Below ⟨"/tmp/x".text, Operations.standard.watched 0, 0⟩ ⟨"/tmp/x/a".text, Operations.standard.watched 0, 0⟩ ∧
      Confined "/tmp/x".text 0 ⟨"/tmp/x/a".text, Operations.standard.watched 0, 0⟩ := by
  have below : Below ⟨"/tmp/x".text, Operations.standard.watched 0, 0⟩
      ⟨"/tmp/x/a".text, Operations.standard.watched 0, 0⟩ := @Below.sub _ _ _ "a".text .refl rfl
  exact ⟨by decide, silent_standard 0, below, confined (by decide) (silent_standard 0) below⟩

/-- A file made under the name of the directory itself has the directory above it made first. -/
theorem not_confined_here :
    ¬∀ (dir : Text) (ops : Operations) (i record : Nat) (m : Mount), isRooted dir = true → dir ≠ [.char '/'] →
      ops.Silent i → Below ⟨dir, ops.watched i, record⟩ m → ∀ (o : Change) (name : Text),
        Reports i (fun c => Inside dir c.path) (o.ask m name) fun _ => True := by
  intro stays
  obtain ⟨⟨calls, written, inside⟩, -⟩ := stays "/tmp/x".text .standard 0 0 _ (by decide) (by decide)
    (silent_standard 0) .refl (.create 0o644) here { records := #[[]] }
  have first : (((Change.create 0o644).ask ⟨"/tmp/x".text, Operations.standard.watched 0, 0⟩ here
      { records := #[[]] }).2.records[0]?.map List.head?) = some (some ⟨.mkdirAll, "/tmp".text, some 0o644⟩) := by
    decide +kernel
  rw [written] at first
  have member : ⟨.mkdirAll, "/tmp".text, some 0o644⟩ ∈ calls := by
    cases calls with
    | nil => cases first
    | cons c calls =>
      cases first
      exact List.mem_cons_self ..
  rcases inside _ member with same | longer
  · revert same
    decide
  · revert longer
    decide

end Vfs.Host
