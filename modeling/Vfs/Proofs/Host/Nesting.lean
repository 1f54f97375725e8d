import Vfs.Proofs.Host.Demand

/-!
# Views of a mounted directory

A directory mounted through others is asked for a change under a name, and the first one under the name that leads
through all of them: both make the same calls with the same paths and modes, and end alike (`nested_views`). The two
attach the same names to the same directory, one at once and the other in parts, so that the host paths are equal. The
directory that is made before a file is read off the host path alone (`madeFirst_rooted`), and a name enters nothing
else than what is told about errors and entries.
-/

namespace Vfs.Host
set_option autoImplicit false
open Vfs.Path

variable {α β : Type} {same : α → α → Prop} {same' : β → β → Prop} {w : World}

/-! ## Runs that go alike -/

/-- Two runs that succeed with the same or fail alike, and leave the same world. -/
structure SameRun (same : α → α → Prop) (x y : Except Error α × World) : Prop where
  answer : Agree same x.1 y.1
  world : x.2 = y.2

namespace SameRun

theorem refl (x : Except Error α × World) : SameRun Eq x x := by
  obtain ⟨r, w⟩ := x
  refine ⟨?_, rfl⟩
  cases r with
  | ok a => exact .ok rfl
  | error e => exact .error (.refl e)

theorem bind {action action' : Action α} {next next' : α → Action β} (first : SameRun same (action w) (action' w))
    (later : ∀ a a', same a a' → ∀ w, SameRun same' (next a w) (next' a' w)) :
    SameRun same' ((action >>= next) w) ((action' >>= next') w) := by
  rw [Action.bind_eq, Action.bind_eq]
  generalize action w = x, action' w = y at first
  obtain ⟨r, w₁⟩ := x
  obtain ⟨r', w₂⟩ := y
  obtain ⟨answer, world⟩ := first
  cases world
  cases answer with
  | ok alike => exact later _ _ alike w₁
  | error alike => exact ⟨.error alike, rfl⟩

/-- Answers put in other words. -/
theorem told {action action' : Action α} {f g : α → β} (first : SameRun same (action w) (action' w))
    (tells : ∀ a a', same a a' → same' (f a) (g a')) :
    SameRun same' ((action >>= fun a => pure (f a)) w) ((action' >>= fun a => pure (g a)) w) := by
  rw [Action.bind_pure_eq, Action.bind_pure_eq]
  exact ⟨first.answer.map tells, first.world⟩

end SameRun

section
variable {dir dir' operation : Text} {as bs : List Text} {act act' : Text → Action α} (ha : Names as) (hb : Names bs)
include ha hb

/-- What is done under two names goes alike, if it goes alike at their host paths but for the answer. -/
theorem sameRun_within {f : α → α}
    (acts : act' (bs.foldl attach dir') w =
      ((act (as.foldl attach dir) w).1.map f, (act (as.foldl attach dir) w).2)) (each : ∀ a, same a (f a)) :
    SameRun same (within dir operation (ofReduced false as) act w)
      (within dir' operation (ofReduced false bs) act' w) := by
  rw [within_eq ha, within_eq hb, Action.retell_eq, Action.retell_eq, acts]
  refine ⟨?_, rfl⟩
  cases (act (as.foldl attach dir) w).1 with
  | ok a => exact .ok (each a)
  | error e =>
    apply Agree.error
    dsimp only
    split
    · exact ⟨rfl, rfl⟩
    · exact .refl e

theorem sameRun_within_of_eq (acts : act (as.foldl attach dir) = act' (bs.foldl attach dir')) :
    SameRun Eq (within dir operation (ofReduced false as) act w)
      (within dir' operation (ofReduced false bs) act' w) := by
  refine sameRun_within ha hb (f := id) ?_ fun _ => rfl
  rw [acts, Except.map_id]
  rfl

end

/-! ## Files under two names -/

/-- Two files that do the same, under whatever names. -/
structure SameFile (f f' : File) : Prop where
  id : f.id = f'.id
  sort : f.kind.name = f'.kind.name
  read : f.read = f'.read
  write : f.write = f'.write
  close : f.close = f'.close
  isClosed : f.isClosed = f'.isClosed
  stat : ∀ w, SameRun (fun i i' => { i with name := i'.name } = i') (f.stat w) (f'.stat w)
  list : ∀ n w, SameRun Eq (f.list n w) (f'.list n w)

/-- A host says the same under every name, but for the name. -/
theorem make_named (name name' : Text) (mode size : Int) (modified : Instant) :
    HostStat.make name' mode size modified =
      (HostStat.make name mode size modified).map fun said => { said with name := name' } := by
  unfold HostStat.make
  cases Mode.check mode with
  | error fault => rfl
  | ok word =>
    cases modified.check with
    | error fault => rfl
    | ok modified => rfl

theorem describe_named (path name name' : Text) (w : World) :
    describe path name' w =
      ((describe path name w).1.map fun i => { i with name := name' }, (describe path name w).2) := by
  rw [describe, describe, Action.bind_eq, Action.bind_eq]
  rcases ask (fun t => t.stat (.ofPath path)) w with ⟨r, w'⟩
  cases r with
  | error e => rfl
  | ok said =>
    obtain ⟨mode, size⟩ := said
    dsimp only
    rw [Action.bind_eq, Action.bind_eq, make_named name name']
    cases HostStat.make name mode size (Instant.ofSeconds 0) with
    | error fault => rfl
    | ok said => rfl

section
variable {dir dir' : Text} {as bs : List Text}

/-- The directory made before a file is that of the path alone, where the path starts at the root. -/
theorem madeFirst_rooted {path : Text} (rooted : isRooted path = true) : madeFirst dir path = directory path := by
  have above : isRooted (directory path) = true := by
    apply isRooted_directory
    rcases cut_cases path with ⟨plain, -⟩ | ⟨front, e, -, rfl, split⟩
    · exact absurd (isRooted_iff.1 rooted) (head?_of_no_slash plain)
    · rw [split]
      cases front with
      | nil => rfl
      | cons c front => exact rooted
  rw [madeFirst]
  split
  · next empty =>
    rw [empty] at above
    cases above
  · rfl

variable (ha : Names as) (hb : Names bs)
include ha hb

/-- A handle on a stream does not go by what it is called. -/
theorem sameFile_file (path : as.foldl attach dir = bs.foldl attach dir') (stream : ByteStream) (id i : Nat) :
    SameFile (file dir (ofReduced false as) (some stream) id i)
      (file dir' (ofReduced false bs) (some stream) id i) where
  id := rfl
  sort := rfl
  read := rfl
  write := rfl
  close := rfl
  isClosed := rfl
  stat := by
    intro w
    apply sameRun_within ha hb
    · rw [path]
      exact describe_named ..
    · intro i
      rfl
  list := by
    intro n w
    have listing (w : World) : SameRun Eq (list dir (ofReduced false as) w) (list dir' (ofReduced false bs) w) :=
      sameRun_within_of_eq ha hb (by rw [path])
    have looked : SameRun Eq ((get : Action World) w) ((get : Action World) w) := .refl _
    show SameRun Eq (page dir (ofReduced false as) i n w) (page dir' (ofReduced false bs) i n w)
    unfold page
    apply looked.bind
    rintro now _ rfl w
    cases (handle now i).listing with
    | some entries => exact .refl _
    | none =>
      apply (listing w).bind
      rintro entries _ rfl w
      exact .refl _

variable {m m' : Mount} (own : m.ops = m'.ops) (path : as.foldl attach m.dir = bs.foldl attach m'.dir)
  (rooted : isRooted (as.foldl attach m.dir) = true)
include own path rooted

/-- A file is created under two names of one host path. -/
theorem sameRun_createFile (mode : Int) (w : World) :
    SameRun SameFile (createFile m (ofReduced false as) mode w) (createFile m' (ofReduced false bs) mode w) := by
  have opened : SameRun Eq
      (within m.dir "Create".text (ofReduced false as) (fun path => do
        m.ops.mkdirAll (madeFirst m.dir path) (← permissions mode)
        m.ops.create path) w)
      (within m'.dir "Create".text (ofReduced false bs) (fun path => do
        m'.ops.mkdirAll (madeFirst m'.dir path) (← permissions mode)
        m'.ops.create path) w) := by
    apply sameRun_within_of_eq ha hb
    rw [own, madeFirst_rooted rooted, path, madeFirst_rooted (path ▸ rooted)]
  apply opened.bind
  rintro stream _ rfl w
  exact ⟨.ok (sameFile_file ha hb path ..), rfl⟩

end

/-! ## Changes through views -/

/-- What a mounted directory answers to a change. -/
inductive Answer where
  | done
  | file (f : File)
  | count (n : Int)

/-- Two answers that say the same; of files, up to the name. -/
inductive Answer.Same : Answer → Answer → Prop where
  | refl (a : Answer) : Same a a
  | file {f f' : File} : SameFile f f' → Same (.file f) (.file f')

/-- Asks a mounted directory for a change, and tells what it answers. -/
def Change.answer (m : Mount) (name : Text) : Change → Action Answer
  | .mkdirAll mode => do Host.mkdirAll m name mode; return .done
  | .create mode => do return .file (← createFile m name mode)
  | .write data mode => do return .count (← Host.write m name data mode)
  | .remove => do Host.remove m name; return .done
  | .removeAll => do Host.removeAll m name; return .done

/-- The calls that a change makes of its host, whatever comes of them: what is in a new record once they were
written down. -/
def Change.calls (m : Mount) (name : Text) (o : Change) (w : World) : List Call :=
  let record := w.records.size
  let watched : Mount := { m with ops := m.ops.watched record }
  (o.answer watched name { w with records := w.records.push [] }).2.records.getD record []

/-- A call that fails is the last one. -/
example : (Change.create 0o644).calls
    ⟨"/tmp/x/".text, Operations.standard.failing [(.mkdirAll, Fault.notDir.error)], 0⟩ "a/b".text {} =
      [⟨.mkdirAll, "/tmp/x/a".text, some 0o644⟩] := by
  decide +kernel

/-- The name that leads through several: those other than `.` with slashes between them, or `.` if there are none. -/
def through (names : List Text) : Text := ofReduced false (names.filter (· ≠ here))

/-- A view of a mounted directory, through the directories with some names: under each name it does what the
mounted directory does under the name through all of them, at the same host path, which no other name has. -/
structure Nested (ds : List Text) (m view : Mount) : Prop where
  calls : ∀ (o : Change) name, isValid name = true → ∀ w,
    o.calls view name w = o.calls m (through (ds ++ [name])) w
  runs : ∀ (o : Change) name, isValid name = true → ∀ w,
    SameRun Answer.Same (o.answer view name w) (o.answer m (through (ds ++ [name])) w)
  path : ∀ operation name, isValid name = true → ∃ path,
    hostPath view.dir operation name = .ok path ∧ hostPath m.dir operation (through (ds ++ [name])) = .ok path
  apart : ∀ operation a b path,
    hostPath view.dir operation a = .ok path → hostPath view.dir operation b = .ok path → a = b

section
variable {m m' : Mount} {as bs : List Text} {rows : List (List Text)}

/-- Valid names are what rows of names make. -/
theorem exists_rows {ds : List Text} (valid : ∀ d ∈ ds, isValid d = true) :
    ∃ rows : List (List Text), (∀ es ∈ rows, Names es) ∧ ds = rows.map (ofReduced false) := by
  induction ds with
  | nil => exact ⟨[], fun _ member => absurd member List.not_mem_nil, rfl⟩
  | cons d ds ih =>
    obtain ⟨es, names, rfl⟩ := isValid_iff_names.1 (valid d List.mem_cons_self)
    obtain ⟨rows, each, rfl⟩ := ih fun d member => valid d (List.mem_cons_of_mem _ member)
    exact ⟨es :: rows, List.forall_mem_cons.2 ⟨names, each⟩, rfl⟩

/-- The name through several has all their rows in one. -/
theorem through_ofReduced (names : ∀ es ∈ rows, Names es) :
    through (rows.map (ofReduced false)) = ofReduced false rows.flatten := by
  have parts : ∀ es ∈ rows.filter (· ≠ []), es ≠ [] := fun es member => by simpa using (List.mem_filter.1 member).2
  have own : rows.filter ((· ≠ here) ∘ ofReduced false) = rows.filter (· ≠ []) := by
    apply List.filter_congr
    intro es member
    by_cases empty : es = []
    · rw [empty]
      rfl
    · simp [empty, ofReduced_ne_here (names es member) empty]
  have kept : (rows.map (ofReduced false)).filter (· ≠ here) = (rows.filter (· ≠ [])).map joined := by
    rw [List.filter_map, own]
    exact List.map_congr_left fun es member => ofReduced_relative (parts es member)
  rw [through, kept, ofReduced_map_joined parts, List.flatten_filter_ne_nil]

/-- Directories mounted one below the other are the first one with all their names attached. -/
theorem foldlM_sub (names : ∀ es ∈ rows, Names es) (m : Mount) :
    (rows.map (ofReduced false)).foldlM Host.sub m = .ok { m with dir := rows.flatten.foldl attach m.dir } := by
  induction rows generalizing m with
  | nil => rfl
  | cons es rows ih =>
    obtain ⟨own, rest⟩ := List.forall_mem_cons.1 names
    rw [List.map_cons, List.foldlM_cons, sub_eq_ok.2 ⟨es, own, rfl, rfl⟩, List.flatten_cons, List.foldl_append]
    exact ih rest _

/-- Asked under two names of one host path, two directories mounted with the same operations answer alike. -/
theorem sameRun_answer (ha : Names as) (hb : Names bs) (own : m.ops = m'.ops)
    (path : as.foldl attach m.dir = bs.foldl attach m'.dir) (rooted : isRooted (as.foldl attach m.dir) = true)
    (o : Change) (w : World) :
    SameRun Answer.Same (o.answer m (ofReduced false as) w) (o.answer m' (ofReduced false bs) w) := by
  have created (mode : Int) (w : World) := sameRun_createFile ha hb own path rooted mode w
  cases o with
  | mkdirAll mode =>
    have made : SameRun Eq (mkdirAll m (ofReduced false as) mode w) (mkdirAll m' (ofReduced false bs) mode w) :=
      sameRun_within_of_eq ha hb (by rw [own, path])
    exact made.told fun _ _ _ => .refl _
  | create mode => exact (created mode w).told fun _ _ alike => .file alike
  | write data mode =>
    have written : SameRun Eq (Host.write m (ofReduced false as) data mode w)
        (Host.write m' (ofReduced false bs) data mode w) := by
      apply (created mode w).bind
      intro f f' alike w
      rw [alike.write, alike.close]
      exact .refl _
    exact written.told fun n n' same => by rw [same]; exact .refl _
  | remove =>
    have taken : SameRun Eq (remove m (ofReduced false as) w) (remove m' (ofReduced false bs) w) :=
      sameRun_within_of_eq ha hb (by rw [own, path])
    exact taken.told fun _ _ _ => .refl _
  | removeAll =>
    have taken : SameRun Eq (removeAll m (ofReduced false as) w) (removeAll m' (ofReduced false bs) w) :=
      sameRun_within_of_eq ha hb (by rw [own, path])
    exact taken.told fun _ _ _ => .refl _

section
variable (names : ∀ es ∈ rows, Names es) (hb : Names bs)
include names hb

theorem through_concat :
    through (rows.map (ofReduced false) ++ [ofReduced false bs]) = ofReduced false (rows.flatten ++ bs) := by
  have row : rows.map (ofReduced false) ++ [ofReduced false bs] = (rows ++ [bs]).map (ofReduced false) := by
    rw [List.map_append, List.map_singleton]
  rw [row, through_ofReduced (List.forall_mem_append.2 ⟨names, List.forall_mem_singleton.2 hb⟩), List.flatten_append,
    List.flatten_singleton]

/-- A change goes alike through directories and under the name through them, whatever the operations are. -/
theorem sameRun_through {dir : Text} (rooted : isRooted dir = true) (ops : Operations) (record : Nat) (o : Change)
    (w : World) :
    SameRun Answer.Same (o.answer ⟨rows.flatten.foldl attach dir, ops, record⟩ (ofReduced false bs) w)
      (o.answer ⟨dir, ops, record⟩ (through (rows.map (ofReduced false) ++ [ofReduced false bs])) w) := by
  have whole : Names rows.flatten := List.forall_mem_flatten.2 names
  rw [through_concat names hb]
  apply sameRun_answer hb (names_append.2 ⟨whole, hb⟩)
  · rfl
  · exact (List.foldl_append ..).symm
  · exact isRooted_foldl_attach hb.pieces (isRooted_foldl_attach whole.pieces rooted)

end

/-- Different names have different host paths. -/
theorem hostPath_inj {dir operation a b path : Text} (first : hostPath dir operation a = .ok path)
    (second : hostPath dir operation b = .ok path) : a = b := by
  obtain ⟨as, ha, rfl, rfl⟩ := hostPath_eq_ok.1 first
  obtain ⟨bs, hb, rfl, same⟩ := hostPath_eq_ok.1 second
  have rows := congrArg steps same
  rw [steps_foldl_attach ha.pieces, steps_foldl_attach hb.pieces] at rows
  rw [List.append_cancel_left rows]

end

/-- **Views of a mounted directory compose**: through every chain of valid names there is a view, and each change
under a valid name goes through it as it goes under the name that leads through all of them, whatever the operations
do with what they are handed. Different names have different host paths. -/
theorem nested_views {m : Mount} {ds : List Text} (rooted : isRooted m.dir = true)
    (valid : ∀ d ∈ ds, isValid d = true) : ∃ view, ds.foldlM Host.sub m = .ok view ∧ Nested ds m view := by
  obtain ⟨rows, names, rfl⟩ := exists_rows valid
  refine ⟨_, foldlM_sub names m, fun o name valid w => ?_, fun o name valid w => ?_, fun operation name valid => ?_,
    fun _ _ _ _ => hostPath_inj⟩
  · -- The calls are what watched operations leave in the world.
    obtain ⟨bs, hb, rfl⟩ := isValid_iff_names.1 valid
    have run := sameRun_through names hb rooted (m.ops.watched w.records.size) m.record o
      { w with records := w.records.push [] }
    exact congrArg (fun w' : World => w'.records.getD w.records.size []) run.world
  · obtain ⟨bs, hb, rfl⟩ := isValid_iff_names.1 valid
    exact sameRun_through names hb rooted m.ops m.record o w
  · obtain ⟨bs, hb, rfl⟩ := isValid_iff_names.1 valid
    have all : Names (rows.flatten ++ bs) := names_append.2 ⟨List.forall_mem_flatten.2 names, hb⟩
    rw [through_concat names hb]
    exact ⟨_, hostPath_eq_ok.2 ⟨bs, hb, rfl, rfl⟩, hostPath_eq_ok.2 ⟨_, all, rfl, (List.foldl_append ..).symm⟩⟩

/-- The directory ends in a slash, and one of the names is that of the directory itself. -/
theorem nested_views_dotted :
    isRooted "/tmp/x/".text = true ∧ (∀ d ∈ ["a".text, here, "b/c".text], isValid d = true) ∧
      through (["a".text, here, "b/c".text] ++ [here]) = "a/b/c".text ∧
      ∃ view, ["a".text, here, "b/c".text].foldlM Host.sub ⟨"/tmp/x/".text, .standard, 0⟩ = .ok view ∧
        Nested ["a".text, here, "b/c".text] ⟨"/tmp/x/".text, .standard, 0⟩ view :=
  ⟨by decide, by decide, by decide, nested_views (by decide) (by decide)⟩

end Vfs.Host
