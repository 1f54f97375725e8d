import Vfs.Filesystem.Walk
import Vfs.Proofs.Memory.Listing

/-!
# What a walk reaches

A walk that does nothing where it visits lists every directory in the store it began with. So it ends well and
leaves the world (`Quiet`), and the names it reaches are those to which the store leads down, from directory to
directory (`mem_walk`). The levels it may go down never run out: a key is longer than the one it stands under,
and no key is longer than the world is deep.
-/

namespace Vfs
set_option autoImplicit false

theorem bind_apply {α β : Type} (first : StateM World α) (next : α → StateM World β) (w : World) :
    (first >>= next) w = next (first w).1 (first w).2 := rfl

namespace Trace

/-- The paths that a walk reached. -/
def names (t : Trace) : List Text := t.visited.map (·.1)

theorem names_cons (path : Text) (info : Info) (t : Trace) : (cons path info t).names = path :: t.names := rfl

/-- A walk that ends well and leaves the world. -/
structure Quiet (walk : StateM World Trace) (w : World) : Prop where
  outcome : (walk w).1.outcome = .ok ()
  world : (walk w).2 = w

theorem sequence_quiet {α : Type} {walk : α → StateM World Trace} {w : World} {l : List α}
    (quiet : ∀ a ∈ l, Quiet (walk a) w) :
    Quiet (sequence walk l) w ∧ (sequence walk l w).1.names = l.flatMap fun a => (walk a w).1.names := by
  induction l with
  | nil => exact ⟨⟨rfl, rfl⟩, rfl⟩
  | cons a rest ih =>
    obtain ⟨⟨ended, left⟩, reached⟩ := ih fun b member => quiet b (List.mem_cons_of_mem a member)
    obtain ⟨first, same⟩ := quiet a (List.mem_cons_self ..)
    have run : sequence walk (a :: rest) w =
        (⟨(walk a w).1.visited ++ (sequence walk rest w).1.visited, (sequence walk rest w).1.outcome⟩,
          (sequence walk rest w).2) := by
      simp only [sequence, bind_apply]
      generalize walk a w = r at first same
      obtain ⟨t, w'⟩ := r
      dsimp only at first same
      subst same
      simp only [first]
      rfl
    refine ⟨⟨by rw [run]; exact ended, by rw [run]; exact left⟩, ?_⟩
    rw [run, List.flatMap_cons, ← reached]
    exact List.map_append

end Trace

namespace Filesystem

/-- One row of a walk: the visit, and of a directory the listing and what is below. -/
theorem walkTree_succ (fs : Filesystem) (visit : Text → Info → Action Unit) (depth : Nat) (path : Text) (info : Info)
    (w : World) :
    fs.walkTree visit (depth + 1) path info w =
      match visit path info w with
      | (.error e, w') => (.cons path (w.refresh info) (.failed e), w')
      | (.ok (), w') =>
        if info.directory then
          match fs.list path w' with
          | (.error e, w'') => (.cons path (w.refresh info) (.failed e), w'')
          | (.ok children, w'') =>
            let run := Trace.sequence (fun child => fs.walkTree visit depth (Path.child path child.name) child)
              children w''
            (.cons path (w.refresh info) run.1, run.2)
        else (.cons path (w.refresh info) {}, w') := by
  have read : (get : StateM World World) w = (w, w) := rfl
  have visited : (visit path info).run w = visit path info w := rfl
  rw [walkTree]
  simp only [bind_apply, read, visited]
  rcases visit path info w with ⟨r, w'⟩
  cases r with
  | error e => rfl
  | ok done =>
    have asked : (fs.list path).run w' = fs.list path w' := rfl
    cases info.directory with
    | false => rfl
    | true =>
      simp only [if_true, bind_apply, asked]
      rcases fs.list path w' with ⟨r, w''⟩
      cases r with
      | error e => rfl
      | ok children => rfl

/-- A walk from a name: the name is told, and its tree walked. -/
theorem walkWith_eq (fs : Filesystem) (visit : Text → Info → Action Unit) (root : Text) (w : World) :
    fs.walkWith visit root w =
      match fs.stat root w with
      | (.error fault, w') => (.failed fault, w')
      | (.ok info, w') => fs.walkTree visit (spareLevels + w'.nesting) root info w' := by
  have asked : (fs.stat root).run w = fs.stat root w := rfl
  rw [walkWith, bind_apply, asked]
  rcases fs.stat root w with ⟨r, w'⟩
  cases r with
  | error fault => rfl
  | ok info => rfl

end Filesystem

namespace Memory
open Vfs.Path Trace

variable {s : Store Entry} {w : World} {as bs cs : List Text} {n id depth : Nat} {e : Entry} {info : Info} {name : Text}

/-! ## The way down -/

/-- What stands under a row is found on the way down: everything on it is stored, and a directory but for the
end. -/
def Down (s : Store Entry) : List Text → List Text → Prop
  | as, [] => (s.get? (ofReduced true as)).isSome = true
  | as, c :: cs => IsDirectory s (ofReduced true as) ∧ Down s (as ++ [c]) cs

theorem Down.stored (down : Down s as cs) : (s.get? (ofReduced true as)).isSome = true := by
  cases cs with
  | nil => exact down
  | cons c cs =>
    obtain ⟨⟨e, there, -⟩, -⟩ := down
    rw [there, Option.isSome_some]

/-- The way down, by the beginnings of the row. -/
theorem down_iff :
    Down s as bs ↔ (s.get? (ofReduced true (as ++ bs))).isSome = true ∧
      ∀ front back, bs = front ++ back → back ≠ [] → IsDirectory s (ofReduced true (as ++ front)) := by
  induction bs generalizing as with
  | nil =>
    rw [List.append_nil]
    refine ⟨fun down => ⟨down, fun front back row proper => ?_⟩, fun there => there.1⟩
    exact absurd (List.append_eq_nil_iff.1 row.symm).2 proper
  | cons b bs ih =>
    have row : as ++ b :: bs = (as ++ [b]) ++ bs := by rw [List.append_assoc]; rfl
    rw [Down, ih, row]
    constructor
    · rintro ⟨there, stored, way⟩
      refine ⟨stored, fun front back split proper => ?_⟩
      cases front with
      | nil => rwa [List.append_nil]
      | cons a front =>
        obtain ⟨rfl, rest⟩ := List.cons.inj split
        have below := way front back rest proper
        rwa [List.append_assoc] at below
    · rintro ⟨stored, way⟩
      refine ⟨?_, stored, fun front back split proper => ?_⟩
      · have top := way [] (b :: bs) rfl (List.cons_ne_nil b bs)
        rwa [List.append_nil] at top
      · have below := way (b :: front) back (by rw [split]; rfl) proper
        rwa [List.append_assoc]

/-- A name, seen from the root of the row `as`, is found on the way down from the row `bs` below it. -/
def Reaches (s : Store Entry) (as bs : List Text) (name : Text) : Prop :=
  ∃ cs, Names cs ∧ Down s (as ++ bs) cs ∧ name = ofReduced false (bs ++ cs)

theorem reaches_file (stored : s.get? (ofReduced true (as ++ bs)) = some e) (file : e.directory = false) :
    Reaches s as bs name ↔ name = ofReduced false bs := by
  constructor
  · rintro ⟨cs, -, down, rfl⟩
    cases cs with
    | nil => rw [List.append_nil]
    | cons c cs =>
      obtain ⟨⟨d, found, directory⟩, -⟩ := down
      obtain rfl := Option.some.inj (stored.symm.trans found)
      rw [file] at directory
      cases directory
  · rintro rfl
    exact ⟨[], names_nil, by rw [Down, stored, Option.isSome_some], by rw [List.append_nil]⟩

theorem reaches_directory (names : Names (as ++ bs)) (there : IsDirectory s (ofReduced true (as ++ bs))) :
    Reaches s as bs name ↔
      name = ofReduced false bs ∨ ∃ c, Names (as ++ bs ++ [c]) ∧ Reaches s as (bs ++ [c]) name := by
  have further (c : Text) (cs : List Text) : bs ++ c :: cs = bs ++ [c] ++ cs := by rw [List.append_assoc]; rfl
  constructor
  · rintro ⟨cs, hc, down, rfl⟩
    cases cs with
    | nil => exact .inl (by rw [List.append_nil])
    | cons c cs =>
      obtain ⟨-, down⟩ := down
      have row : Names ([c] ++ cs) := hc
      obtain ⟨first, rest⟩ := names_append.1 row
      refine .inr ⟨c, names_append.2 ⟨names, first⟩, cs, rest, ?_, by rw [further c cs]⟩
      rwa [← List.append_assoc]
  · rintro (rfl | ⟨c, longer, cs, hc, down, rfl⟩)
    · obtain ⟨d, stored, -⟩ := there
      exact ⟨[], names_nil, by rw [Down, stored, Option.isSome_some], by rw [List.append_nil]⟩
    · rw [← List.append_assoc] at down
      exact ⟨c :: cs, names_append.2 ⟨(names_append.1 longer).2, hc⟩, ⟨there, down⟩, by rw [further c cs]⟩

theorem Reaches.stored (reaches : Reaches s as bs name) : (s.get? (ofReduced true (as ++ bs))).isSome = true := by
  obtain ⟨cs, -, down, -⟩ := reaches
  exact down.stored

/-- A key is longer with a name more. -/
theorem length_snoc {c : Text} (names : Names (as ++ [c])) :
    (ofReduced true as).length < (ofReduced true (as ++ [c])).length := by
  have proper := (names_append.1 names).2.ne_nil (List.mem_singleton_self c)
  have letters : 0 < c.length := List.length_pos_iff.2 proper
  rw [ofReduced_snoc]
  split
  · next top =>
    have slash : (ofReduced true []).length = 1 := rfl
    rw [top, slash, if_pos rfl, List.length_append, List.length_singleton]
    omega
  · rw [List.length_append, List.length_cons]
    omega

/-- No row is longer than its key. -/
theorem length_le_key (names : Names bs) : bs.length ≤ (ofReduced true bs).length := by
  induction bs using List.reverseRecOn with
  | nil => exact Nat.zero_le _
  | append_singleton bs c ih =>
    have growth := length_snoc names
    have short := ih (names_append.1 names).1
    rw [List.length_append, List.length_singleton]
    omega

/-! ## The steps of a walk -/

/-- A walk of a view from a path on, that does nothing where it visits. -/
def walkFrom (id : Nat) (view : View) (depth : Nat) (path : Text) (info : Info) : StateM World Trace :=
  (filesystem id view).walkTree (fun _ _ => pure ()) depth path info

theorem walkFrom_succ (id : Nat) (view : View) (depth : Nat) (path : Text) (info : Info) (w : World) :
    walkFrom id view (depth + 1) path info w =
      if info.directory then
        match listing view path w with
        | .error e => (.cons path (w.refresh info) (.failed e), w)
        | .ok children =>
          let run := sequence (fun child => walkFrom id view depth (Path.child path child.name) child) children w
          (.cons path (w.refresh info) run.1, run.2)
      else (.cons path (w.refresh info) {}, w) := by
  have asked : (filesystem id view).list path w = (listing view path w, w) := rfl
  have visited : (pure () : Action Unit) w = (.ok (), w) := rfl
  rw [walkFrom, Filesystem.walkTree_succ, visited]
  dsimp only
  rw [asked]
  cases listing view path w with
  | error e => rfl
  | ok children => rfl

/-- What a walk does below a row: it ends well, leaves the world, and reaches what is found there. -/
structure Walks (s : Store Entry) (as bs : List Text) (walk : StateM World Trace) (w : World) : Prop where
  quiet : Quiet walk w
  reached : ∀ name, name ∈ (walk w).1.names ↔ Reaches s as bs name

theorem walks_file (stored : (w.volume n).store.get? (ofReduced true (as ++ bs)) = some e)
    (file : e.directory = false) (kind : info.directory = e.directory) :
    Walks (w.volume n).store as bs
      (walkFrom id ⟨n, ofReduced true as⟩ (depth + 1) (ofReduced false bs) info) w := by
  have step := walkFrom_succ id ⟨n, ofReduced true as⟩ depth (ofReduced false bs) info w
  rw [kind, file, if_neg Bool.false_ne_true] at step
  refine ⟨⟨by rw [step]; rfl, by rw [step]⟩, fun name => ?_⟩
  rw [step, reaches_file stored file]
  exact List.mem_singleton

section
variable (sound : (w.volume n).store.Sound) (labelled : Labelled (w.volume n).store)
include sound labelled

theorem walks_directory (names : Names (as ++ bs))
    (there : IsDirectory (w.volume n).store (ofReduced true (as ++ bs))) (kind : info.directory = true)
    (below : ∀ child, IsChild (w.volume n).store (as ++ bs) child →
      Walks (w.volume n).store as (bs ++ [child.name])
        (walkFrom id ⟨n, ofReduced true as⟩ depth (ofReduced false (bs ++ [child.name])) child) w) :
    Walks (w.volume n).store as bs
      (walkFrom id ⟨n, ofReduced true as⟩ (depth + 1) (ofReduced false bs) info) w := by
  obtain ⟨children, listed, told, complete⟩ := listing_children sound labelled names there
  let walk (child : Info) : StateM World Trace :=
    walkFrom id ⟨n, ofReduced true as⟩ depth (Path.child (ofReduced false bs) child.name) child
  have each : ∀ child ∈ children, Walks (w.volume n).store as (bs ++ [child.name]) (walk child) w := by
    intro child member
    have isChild := told child member
    have longer := isChild.names
    rw [List.append_assoc] at longer
    dsimp only [walk]
    rw [child_ofReduced (names_append.1 longer).2]
    exact below child isChild
  have run : Quiet (sequence walk children) w ∧
      (sequence walk children w).1.names = children.flatMap fun child => (walk child w).1.names :=
    sequence_quiet fun child member => (each child member).quiet
  obtain ⟨⟨ended, left⟩, reached⟩ := run
  have step := walkFrom_succ id ⟨n, ofReduced true as⟩ depth (ofReduced false bs) info w
  rw [kind, if_pos rfl, listed] at step
  refine ⟨⟨by rw [step]; exact ended, by rw [step]; exact left⟩, fun name => ?_⟩
  rw [step]
  dsimp only
  rw [names_cons, reached, List.mem_cons, List.mem_flatMap, reaches_directory names there]
  refine or_congr_right ⟨?_, ?_⟩
  · rintro ⟨child, member, found⟩
    exact ⟨child.name, (told child member).names, ((each child member).reached name).1 found⟩
  · rintro ⟨c, longer, reaches⟩
    have stored := reaches.stored
    rw [← List.append_assoc] at stored
    obtain ⟨child, member, rfl⟩ := complete c longer stored
    exact ⟨child, member, ((each child member).reached name).2 reaches⟩

/-- A walk with levels to spare goes all the way down. -/
theorem walks_from (names : Names (as ++ bs))
    (stored : (w.volume n).store.get? (ofReduced true (as ++ bs)) = some e) (kind : info.directory = e.directory)
    (deep : ∀ k e, (w.volume n).store.get? k = some e → k.length < depth + (ofReduced true (as ++ bs)).length) :
    Walks (w.volume n).store as bs
      (walkFrom id ⟨n, ofReduced true as⟩ depth (ofReduced false bs) info) w := by
  induction depth generalizing bs info e with
  | zero =>
    have short := deep _ e stored
    omega
  | succ depth ih =>
    cases directory : e.directory with
    | false => exact walks_file stored directory kind
    | true =>
      refine walks_directory sound labelled names ⟨e, stored, directory⟩ (kind.trans directory) ?_
      rintro child ⟨longer, d, there, kind'⟩
      have growth := length_snoc longer
      rw [List.append_assoc] at longer there growth
      refine ih longer there kind' fun k d found => ?_
      have short := deep k d found
      omega

end

/-! ## Walks from the root of a view -/

theorem walk_here (id : Nat) (view : View) (w : World) :
    (filesystem id view).walk here w =
      match locate view.root (w.volume view.volume).store here with
      | .error e => (.failed e, w)
      | .ok l => walkFrom id view (Filesystem.spareLevels + w.nesting) here (describe view l w) w := by
  have asked : (filesystem id view).stat here w =
      ((locate view.root (w.volume view.volume).store here).map fun l => describe view l w, w) := rfl
  rw [Filesystem.walk, Filesystem.walkWith_eq, asked]
  cases locate view.root (w.volume view.volume).store here with
  | error e => rfl
  | ok l => rfl

theorem le_longest (l : List Nat) (least : Nat) :
    least ≤ l.foldl max least ∧ ∀ m ∈ l, m ≤ l.foldl max least := by
  induction l generalizing least with
  | nil => exact ⟨Nat.le_refl least, fun m member => absurd member List.not_mem_nil⟩
  | cons a rest ih =>
    obtain ⟨greater, others⟩ := ih (max least a)
    refine ⟨Nat.le_trans (Nat.le_max_left ..) greater, fun m member => ?_⟩
    rcases List.mem_cons.1 member with rfl | later
    · exact Nat.le_trans (Nat.le_max_right ..) greater
    · exact others m later

/-- No key is longer than the world is deep. -/
theorem length_le_nesting (sound : (w.volume n).store.Sound) {k : Text}
    (stored : (w.volume n).store.get? k = some e) : k.length ≤ w.nesting := by
  have row : k ∈ (w.volume n).store.keys.toList := (sound.agree k).2 (by rw [stored, Option.isSome_some])
  have there : n < w.volumes.size := Session.there_of_stored (by rw [stored, Option.isSome_some])
  have volume : w.volume n ∈ w.volumes.toList := by
    have eq : w.volume n = w.volumes[n] := by simp [World.volume, there]
    rw [eq]
    exact Array.getElem_mem_toList there
  let longest (v : Volume) : Nat := (v.store.keys.toList.map List.length).foldl max 0
  calc k.length ≤ longest (w.volume n) := (le_longest _ 0).2 _ (List.mem_map_of_mem row)
    _ ≤ (w.volumes.toList.map longest).foldl max 0 := (le_longest _ 0).2 _ (List.mem_map_of_mem volume)
    _ ≤ w.nesting := Nat.le_add_right ..

section
variable (sound : (w.volume n).store.Sound) (labelled : Labelled (w.volume n).store) (ha : Names as) (id : Nat)
include sound labelled ha

theorem walks_here (stored : ((w.volume n).store.get? (ofReduced true as)).isSome = true) :
    Walks (w.volume n).store as [] ((filesystem id ⟨n, ofReduced true as⟩).walk here) w := by
  obtain ⟨e, there⟩ := Option.isSome_iff_exists.1 stored
  have found : locate (ofReduced true as) (w.volume n).store here = .ok (ofReduced true as, e) :=
    locate_eq_ok.2 ⟨rfl, key_here ha, by rw [key_here ha, there]⟩
  have deep : ∀ k e, (w.volume n).store.get? k = some e →
      k.length < Filesystem.spareLevels + w.nesting + (ofReduced true (as ++ [])).length := by
    intro k e present
    have short := length_le_nesting sound present
    have spare : 0 < Filesystem.spareLevels := by decide
    omega
  have walks : Walks (w.volume n).store as [] (walkFrom id ⟨n, ofReduced true as⟩
      (Filesystem.spareLevels + w.nesting) here (describe ⟨n, ofReduced true as⟩ (ofReduced true as, e) w)) w :=
    walks_from sound labelled (names_append.2 ⟨ha, names_nil⟩) (by rw [List.append_nil, there]) rfl deep
  have run := walk_here id ⟨n, ofReduced true as⟩ w
  rw [found] at run
  exact ⟨⟨by rw [run]; exact walks.quiet.outcome, by rw [run]; exact walks.quiet.world⟩,
    fun name => by rw [run]; exact walks.reached name⟩

/-- **A walk from the root of a view reaches what is found on the way down.** -/
theorem mem_walk (hb : Names bs) :
    ofReduced false bs ∈ ((filesystem id ⟨n, ofReduced true as⟩).walk here w).1.names ↔
      Down (w.volume n).store as bs := by
  by_cases stored : ((w.volume n).store.get? (ofReduced true as)).isSome = true
  · rw [(walks_here sound labelled ha id stored).reached, Reaches, List.append_nil]
    constructor
    · rintro ⟨cs, hc, down, same⟩
      rwa [ofReduced_inj hb hc same]
    · exact fun down => ⟨bs, hb, down, rfl⟩
  · have missing := Option.not_isSome_iff_eq_none.1 stored
    have refused : locate (ofReduced true as) (w.volume n).store here =
        .error (Fault.notExist.at "Open".text here) := by
      rw [locate, if_pos (show isValid here = true from rfl), key_here ha, missing]
    have run := walk_here id ⟨n, ofReduced true as⟩ w
    rw [refused] at run
    rw [run]
    exact ⟨fun member => absurd member List.not_mem_nil, fun down => absurd down.stored stored⟩

end

end Memory

end Vfs
