import Vfs.Proofs.Filesystem.Demand
import Vfs.Proofs.Filesystem.Pouring
import Vfs.Proofs.Memory.Walk

/-!
# Copying a scene

A copy carries a scene from one filesystem to another, if the two are kept in different parts of the world: what one
of them does leaves the part of the other (`mine`, `other`). The source tells and delivers what its scene has
(`Gives`), the destination fills ways and takes files (`Accepts`). A visit then lets what the destination shows go on
to one row more (`visited_scene`), a walk to all rows at and below one (`walked_scene`), and a copy of the whole to a
filesystem with nothing in it leaves the scene there (`copied_scene`).
-/

namespace Vfs
set_option autoImplicit false
open Vfs.Path
open Memory (chunk)

variable {mine other : World → World → Prop} {w w' : World} {f g : File} {data : Bytes} {mode : Int} {bits fuel : Nat}
  {source dest : Filesystem} {S T : Scene} {es : List Text} {e : Text} {info : Info}

/-- Two worlds do not differ in what host filesystems are made of. -/
structure Calm (w w' : World) : Prop where
  tree : w'.tree = w.tree
  streams : w'.streams = w.streams

/-! ## Two files -/

/-- A file delivers what is left of some content chunk by chunk, as long as its part of the world stays, and leaves
the other part. -/
structure Drains (mine other : World → World → Prop) (f : File) (unread : Bytes → World → Prop) (after : World → Prop) :
    Prop where
  steady : ∀ {data w w'}, unread data w → mine w w' → unread data w'
  held : ∀ {data w}, unread data w → data.length ≤ w.extent
  read : ∀ {data w}, unread data w → ∃ w', f.read Filesystem.chunkSize w = (.ok (data.take chunk), w') ∧ other w w' ∧
    unread (data.drop chunk) w'
  close : ∀ {data w}, unread data w → ∃ w', f.close w = (.ok (), w') ∧ other w w' ∧ after w'

/-- A file takes what is written to it, as long as its part of the world stays, and leaves the other part. -/
structure Fills (mine other : World → World → Prop) (f : File) (got : Bytes → World → Prop)
    (after : Bytes → World → Prop) : Prop where
  steady : ∀ {data w w'}, got data w → mine w w' → got data w'
  write : ∀ {data more w}, got data w → more ≠ [] → ∃ n w', f.write more w = (.ok n, w') ∧ other w w' ∧
    got (data ++ more) w'
  close : ∀ {data w}, got data w → ∃ w', f.close w = (.ok (), w') ∧ other w w' ∧ after data w'

/-- With enough fuel one file is poured into the other. -/
theorem poured_into {unread got : Bytes → World → Prop} {after : World → Prop} {after' : Bytes → World → Prop}
    (drains : Drains mine other f unread after) (fills : Fills other mine g got after') {before : Bytes}
    (reader : unread data w) (writer : got before w) (enough : data.length < fuel) :
    ∃ w', Filesystem.pour f g fuel w = (.ok (), w') ∧ unread [] w' ∧ got (before ++ data) w' := by
  induction fuel generalizing data before w with
  | zero => exact absurd enough (Nat.not_lt_zero _)
  | succ fuel ih =>
    obtain ⟨w₁, delivered, aside, reader₁⟩ := drains.read reader
    have writer₁ := fills.steady writer aside
    rw [Filesystem.pour, Action.bind_eq, delivered]
    dsimp only
    by_cases last : data.take chunk = []
    · obtain rfl : data = [] := (List.take_eq_nil_iff.1 last).resolve_left (by decide)
      exact ⟨w₁, by rw [if_pos (by rw [last]; rfl)]; rfl, reader₁, by rwa [List.append_nil]⟩
    · obtain ⟨n, w₂, write, aside', writer₂⟩ := fills.write writer₁ last
      have reader₂ := drains.steady reader₁ aside'
      have fewer : (data.drop chunk).length < fuel := by
        have nonempty : data ≠ [] := fun empty => last (by rw [empty, List.take_nil])
        have positive := List.length_pos_iff.2 nonempty
        have step : 0 < chunk := by decide
        rw [List.length_drop]
        omega
      obtain ⟨w₃, rest, reader₃, writer₃⟩ := ih reader₂ writer₂ fewer
      rw [List.append_assoc, List.take_append_drop] at writer₃
      exact ⟨w₃, by rw [if_neg (by simpa using last), Action.bind_eq, write]; exact rest, reader₃, writer₃⟩

/-! ## Two filesystems -/

/-- A filesystem tells and delivers what its scene has, as long as its part of the world stays, and leaves the other
part. -/
structure Gives (mine other : World → World → Prop) (source : Filesystem) (S : Scene) (holds : World → Prop) :
    Prop where
  steady : ∀ {w w'}, holds w → mine w w' → holds w'
  deep : ∀ {w es}, holds w → S es ≠ none → es.length ≤ w.nesting
  stat : ∀ {w}, holds w → ∃ info w', source.stat here w = (.ok info, w') ∧ other w w' ∧ holds w' ∧
    info.directory = true
  list : ∀ {w es}, holds w → S es = some .directory → ∃ infos w',
    source.list (ofReduced false es) w = (.ok infos, w') ∧ other w w' ∧ holds w' ∧ S.Lists es (infos.map Info.fact)
  openFile : ∀ {w es data}, holds w → S es = some (.file data) → ∃ f unread w',
    source.openFile (ofReduced false es) w = (.ok f, w') ∧ other w w' ∧ unread data w' ∧
      Drains mine other f unread holds

/-- A filesystem fills free ways and takes files where nothing stands, as long as its part of the world stays, and
leaves the other part. -/
structure Accepts (mine other : World → World → Prop) (dest : Filesystem) (fits : List Text → Prop)
    (shows : Scene → World → Prop) : Prop where
  canWrite : dest.members.canWrite = true
  steady : ∀ {T w w'}, shows T w → mine w w' → shows T w'
  mkdirAll : ∀ {T w es mode bits}, shows T w → T.Linked → Names es → fits es → Mode.permissions mode = .ok bits →
    ¬T.Blocked es → ∃ w', dest.mkdirAll (ofReduced false es) mode w = (.ok (), w') ∧ other w w' ∧
      shows (T.filled es) w'
  create : ∀ {T w es e mode bits}, shows T w → T.Linked → Names (es ++ [e]) → fits (es ++ [e]) →
    Mode.permissions mode = .ok bits → ¬T.Blocked es → T (es ++ [e]) = none →
    ∃ f got w', dest.create (ofReduced false (es ++ [e])) mode w = (.ok f, w') ∧ other w w' ∧ got [] w' ∧
      Fills mine other f got fun data => shows ((T.filled es).put (es ++ [e]) (.file data))

/-- The mode that an entry is copied with can be looked at. -/
theorem permissions_copyMode (info : Info) : ∃ bits, Mode.permissions (Filesystem.copyMode info) = .ok bits := by
  rw [Filesystem.copyMode]
  split
  · exact ⟨Mode.standard, rfl⟩
  · exact ⟨_, Mode.permissions_permissionBits info.mode⟩

/-- Wherever a row is awaited, a walk ends well and lets what is shown go on to all that is at and below the row. -/
def Brings (holds : World → Prop) (shows : Scene → World → Prop) (S : Scene) (es : List Text)
    (walk : StateM World Trace) : Prop :=
  ∀ (p : List Text → Prop) [DecidablePred p] (w : World), Scene.Awaits p es → holds w → shows (S.only p) w →
    ∃ t w', walk w = (t, w') ∧ t.outcome = .ok () ∧ holds w' ∧ shows (S.only fun row => p row ∨ es <+: row) w'

section
variable {fits : List Text → Prop} {holds : World → Prop} {shows : Scene → World → Prop}
  (gives : Gives mine other source S holds) (accepts : Accepts other mine dest fits shows)
include gives accepts

/-- A file is copied to where nothing stands, at the end of a free way. -/
theorem copied_file (file : S (es ++ [e]) = some (.file data)) (linked : T.Linked) (names : Names (es ++ [e]))
    (fit : fits (es ++ [e])) (free : ¬T.Blocked es) (missing : T (es ++ [e]) = none)
    (allowed : Mode.permissions mode = .ok bits) (held : holds w) (shown : shows T w) :
    ∃ w', Filesystem.copyFile dest source (ofReduced false (es ++ [e])) mode w = (.ok (), w') ∧ holds w' ∧
      shows ((T.filled es).put (es ++ [e]) (.file data)) w' := by
  obtain ⟨f, unread, w₁, opened, aside₁, reader, drains⟩ := gives.openFile held file
  obtain ⟨g, got, w₂, created, aside₂, writer, fills⟩ :=
    accepts.create (accepts.steady shown aside₁) linked names fit allowed free missing
  have reader₂ := drains.steady reader aside₂
  obtain ⟨w₃, poured, reader₃, writer₃⟩ :=
    poured_into drains fills reader₂ writer (Nat.lt_succ_of_le (drains.held reader₂))
  obtain ⟨w₄, closed, aside₄, shown₄⟩ := fills.close writer₃
  obtain ⟨w₅, closed', aside₅, held₅⟩ := drains.close (drains.steady reader₃ aside₄)
  refine ⟨w₅, ?_, held₅, accepts.steady shown₄ aside₅⟩
  have inner : (do Filesystem.pour f g ((← get).extent + 1) : Action Unit) w₂ = (.ok (), w₃) := poured
  have body : (do
      let writer ← dest.create (ofReduced false (es ++ [e])) mode
      Action.ensuring (do Filesystem.pour f writer ((← get).extent + 1)) writer.close : Action Unit) w₁ =
        (.ok (), w₄) := by
    rw [Action.bind_eq, created]
    dsimp only
    rw [Action.ensuring_eq, inner]
    dsimp only
    rw [closed]
    rfl
  rw [Filesystem.copyFile, Filesystem.withFile, Action.bind_eq, opened]
  dsimp only
  rw [Action.ensuring_eq, body]
  dsimp only
  rw [closed']
  rfl

/-- An entry is copied: what the destination shows goes on to its row. -/
theorem visited_scene {p : List Text → Prop} [DecidablePred p] {item : Item} (linked : S.Linked)
    (fitting : ∀ es, S es ≠ none → fits es) (awaits : Scene.Awaits p es) (there : S es = some item)
    (kind : info.directory = (item.fact info.name).directory) (held : holds w) (shown : shows (S.only p) w) :
    ∃ w', Filesystem.copyEntry dest source (ofReduced false es) info w = (.ok (), w') ∧ holds w' ∧
      shows (S.only fun row => p row ∨ row = es) w' := by
  have names := linked.named there
  have fit := fitting es (by simp [there])
  have part := linked.only awaits.up
  obtain ⟨bits, allowed⟩ := permissions_copyMode info
  cases item with
  | directory =>
    have directory : info.directory = true := kind
    obtain ⟨w', made, aside, shown'⟩ :=
      accepts.mkdirAll shown part names fit allowed (Scene.free_only (linked.free there))
    rw [linked.only_filled there awaits.above] at shown'
    exact ⟨w', by rw [Filesystem.copyEntry, if_pos directory, made], gives.steady held aside, shown'⟩
  | file data =>
    have file : info.directory = false := kind
    rcases List.eq_nil_or_concat' es with rfl | ⟨front, e, rfl⟩
    · exact absurd there (linked.top data)
    · have inside : p front := awaits.above front (List.prefix_append ..) (by simp)
      have above := linked.up there
      have missing : S.only p (front ++ [e]) = none :=
        if_neg fun reached => absurd (awaits.clear _ reached (List.prefix_refl _)) (by simp)
      obtain ⟨w', copied, held', shown'⟩ := copied_file gives accepts there part names fit
        (Scene.free_only (linked.free above)) missing allowed held shown
      have way : S.only p front ≠ none := by rw [Scene.only, if_pos inside, above]; simp
      rw [part.filled_eq way, Scene.only_put there] at shown'
      exact ⟨w', by rw [Filesystem.copyEntry, if_neg (by simp [file])]; exact copied, held', shown'⟩

omit gives accepts in
/-- Walks from the rows in a directory, one after the other: what is shown goes on to all that is at and below them. -/
theorem sequence_scene {walk : Info → StateM World Trace} {l : List Info} {p : List Text → Prop} [DecidablePred p]
    (each : ∀ child ∈ l, Brings holds shows S (es ++ [child.name]) (walk child))
    (distinct : (l.map (·.name)).Nodup) (awaits : ∀ child ∈ l, Scene.Awaits p (es ++ [child.name])) (held : holds w)
    (shown : shows (S.only p) w) :
    ∃ t w', Trace.sequence walk l w = (t, w') ∧ t.outcome = .ok () ∧ holds w' ∧
      shows (S.only fun row => p row ∨ ∃ child ∈ l, es ++ [child.name] <+: row) w' := by
  induction l generalizing p w with
  | nil =>
    refine ⟨{}, w, rfl, rfl, held, ?_⟩
    have same : S.only (fun row => p row ∨ ∃ child ∈ [], es ++ [Info.name child] <+: row) = S.only p :=
      Scene.only_congr fun row _ => by simp
    rwa [same]
  | cons a l ih =>
    obtain ⟨other, rest⟩ := List.nodup_cons.1 distinct
    obtain ⟨t, w₁, walked, ended, held₁, shown₁⟩ :=
      each a (List.mem_cons_self ..) p w (awaits a (List.mem_cons_self ..)) held shown
    have later : ∀ child ∈ l, Scene.Awaits (fun row => p row ∨ es ++ [a.name] <+: row) (es ++ [child.name]) := by
      intro child member
      refine (awaits child (List.mem_cons_of_mem a member)).beside fun same => other ?_
      exact List.mem_map.2 ⟨child, member, same.symm⟩
    obtain ⟨t', w₂, walked', ended', held₂, shown₂⟩ :=
      ih (fun child member => each child (List.mem_cons_of_mem a member)) rest later held₁ shown₁
    refine ⟨⟨t.visited ++ t'.visited, t'.outcome⟩, w₂, ?_, ended', held₂, ?_⟩
    · rw [Trace.sequence, bind_apply, walked]
      dsimp only
      rw [ended]
      dsimp only [bind_apply]
      rw [walked']
      rfl
    · have same : S.only (fun row => (p row ∨ es ++ [a.name] <+: row) ∨ ∃ child ∈ l, es ++ [child.name] <+: row) =
          S.only fun row => p row ∨ ∃ child ∈ a :: l, es ++ [child.name] <+: row :=
        Scene.only_congr fun row _ => by simp [or_assoc]
      rwa [same] at shown₂

/-- **A walk that copies lets what is shown go on to all that is at and below its row.** -/
theorem walked_scene {item : Item} {depth : Nat} (linked : S.Linked) (fitting : ∀ es, S es ≠ none → fits es)
    (there : S es = some item) (kind : info.directory = (item.fact info.name).directory)
    (deep : ∀ row, S row ≠ none → row.length < depth + es.length) :
    Brings holds shows S es (source.walkTree (Filesystem.copyEntry dest source) depth (ofReduced false es) info) := by
  induction depth generalizing es item info with
  | zero => exact absurd (deep es (by simp [there])) (by omega)
  | succ depth ih =>
    intro p _ w awaits held shown
    obtain ⟨w₁, visited, held₁, shown₁⟩ :=
      visited_scene gives accepts linked fitting awaits there kind held shown
    rw [Filesystem.walkTree_succ, visited]
    dsimp only
    cases item with
    | file data =>
      have file : info.directory = false := kind
      have same : S.only (fun row => p row ∨ row = es) = S.only fun row => p row ∨ es <+: row :=
        Scene.only_congr fun row present => or_congr_right (linked.below_file there present).symm
      rw [if_neg (by simp [file])]
      exact ⟨_, w₁, rfl, rfl, held₁, same ▸ shown₁⟩
    | directory =>
      have directory : info.directory = true := kind
      obtain ⟨infos, w₂, listed, aside, held₂, lists⟩ := gives.list held₁ there
      have shown₂ := accepts.steady shown₁ aside
      have told {child : Info} (member : child ∈ infos) :
          ∃ item, S (es ++ [child.name]) = some item ∧ child.directory = (item.fact child.name).directory := by
        obtain ⟨item, found, same⟩ := (lists.members child.fact).1 (List.mem_map_of_mem member)
        exact ⟨item, found, congrArg Fact.directory same⟩
      have distinct : (infos.map (·.name)).Nodup := by
        have each := lists.distinct
        rwa [List.map_map] at each
      have each : ∀ child ∈ infos, Brings holds shows S (es ++ [child.name])
          (source.walkTree (Filesystem.copyEntry dest source) depth (Path.child (ofReduced false es) child.name)
            child) := by
        intro child member
        obtain ⟨item, found, kind⟩ := told member
        rw [child_ofReduced (linked.named found)]
        refine ih found kind fun row present => ?_
        have short := deep row present
        rw [List.length_append, List.length_singleton]
        omega
      obtain ⟨t, w₃, walked, ended, held₃, shown₃⟩ :=
        sequence_scene each distinct (fun child _ => awaits.inner child.name) held₂ shown₂
      rw [if_pos directory, listed]
      dsimp only
      rw [walked]
      refine ⟨_, w₃, rfl, ended, held₃, ?_⟩
      have same : S.only (fun row => (p row ∨ row = es) ∨ ∃ child ∈ infos, es ++ [child.name] <+: row) =
          S.only fun row => p row ∨ es <+: row := by
        refine Scene.only_congr fun row present => ?_
        simp only [or_assoc, lists.below linked present, List.mem_map, exists_exists_and_eq_and]
        rfl
      rwa [same] at shown₃

/-- **A copy of the whole to a filesystem with nothing in it leaves the scene there.** -/
theorem copied_scene (linked : S.Linked) (fitting : ∀ es, S es ≠ none → fits es) (top : S [] = some .directory)
    (held : holds w) (shown : shows .empty w) :
    (dest.copy source here w).1.outcome = .ok () ∧ holds (dest.copy source here w).2 ∧
      shows S (dest.copy source here w).2 := by
  have begun : S.only (· = []) = .empty := by
    funext row
    by_cases root : row = []
    · rw [Scene.only, if_pos root, root, top]
      rfl
    · rw [Scene.only, if_neg root, Scene.empty, if_neg root]
  have whole : S.only (fun row => row = [] ∨ [] <+: row) = S := by
    funext row
    exact if_pos (.inr (List.nil_prefix ..))
  have awaits : Scene.Awaits (· = []) [] := by
    refine ⟨fun es e same => absurd same (by simp), fun front behind other => ?_, fun row same _ => same⟩
    exact List.prefix_nil.1 behind
  obtain ⟨info, w₁, told, aside, held₁, kind⟩ := gives.stat held
  have deep : ∀ row, S row ≠ none → row.length < Filesystem.spareLevels + w₁.nesting + ([] : List Text).length := by
    intro row present
    have short := gives.deep held₁ present
    have spare : 0 < Filesystem.spareLevels := by decide
    omega
  rw [← begun] at shown
  obtain ⟨t, w₂, walked, ended, held₂, shown₂⟩ := walked_scene gives accepts linked fitting top kind deep _ _ awaits
    held₁ (accepts.steady shown aside)
  rw [whole] at shown₂
  have run : dest.copy source here w = (⟨Filesystem.copyLog here t, t.outcome⟩, w₂) := by
    rw [Filesystem.copy, if_pos accepts.canWrite, bind_apply, Filesystem.walkWith_eq, told]
    dsimp only
    have root : here = ofReduced false [] := rfl
    rw [root, walked]
    rfl
  rw [run]
  exact ⟨ended, held₂, shown₂⟩

end

end Vfs
