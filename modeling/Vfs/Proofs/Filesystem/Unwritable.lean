import Vfs.Filesystem.Copy
import Vfs.Proofs.Filesystem.Enumeration

/-!
# Copying to what cannot be written

A filesystem that cannot be written is refused as the destination of a copy before anything is read. Behind a layer
that forwards to it, it is not: the layer has every member, those for changes included, but makes a directory by
doing nothing and refuses to create a file (`Hollow`), and so does every further layer. A copy to it goes through the
directories of its source as if it made them, and is refused at the first file; if there is none it ends well, and
nothing was copied (`copy_unwritable`).
-/

namespace Vfs
set_option autoImplicit false
open Memory Vfs.Path Session

/-! ## Layers on what cannot be written -/

/-- What has the members to be written, but makes a directory by doing nothing and refuses to create a file. -/
structure Hollow (fs : Filesystem) : Prop where
  writable : fs.members.canWrite = true
  mkdirAll : fs.members.mkdirAll? = some fun _ _ => pure ()
  create : fs.members.create? = some fun name _ => missingOperation "CreateFile" name

variable {fs dest : Filesystem}

theorem hollow_delegate (unwritable : fs.members.canWrite = false) (id : Nat) :
    Hollow (.ofFunctions id fs.delegate) where
  writable := rfl
  mkdirAll := by simp only [Filesystem.ofFunctions, Filesystem.delegate, unwritable]; rfl
  create := by simp only [Filesystem.ofFunctions, Filesystem.delegate, unwritable]; rfl

theorem Hollow.delegate (hollow : Hollow fs) (id : Nat) : Hollow (.ofFunctions id fs.delegate) where
  writable := rfl
  mkdirAll := by
    simp only [Filesystem.ofFunctions, Filesystem.delegate, hollow.writable, hollow.mkdirAll]
    rfl
  create := by
    simp only [Filesystem.ofFunctions, Filesystem.delegate, hollow.writable, hollow.create]
    rfl

/-- Any number of layers is as good as one. -/
theorem hollow_layered (unwritable : fs.members.canWrite = false) {layers : List Nat} (hne : layers ≠ []) :
    Hollow (layered fs layers) := by
  induction layers with
  | nil => exact absurd rfl hne
  | cons id layers ih =>
    cases layers with
    | nil => exact hollow_delegate unwritable id
    | cons id' layers => exact (ih (List.cons_ne_nil id' layers)).delegate id

/-! ## One entry -/

section
variable (hollow : Hollow dest)
include hollow

theorem Hollow.mkdirAll_eq (dir : Text) (mode : Int) : dest.mkdirAll dir mode = pure () := by
  simp only [Filesystem.mkdirAll, hollow.writable, hollow.mkdirAll]

theorem Hollow.create_eq (name : Text) (mode : Int) : dest.create name mode = missingOperation "CreateFile" name := by
  simp only [Filesystem.create, hollow.writable, hollow.create]

/-- A file is opened and closed again, since it cannot be created. -/
theorem Hollow.copyFile (view : View) {name : Text} {k : Text} {e : Entry} {w : World}
    (located : locate view.root (w.volume view.volume).store name = .ok (k, e)) (id : Nat) (mode : Int) :
    (Filesystem.copyFile dest (filesystem id view) name mode w).1 =
        .error (Fault.notImplemented.at "CreateFile".text name) ∧
      (Filesystem.copyFile dest (filesystem id view) name mode w).2.volumes = w.volumes := by
  rw [Filesystem.copyFile, withFile_eq rfl]
  refine withFile_opener 0 (fun fault refused => ?_) fun k' e' located' => ?_
  · rw [located] at refused
    cases refused
  · refine ⟨(newFile (handleOn view name e') w).2, ?_, rfl, ?_⟩
    · rw [hollow.create_eq]
      rfl
    · rw [handle_newFile]
      exact (handleOn_fresh view name e').2.2.1

end

/-! ## The walk of the source -/

/-- How a copy ends that makes no directory and creates no file, with no volume changed: well, if there is no file at
or below the name, and refused at the first file otherwise. -/
inductive EndsAtFile (src : View) (name : Text) (home : World) : CopyReport × World → Prop where
  | through {log : List (LogLevel × Text)} {w : World} :
      (∀ inner e, AtOrBelow name inner → src.stored? home inner = some e → e.directory = true) →
      w.volumes = home.volumes → EndsAtFile src name home (⟨log, .ok ()⟩, w)
  | refused {log : List (LogLevel × Text)} {w : World} {inner : Text} {e : Entry} :
      AtOrBelow name inner → src.stored? home inner = some e → e.directory = false →
      (∀ earlier o, AtOrBelow name earlier → src.stored? home earlier = some o → rowOf earlier < rowOf inner →
        o.directory = true) →
      w.volumes = home.volumes →
      EndsAtFile src name home (⟨log, .error (Fault.notImplemented.at "CreateFile".text inner)⟩, w)

/-- The rows that a copy went through are directories, and no volume is changed. -/
structure Passes (home : World) (n : Nat) (as : List Text) (front : List (List Text)) (w : World) : Prop where
  volumes : w.volumes = home.volumes
  directories : ∀ row ∈ front, IsDirectory (home.volume n).store (ofReduced true (as ++ row))

/-- A copy that only passed directories was refused at a file. -/
structure RefusedAt (home : World) (n : Nat) (as : List Text) (front : List (List Text)) (bs : List Text)
    (fault : Error) (w : World) : Prop where
  passed : Passes home n as front w
  file : ∃ e, (home.volume n).store.get? (ofReduced true (as ++ bs)) = some e ∧ e.directory = false
  fault : fault = Fault.notImplemented.at "CreateFile".text (ofReduced false bs)

variable {home w : World} {n : Nat} {as rs : List Text} {e : Entry}

theorem errand_hollow (hollow : Hollow dest) (footing : Footing home n as rs e) (id : Nat) :
    Errand (filesystem id ⟨n, ofReduced true as⟩)
      (Filesystem.copyEntry dest (filesystem id ⟨n, ofReduced true as⟩)) home n as (walkOrder home n as rs)
      (Passes home n as) (RefusedAt home n as) where
  visits := by
    intro front bs back e w split found passes
    have row := (footing.row split).1
    have kind : (describe ⟨n, ofReduced true as⟩ (ofReduced true (as ++ bs), e) home).directory = e.directory := rfl
    rw [Filesystem.copyEntry, kind]
    cases directory : e.directory with
    | true =>
      rw [if_pos rfl, hollow.mkdirAll_eq]
      refine .ok ⟨passes.volumes, fun row member => ?_⟩
      rcases List.mem_append.1 member with before | last
      · exact passes.directories row before
      · rw [List.mem_singleton.1 last]
        exact ⟨e, found, directory⟩
    | false =>
      have located : locate (ofReduced true as) (w.volume n).store (ofReduced false bs) =
          .ok (ofReduced true (as ++ bs), e) := locate_row row (by rw [volume_eq passes.volumes, found])
      rw [if_neg Bool.false_ne_true]
      generalize Filesystem.copyMode _ = mode
      have copied := hollow.copyFile ⟨n, ofReduced true as⟩ located id mode
      generalize Filesystem.copyFile dest _ (ofReduced false bs) mode w = x at copied ⊢
      obtain ⟨r, w'⟩ := x
      obtain ⟨rfl, left⟩ := copied
      exact .error ⟨⟨left.trans passes.volumes, passes.directories⟩, ⟨e, found, directory⟩, rfl⟩
  lists := by
    intro front bs back w split directory passes
    obtain ⟨infos, listed⟩ := (footing.row split).2 directory
    have asked : (filesystem id ⟨n, ofReduced true as⟩).list (ofReduced false bs) w = (.ok infos, w) := by
      rw [← listed, ← listing_eq passes.volumes]
      rfl
    rw [asked]
    exact .ok ⟨listed, passes⟩

section
variable (footing : Footing home n as rs e) (linked : Linked (home.volume n).store)
include footing linked

/-- What is stored at or below the first name is in a row of the order. -/
theorem row_of_stored {inner : Text} {o : Entry} (below : AtOrBelow (ofReduced false rs) inner)
    (found : View.stored? ⟨n, ofReduced true as⟩ home inner = some o) :
    ∃ bs, Names bs ∧ inner = ofReduced false bs ∧ bs ∈ walkOrder home n as rs ∧
      (home.volume n).store.get? (ofReduced true (as ++ bs)) = some o := by
  obtain ⟨ha, hr⟩ := names_append.1 footing.names
  obtain ⟨bs, hb, rfl⟩ := isValid_iff_names.1 (isValid_of_stored found)
  have row : Names (as ++ bs) := names_append.2 ⟨ha, hb⟩
  rw [stored?_row row] at found
  exact ⟨bs, hb, rfl, (footing.mem_order linked).2
    ⟨(atOrBelow_iff hr hb).1 below, row, by rw [found, Option.isSome_some]⟩, found⟩

theorem ends_passed (passes : Passes home n as (walkOrder home n as rs) w) (log : List (LogLevel × Text)) :
    EndsAtFile ⟨n, ofReduced true as⟩ (ofReduced false rs) home (⟨log, .ok ()⟩, w) := by
  refine .through (fun inner o below found => ?_) passes.volumes
  obtain ⟨bs, -, -, member, found⟩ := row_of_stored footing linked below found
  obtain ⟨d, there, kind⟩ := passes.directories bs member
  rw [found] at there
  exact Option.some.inj there ▸ kind

theorem ends_refused {before after : List (List Text)} {bs : List Text} {fault : Error}
    (order : walkOrder home n as rs = before ++ bs :: after) (refused : RefusedAt home n as before bs fault w)
    (log : List (LogLevel × Text)) :
    EndsAtFile ⟨n, ofReduced true as⟩ (ofReduced false rs) home (⟨log, .error fault⟩, w) := by
  obtain ⟨passes, ⟨e', file, kind⟩, rfl⟩ := refused
  have member : bs ∈ walkOrder home n as rs := by
    rw [order]
    exact List.mem_append_right _ (List.mem_cons_self ..)
  have row := (footing.row order).1
  obtain ⟨-, hb⟩ := names_append.1 row
  refine .refused ((atOrBelow_iff (names_append.1 footing.names).2 hb).2 (isPrefix_of_mem_preorder member))
    (by rw [stored?_row row, file]) kind (fun earlier o below found first => ?_) passes.volumes
  obtain ⟨cs, hc, rfl, inside, found⟩ := row_of_stored footing linked below found
  rw [rowOf_ofReduced hc, rowOf_ofReduced hb] at first
  -- A row that comes before the one that stopped was gone through.
  have sorted := footing.sorted
  rw [order] at sorted inside
  have passed : cs ∈ before := by
    rcases List.mem_append.1 inside with front | back
    · exact front
    · rcases List.mem_cons.1 back with rfl | later
      · exact absurd first (List.lt_irrefl cs)
      · exact absurd ((List.pairwise_cons.1 (List.pairwise_append.1 sorted).2.1).1 cs later) (List.lt_asymm first)
  obtain ⟨d, there, kind'⟩ := passes.directories cs passed
  rw [found] at there
  exact Option.some.inj there ▸ kind'

theorem copy_hollow (hollow : Hollow dest) (id : Nat) :
    EndsAtFile ⟨n, ofReduced true as⟩ (ofReduced false rs) home
      (dest.copy (filesystem id ⟨n, ofReduced true as⟩) (ofReduced false rs) home) := by
  have run : dest.copy (filesystem id ⟨n, ofReduced true as⟩) (ofReduced false rs) home =
      let walk := (filesystem id ⟨n, ofReduced true as⟩).walkWith
        (Filesystem.copyEntry dest (filesystem id ⟨n, ofReduced true as⟩)) (ofReduced false rs) home
      (⟨Filesystem.copyLog (ofReduced false rs) walk.1, walk.1.outcome⟩, walk.2) := by
    rw [Filesystem.copy, if_pos hollow.writable]
    rfl
  have begun : Passes home n as [] home := ⟨rfl, fun row member => absurd member List.not_mem_nil⟩
  have told : Comes (fun info w => info = describe ⟨n, ofReduced true as⟩ (ofReduced true (as ++ rs), e) home ∧
      Passes home n as [] w) (RefusedAt home n as [] rs)
      ((filesystem id ⟨n, ofReduced true as⟩).stat (ofReduced false rs) home) := by
    have asked : (filesystem id ⟨n, ofReduced true as⟩).stat (ofReduced false rs) home =
        stat ⟨n, ofReduced true as⟩ (ofReduced false rs) home := rfl
    rw [asked, stat_row footing.names footing.stored]
    exact .ok ⟨rfl, begun⟩
  have ended := walked (errand_hollow hollow footing id) footing (fun w passes => volume_eq passes.volumes n) told
  rw [run]
  generalize (filesystem id ⟨n, ofReduced true as⟩).walkWith _ (ofReduced false rs) home = x at ended ⊢
  cases ended with
  | untold refused =>
    obtain ⟨rest, order⟩ := walkOrder_cons home n as rs
    rw [← List.nil_append (rs :: rest)] at order
    exact ends_refused footing linked order refused _
  | went went =>
    cases went with
    | through done _ passes =>
      dsimp only
      rw [done]
      exact ends_passed footing linked passes _
    | stopped order _ failed refused =>
      dsimp only
      rw [failed]
      exact ends_refused footing linked order refused _

end

/-! ## Any number of layers -/

/-- **What cannot be written is refused by a copy, but behind layers only at the first file**: from any view of a
filesystem in memory that orderly calls have reached, and any name that is stored. With no layer the copy does
nothing. Behind one or more it fails if there is a file at or below the name, and if there is none it ends well; in
neither case a volume is changed. -/
theorem copy_unwritable (unwritable : fs.members.canWrite = false) {s : Session} (reached : Reached s) {w : World}
    {n : Nat} (left : (w.volume n).store = s.store) {v : Nat} {name : Text}
    (stored : (View.stored? ⟨n, s.root v⟩ w name).isSome = true) (id : Nat) :
    fs.copy (filesystem id ⟨n, s.root v⟩) name w =
        (⟨[], .error (Fault.notImplemented.at "CopyFS".text name)⟩, w) ∧
      ∀ layers, layers ≠ [] →
        EndsAtFile ⟨n, s.root v⟩ name w ((layered fs layers).copy (filesystem id ⟨n, s.root v⟩) name w) := by
  constructor
  · rw [Filesystem.copy, if_neg (by rw [unwritable]; exact Bool.false_ne_true)]
    rfl
  · intro layers hne
    obtain ⟨wired, sound, tree⟩ := invariant_reached reached
    obtain ⟨as, ha, root⟩ := (wired.root v).names
    rw [← left] at sound tree
    rw [root] at stored ⊢
    obtain ⟨e, found⟩ := Option.isSome_iff_exists.1 stored
    obtain ⟨rs, hr, rfl⟩ := isValid_iff_names.1 (isValid_of_stored found)
    have names : Names (as ++ rs) := names_append.2 ⟨ha, hr⟩
    rw [stored?_row names] at found
    have footing : Footing w n as rs e := ⟨sound, tree.labelled.under _, names, found⟩
    exact copy_hollow footing tree.linked (hollow_layered unwritable hne) id

/-- The calls of a session that writes a file behind a directory that is empty. -/
def behindCalls : List Call := [.on 0 (.mkdirAll "a".text 0o777), .on 0 (.write "b/f".text [104, 105] 0o644)]

theorem copy_unwritable_behind :
    (Filesystem.opener 0 (some (filesystem 0 ⟨0, [.char '/']⟩).openFile)).members.canWrite = false ∧
      Reached (start.after behindCalls) ∧
      (View.stored? ⟨0, (start.after behindCalls).root 0⟩ (start.after behindCalls).world here).isSome = true ∧
      (Filesystem.opener 0 (some (filesystem 0 ⟨0, [.char '/']⟩).openFile)).copy
          (filesystem 0 ⟨0, (start.after behindCalls).root 0⟩) here (start.after behindCalls).world =
        (⟨[], .error (Fault.notImplemented.at "CopyFS".text here)⟩, (start.after behindCalls).world) ∧
      EndsAtFile ⟨0, (start.after behindCalls).root 0⟩ here (start.after behindCalls).world
        ((layered (.opener 0 (some (filesystem 0 ⟨0, [.char '/']⟩).openFile)) [1, 2]).copy
          (filesystem 0 ⟨0, (start.after behindCalls).root 0⟩) here (start.after behindCalls).world) := by
  have made := Reached.call (.on 0 (.mkdirAll "a".text 0o777)) .start (.inl rfl)
  have reached : Reached (start.after behindCalls) :=
    .call (.on 0 (.write "b/f".text [104, 105] 0o644)) made (.inl rfl)
  have stored : (View.stored? ⟨0, (start.after behindCalls).root 0⟩ (start.after behindCalls).world here).isSome =
      true := by decide +kernel
  obtain ⟨bare, wrapped⟩ :=
    @copy_unwritable (.opener 0 (some (filesystem 0 ⟨0, [.char '/']⟩).openFile)) rfl _ reached _ 0 rfl
    0 here stored 0
  exact ⟨rfl, reached, stored, bare, wrapped [1, 2] (List.cons_ne_nil 1 [2])⟩

/-- A tree of directories alone is copied, as it seems, to what cannot be written. -/
theorem not_copy_refused :
    ¬∀ (fs : Filesystem), fs.members.canWrite = false → ∀ (s : Session), Reached s → ∀ (w : World) (n : Nat),
      (w.volume n).store = s.store → ∀ (v : Nat) (name : Text),
      (View.stored? ⟨n, s.root v⟩ w name).isSome = true → ∀ (id : Nat) (layers : List Nat),
      ∃ operation target, ((layered fs layers).copy (filesystem id ⟨n, s.root v⟩) name w).1.outcome =
        .error (Fault.notImplemented.at operation target) := by
  intro refused
  obtain ⟨operation, target, failed⟩ := refused (.opener 0 (some (filesystem 0 ⟨0, [.char '/']⟩).openFile)) rfl nested
    reached_nested nested.world 0 rfl 0 here (by decide +kernel) 0 [1]
  have ended : ((layered (.opener 0 (some (filesystem 0 ⟨0, [.char '/']⟩).openFile)) [1]).copy
      (filesystem 0 ⟨0, nested.root 0⟩) here nested.world).1.outcome.toBool = true := by decide +kernel
  rw [failed] at ended
  cases ended

end Vfs
