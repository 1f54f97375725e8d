import Vfs.Proofs.Filesystem.Copying

/-!
# What a copy makes

A copy to a new filesystem reproduces the tree at a name: the entries at and below the name with their kinds, contents
and permission bits, the directories above it, and nothing else; once more, it changes nothing (`copy_reproduces`).
A copy to a filesystem that has entries already makes the files there hold what the source holds (`copy_overwrites`),
except that a file without content does not replace what is there (`not_copy_replaces`).
-/

namespace Vfs.Memory
set_option autoImplicit false
open Vfs.Path Session

variable {w w' : World} {n m : Nat} {as bs ds rs : List Text} {name inner : Text} {src dest : View} {e : Entry}

/-! ## Copying to a new filesystem -/

/-- After a copy from `src` in `w`, the view `dest` in `w'` has the tree at `name` and what is above it. -/
structure Reproduced (src dest : View) (name : Text) (w w' : World) : Prop where
  names : ∀ inner, (dest.stored? w' inner).isSome = true ↔ inner = here ∨ AtOrBelow inner name ∧ inner ≠ name ∨
    AtOrBelow name inner ∧ (src.stored? w inner).isSome = true
  above : ∀ inner, AtOrBelow inner name → inner ≠ name →
    ∃ d, dest.stored? w' inner = some d ∧ d.directory = true
  entries : ∀ inner e, AtOrBelow name inner → src.stored? w inner = some e →
    ∃ e', dest.stored? w' inner = some e' ∧ e'.directory = e.directory ∧ e'.data = e.data ∧
      (inner ≠ here → Mode.permissionBits e'.mode = e.copyBits)
  source : w'.volume src.volume = w.volume src.volume

/-- A new filesystem has its root. -/
theorem firm_fresh : Firm (Volume.fresh [.char '/']).store [] where
  sound := sound_start
  labelled := tree_start.labelled
  linked := tree_start.linked
  names := names_nil
  root := ⟨.newDirectory here Mode.standard, rfl, rfl⟩

/-- And nothing else. -/
theorem get?_fresh (names : Names bs) (proper : bs ≠ []) :
    (Volume.fresh [.char '/']).store.get? (ofReduced true bs) = none := by
  rw [Volume.fresh, Store.get?_put, if_neg (ofReduced_ne_root names proper)]
  rfl

theorem fresh_only {o : Entry} (names : Names bs)
    (stored : (Volume.fresh [.char '/']).store.get? (ofReduced true bs) = some o) :
    bs = [] ∧ o = .newDirectory here Mode.standard := by
  by_cases top : bs = []
  · subst top
    exact ⟨rfl, (Option.some.inj stored).symm⟩
  · rw [get?_fresh names top] at stored
    cases stored

/-- Everything can be laid in a new filesystem. -/
theorem clear_fresh (firm : Firm (w.volume n).store as) (names : Names rs) :
    Clear (foundIn w n as) (Volume.fresh [.char '/']).store [] rs where
  way := by
    rintro front ⟨back, rfl⟩ - o stored
    rw [(fresh_only (names_append.1 names).1 stored).2]
    rfl
  kind := by
    rintro bs e o hb - found stored
    obtain ⟨rfl, rfl⟩ := fresh_only hb stored
    obtain ⟨d, there, directory⟩ := firm.root
    rw [foundIn, List.append_nil, there] at found
    rw [← Option.some.inj found, directory]
    rfl

/-- Entries depend on their volume only. -/
theorem stored?_congr (same : w'.volume src.volume = w.volume src.volume) (name : Text) :
    src.stored? w' name = src.stored? w name := by
  rw [View.stored?, same]
  rfl

section
variable {found : List Text → Option Entry} {done : List (List Text)} {t : Store Entry} {row : List Text}
  (spread : Spread found (Volume.fresh [.char '/']).store [] rs done t)
include spread

/-- What was laid in a new filesystem is what was found. -/
theorem laid_fresh (member : row ∈ done) :
    ∃ e e', found row = some e ∧ t.get? (ofReduced true row) = some e' ∧ e'.directory = e.directory ∧
      e'.data = e.data ∧ (row ≠ [] → Mode.permissionBits e'.mode = e.copyBits) := by
  obtain ⟨e, here, kind, stored⟩ := spread.laid row member
  have names := (spread.rows row member).1
  refine ⟨e, _, here, stored, Entry.directory_onto kind, ?_, fun proper => ?_⟩
  · rw [Entry.data_onto]
    split
    · next empty =>
      rw [empty]
      cases stood : (Volume.fresh [.char '/']).store.get? (ofReduced true ([] ++ row)) with
      | none => rfl
      | some o =>
        rw [(fresh_only names stood).2]
        rfl
    · rfl
  · rw [List.nil_append, get?_fresh names proper]
    exact e.permissionBits_onto_none _

theorem linked_fresh : Linked t := firm_fresh.linked.made firm_fresh.root spread.made

/-- The way to what was laid has directories. -/
theorem above_fresh (first : rs ∈ done) (ahead : row <+: rs) (proper : row ≠ rs) :
    IsDirectory t (ofReduced true row) :=
  (linked_fresh spread).ahead (spread.rows rs first).1 (spread.stored first) ahead proper

/-- Nothing stands in a new filesystem but its root, what was laid, and the way to it. -/
theorem stored_fresh (first : done ≠ [] → rs ∈ done) (names : Names row) :
    (t.get? (ofReduced true row)).isSome = true ↔
      row = [] ∨ row ∈ done ∨ done ≠ [] ∧ row <+: rs ∧ row ≠ rs := by
  constructor
  · intro present
    by_cases top : row = []
    · exact .inl top
    · rcases spread.new _ (get?_fresh names top) present with ⟨row', member, same⟩ | ⟨begun, front, ahead, same⟩
      · obtain rfl := ofReduced_inj names (spread.rows row' member).1 same
        exact .inr (.inl member)
      · have named := (spread.rows rs (first begun)).1
        obtain rfl := ofReduced_inj names (named.ahead ahead) same
        by_cases last : row = rs
        · exact .inr (.inl (last ▸ first begun))
        · exact .inr (.inr ⟨begun, ahead, last⟩)
  · rintro (rfl | member | ⟨begun, ahead, proper⟩)
    · obtain ⟨d, stored, -⟩ := spread.made.isDirectory firm_fresh.root
      exact Option.isSome_iff_exists.2 ⟨d, stored⟩
    · exact spread.stored member
    · obtain ⟨d, stored, -⟩ := above_fresh spread (first begun) ahead proper
      rw [stored, Option.isSome_some]

end

/-- What a view of a new filesystem has at a row. -/
theorem stored?_fresh {row : List Text} (names : Names row) :
    View.stored? ⟨m, [.char '/']⟩ w (ofReduced false row) = (w.volume m).store.get? (ofReduced true row) := by
  have whole : Names ([] ++ row) := names
  have top : [.char '/'] = ofReduced true [] := rfl
  rw [top, stored?_row whole, List.nil_append]

/-- What stands in a new filesystem when all rows were laid. -/
theorem reproduced (task : Task w n m as [] rs) (fresh : w.volume m = .fresh [.char '/'])
    (proceeds : Proceeds w n m as [] rs (walkOrder w n as rs) w') :
    Reproduced ⟨n, ofReduced true as⟩ ⟨m, [.char '/']⟩ (ofReduced false rs) w w' := by
  have spread := proceeds.spread
  rw [fresh] at spread
  have top {row : List Text} (names : Names row) : ofReduced false row = here ↔ row = [] :=
    ⟨fun same => ofReduced_inj names names_nil same, fun same => by rw [same]; rfl⟩
  constructor
  · intro inner
    by_cases valid : isValid inner = true
    · obtain ⟨row, names, rfl⟩ := isValid_iff_names.1 valid
      have apart : ofReduced false row ≠ ofReduced false rs ↔ row ≠ rs :=
        not_congr ⟨ofReduced_inj names task.named, congrArg _⟩
      rw [stored?_fresh names, stored_fresh spread (fun _ => task.first) names, top names,
        atOrBelow_iff names task.named, apart, ← task.copied_iff names, and_iff_right (List.ne_nil_of_mem task.first),
        Or.comm (a := row ∈ _)]
    · constructor
      · intro present
        obtain ⟨o, stored⟩ := Option.isSome_iff_exists.1 present
        exact absurd (isValid_of_stored stored) valid
      · rintro (rfl | ⟨up, -⟩ | ⟨down, -⟩)
        · exact absurd rfl valid
        · exact absurd up.1 valid
        · exact absurd down.isValid valid
  · intro inner up proper
    obtain ⟨row, names, rfl⟩ := isValid_iff_names.1 up.1
    rw [stored?_fresh names]
    exact above_fresh spread task.first ((atOrBelow_iff names task.named).1 up) fun same => proper (by rw [same])
  · intro inner e down found
    obtain ⟨row, names, rfl⟩ := isValid_iff_names.1 down.isValid
    have inside := (task.copied_iff names).2 ⟨down, by rw [found, Option.isSome_some]⟩
    obtain ⟨e', o, found', stored, kind, data, bits⟩ := laid_fresh spread inside
    rw [task.told names] at found
    obtain rfl := Option.some.inj (found.symm.trans found')
    refine ⟨o, (stored?_fresh names).trans stored, kind, data, fun proper => bits fun same => proper ?_⟩
    exact (top names).2 same
  · exact proceeds.source

/-- What copying the tree at a name of `src` to a new filesystem does, once and once more. -/
structure Reproduces (src : View) (name : Text) (w : World) (first second : CopyReport × World) : Prop where
  ends : first.1.outcome = .ok ()
  made : Reproduced src ⟨w.volumes.size, [.char '/']⟩ name w first.2
  endsAgain : second.1.outcome = .ok ()
  unchanged : ∀ k, (second.2.volume w.volumes.size).store.get? k = (first.2.volume w.volumes.size).store.get? k

/-- A tree of a view can be copied to a new filesystem. -/
theorem task_fresh {home : World} (rooted : Rooted w src) (there : (src.stored? w name).isSome = true)
    (opened : (newFilesystem [.char '/'] w).2 = home) :
    ∃ as rs, src.root = ofReduced true as ∧ name = ofReduced false rs ∧
      home.volume src.volume = w.volume src.volume ∧ home.volume w.volumes.size = .fresh [.char '/'] ∧
      Task home src.volume w.volumes.size as [] rs := by
  obtain ⟨n, root⟩ := src
  obtain ⟨as, rfl, firm⟩ := rooted.firm
  obtain ⟨e, found⟩ := Option.isSome_iff_exists.1 there
  obtain ⟨rs, names, rfl⟩ := isValid_iff_names.1 (isValid_of_stored found)
  have older : n < w.volumes.size := rooted.there
  have same : home.volume n = w.volume n := by
    simp [← opened, newFilesystem, World.volume, Array.getD_eq_getD_getElem?, Array.getElem?_push_lt older, older]
  have fresh : home.volume w.volumes.size = .fresh [.char '/'] := by simp [← opened, newFilesystem, World.volume]
  refine ⟨as, rs, rfl, rfl, same, fresh, Nat.ne_of_lt older, by simp [← opened, newFilesystem], same ▸ firm,
    fresh ▸ firm_fresh, names, ?_⟩
  rwa [stored?_row (names_append.2 ⟨firm.names, names⟩), ← same] at there

/-- **A copy to a new filesystem reproduces the tree**, and once more changes nothing. -/
theorem copy_reproduces (rooted : Rooted w src) (there : (src.stored? w name).isSome = true) (id : Nat) :
    ∃ dest w', newFilesystem [.char '/'] w = (.ok dest, w') ∧
      Reproduces src name w (dest.copy (filesystem id src) name w')
        (dest.copy (filesystem id src) name (dest.copy (filesystem id src) name w').2) := by
  obtain ⟨home, opened⟩ : ∃ home, (newFilesystem [.char '/'] w).2 = home := ⟨_, rfl⟩
  refine ⟨filesystem w.serial ⟨w.volumes.size, ofReduced true []⟩, home, by rw [← opened]; rfl, ?_⟩
  obtain ⟨as, rs, root, rfl, same, fresh, task⟩ := task_fresh rooted there opened
  obtain ⟨n, _⟩ := src
  obtain rfl := root
  have falters := falters_filesystem id ⟨n, ofReduced true as⟩
  have ended := task.ends_well falters w.serial (by rw [fresh]; exact clear_fresh task.source task.named)
  have proceeds := task.done falters w.serial ended
  obtain ⟨endedAgain, unchanged⟩ := task.again proceeds falters w.serial
  have made := reproduced task fresh proceeds
  have seen : ∀ inner, View.stored? ⟨n, ofReduced true as⟩ home inner = View.stored? ⟨n, ofReduced true as⟩ w inner :=
    stored?_congr same
  refine ⟨ended, ⟨fun inner => ?_, made.above, fun inner e => ?_, made.source.trans same⟩, endedAgain, unchanged⟩
  · rw [← seen]
    exact made.names inner
  · rw [← seen]
    exact made.entries inner e

/-- The calls of a session that writes two files in a tree, one of them without content. -/
def writtenCalls : List Call :=
  [.on 0 (.write "a/d/e".text [] 0o600), .on 0 (.write "a/f".text [104, 105] 0)]

theorem reached_written : Reached (start.after writtenCalls) := by
  have begun := Reached.call (.on 0 (.write "a/d/e".text [] 0o600)) .start (.inl rfl)
  exact .call (.on 0 (.write "a/f".text [104, 105] 0)) begun (.inl rfl)

theorem copy_reproduces_written :
    Rooted (start.after writtenCalls).world ⟨0, [.char '/']⟩ ∧
      (View.stored? ⟨0, [.char '/']⟩ (start.after writtenCalls).world "a".text).isSome = true ∧
      ∃ dest w', newFilesystem [.char '/'] (start.after writtenCalls).world = (.ok dest, w') ∧
        Reproduces ⟨0, [.char '/']⟩ "a".text (start.after writtenCalls).world
          (dest.copy (filesystem 0 ⟨0, [.char '/']⟩) "a".text w')
          (dest.copy (filesystem 0 ⟨0, [.char '/']⟩) "a".text
            (dest.copy (filesystem 0 ⟨0, [.char '/']⟩) "a".text w').2) := by
  have rooted : Rooted (start.after writtenCalls).world ⟨0, [.char '/']⟩ :=
    rooted_top reached_written rfl (by decide +kernel)
  have there : (View.stored? ⟨0, [.char '/']⟩ (start.after writtenCalls).world "a".text).isSome = true := by
    decide +kernel
  exact ⟨rooted, there, copy_reproduces rooted there 0⟩

/-! ## Copying to a filesystem that has entries -/

/-- What the view `dest` has after a copy from `src`, told by what both had before. A file without content leaves the
content of a file that stood where it goes. -/
structure Overwrites (src dest : View) (name : Text) (w w' : World) : Prop where
  files : ∀ inner data, AtOrBelow name inner → content src.root (w.volume src.volume).store inner = .ok data →
    content dest.root (w'.volume dest.volume).store inner =
      .ok (if data = [] then (content dest.root (w.volume dest.volume).store inner).toOption.getD [] else data)
  directories : ∀ inner e, AtOrBelow name inner → src.stored? w inner = some e → e.directory = true →
    ∃ d, dest.stored? w' inner = some d ∧ d.directory = true
  kept : ∀ inner o, dest.stored? w inner = some o → ¬(AtOrBelow name inner ∧ (src.stored? w inner).isSome = true) →
    dest.stored? w' inner = some o
  new : ∀ inner, dest.stored? w inner = none → (dest.stored? w' inner).isSome = true →
    AtOrBelow name inner ∧ (src.stored? w inner).isSome = true ∨ AtOrBelow inner name

section
variable {row : List Text} (task : Task w n m as ds rs)
  (proceeds : Proceeds w n m as ds rs (walkOrder w n as rs) w')
include task proceeds

/-- What was laid at a row, onto what stood there and is of its kind. -/
theorem laid_onto (names : Names row) (down : AtOrBelow (ofReduced false rs) (ofReduced false row))
    (found : foundIn w n as row = some e) :
    (∀ o, foundIn w m ds row = some o → o.directory = e.directory) ∧
      foundIn w' m ds row = some (e.onto (rootName (ofReduced true (ds ++ row))) (foundIn w m ds row)) := by
  have inside := (task.copied_iff names).2 ⟨down, by rw [task.told names, found, Option.isSome_some]⟩
  obtain ⟨e', found', kind, stored⟩ := proceeds.spread.laid row inside
  obtain rfl := Option.some.inj (found.symm.trans found')
  exact ⟨kind, stored⟩

/-- A file without content leaves the content that stood where it goes. -/
theorem content_laid (names : Names row) (down : AtOrBelow (ofReduced false rs) (ofReduced false row))
    (found : foundIn w n as row = some e) (file : e.directory = false) :
    content (ofReduced true ds) (w'.volume m).store (ofReduced false row) = .ok (if e.data = [] then
      (content (ofReduced true ds) (w.volume m).store (ofReduced false row)).toOption.getD [] else e.data) := by
  have whole := names_append.2 ⟨task.dest.names, names⟩
  obtain ⟨kind, stored⟩ := laid_onto task proceeds names down found
  rw [getD_content whole fun o stood => (kind o stood).trans file]
  exact (content_row whole).2 ⟨_, stored, (Entry.directory_onto kind).trans file, Entry.data_onto ..⟩

/-- What stands in the destination when all rows were laid. -/
theorem overwritten :
    Overwrites ⟨n, ofReduced true as⟩ ⟨m, ofReduced true ds⟩ (ofReduced false rs) w w' := by
  have spread := proceeds.spread
  -- A key that something was laid at is the key of a row that is copied.
  have copied {row row' : List Text} (names : Names row) (inside : row' ∈ walkOrder w n as rs)
      (same : ofReduced true (ds ++ row) = ofReduced true (ds ++ row')) :
      AtOrBelow (ofReduced false rs) (ofReduced false row) ∧
        (View.stored? ⟨n, ofReduced true as⟩ w (ofReduced false row)).isSome = true := by
    obtain rfl := ofReduced_append_inj task.dest.names names (spread.rows row' inside).1 same
    exact (task.copied_iff names).1 inside
  constructor
  · intro inner data down read
    obtain ⟨row, names, rfl⟩ := isValid_iff_names.1 down.isValid
    obtain ⟨e, found, file, rfl⟩ := (content_row (names_append.2 ⟨task.source.names, names⟩)).1 read
    exact content_laid task proceeds names down found file
  · intro inner e down found directory
    obtain ⟨row, names, rfl⟩ := isValid_iff_names.1 down.isValid
    obtain ⟨kind, stored⟩ := laid_onto task proceeds names down ((task.told names).symm.trans found)
    exact ⟨_, (task.stood w' names).trans stored, (Entry.directory_onto kind).trans directory⟩
  · intro inner o there beside
    obtain ⟨row, names, rfl⟩ := isValid_iff_names.1 (isValid_of_stored there)
    rw [task.stood w names] at there
    rw [task.stood w' names]
    exact spread.kept _ o there fun row' inside same => beside (copied names inside same)
  · intro inner missing present
    obtain ⟨o, there⟩ := Option.isSome_iff_exists.1 present
    obtain ⟨row, names, rfl⟩ := isValid_iff_names.1 (isValid_of_stored there)
    rw [task.stood w names] at missing
    rw [task.stood w' names] at present
    rcases spread.new _ missing present with ⟨row', inside, same⟩ | ⟨-, front, ahead, same⟩
    · exact .inl (copied names inside same)
    · obtain rfl := ofReduced_append_inj task.dest.names names (task.named.ahead ahead) same
      exact .inr ((atOrBelow_iff names task.named).2 ahead)

end

/-- **A copy that ends well makes what stands there hold what was copied**, but for files without content, and leaves
all else. -/
theorem copy_overwrites (apart : src.volume ≠ dest.volume) (rooted : Rooted w src) (rooted' : Rooted w dest)
    (there : (src.stored? w name).isSome = true) (id id' : Nat)
    (ended : ((filesystem id' dest).copy (filesystem id src) name w).1.outcome = .ok ()) :
    Overwrites src dest name w ((filesystem id' dest).copy (filesystem id src) name w).2 := by
  have home := rooted'.there
  obtain ⟨n, root⟩ := src
  obtain ⟨m, root'⟩ := dest
  obtain ⟨as, rfl, source⟩ := rooted.firm
  obtain ⟨ds, rfl, dest⟩ := rooted'.firm
  obtain ⟨e, found⟩ := Option.isSome_iff_exists.1 there
  obtain ⟨rs, names, rfl⟩ := isValid_iff_names.1 (isValid_of_stored found)
  rw [stored?_row (names_append.2 ⟨source.names, names⟩)] at there
  have task : Task w n m as ds rs := ⟨apart, home, source, dest, names, there⟩
  exact overwritten task (task.done (falters_filesystem id _) id' ended)

/-- Two filesystems in one world, as two sessions left them. -/
def beside (s t : Session) : World := { volumes := #[s.world.volume 0, t.world.volume 0] }

/-- The call of a session that writes one file. -/
def filledCalls (data : Bytes) : List Call := [.on 0 (.write "f".text data 0o640)]

theorem reached_filled (data : Bytes) : Reached (start.after (filledCalls data)) := .call _ .start (.inl rfl)

/-- The world of two filesystems with one file each. -/
def filled (data data' : Bytes) : World := beside (start.after (filledCalls data)) (start.after (filledCalls data'))

theorem copy_overwrites_filled :
    Rooted (filled [104, 105] [120]) ⟨0, [.char '/']⟩ ∧ Rooted (filled [104, 105] [120]) ⟨1, [.char '/']⟩ ∧
      ((filesystem 1 ⟨1, [.char '/']⟩).copy (filesystem 0 ⟨0, [.char '/']⟩) "f".text
        (filled [104, 105] [120])).1.outcome = .ok () ∧
      Overwrites ⟨0, [.char '/']⟩ ⟨1, [.char '/']⟩ "f".text (filled [104, 105] [120])
        ((filesystem 1 ⟨1, [.char '/']⟩).copy (filesystem 0 ⟨0, [.char '/']⟩) "f".text
          (filled [104, 105] [120])).2 := by
  have rooted : Rooted (filled [104, 105] [120]) ⟨0, [.char '/']⟩ :=
    rooted_top (reached_filled [104, 105]) rfl (by decide +kernel)
  have rooted' : Rooted (filled [104, 105] [120]) ⟨1, [.char '/']⟩ :=
    rooted_top (reached_filled [120]) rfl (by decide +kernel)
  have there : (View.stored? ⟨0, [.char '/']⟩ (filled [104, 105] [120]) "f".text).isSome = true := by decide +kernel
  have ended : ((filesystem 1 ⟨1, [.char '/']⟩).copy (filesystem 0 ⟨0, [.char '/']⟩) "f".text
      (filled [104, 105] [120])).1.outcome = .ok () := by decide +kernel
  exact ⟨rooted, rooted', ended, copy_overwrites (by decide) rooted rooted' there 0 1 ended⟩

/-- A file without content does not replace what is there. -/
theorem not_copy_replaces :
    ¬∀ (src dest : View) (w : World) (name inner : Text) (data : Bytes), src.volume ≠ dest.volume → Rooted w src →
      Rooted w dest → (src.stored? w name).isSome = true →
      ((filesystem 1 dest).copy (filesystem 0 src) name w).1.outcome = .ok () → AtOrBelow name inner →
      content src.root (w.volume src.volume).store inner = .ok data →
      content dest.root (((filesystem 1 dest).copy (filesystem 0 src) name w).2.volume dest.volume).store inner =
        .ok data := by
  intro replaces
  have rooted : Rooted (filled [] [120]) ⟨0, [.char '/']⟩ := rooted_top (reached_filled []) rfl (by decide +kernel)
  have rooted' : Rooted (filled [] [120]) ⟨1, [.char '/']⟩ := rooted_top (reached_filled [120]) rfl (by decide +kernel)
  have itself : AtOrBelow "f".text "f".text := ⟨by decide, here, by decide, by decide⟩
  have copied :=
    replaces ⟨0, [.char '/']⟩ ⟨1, [.char '/']⟩ (filled [] [120]) "f".text "f".text [] (by decide) rooted rooted'
    (by decide +kernel) (by decide +kernel) itself (by decide +kernel)
  revert copied
  decide +kernel

end Vfs.Memory
