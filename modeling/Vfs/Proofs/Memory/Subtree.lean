import Vfs.Proofs.Memory.Session
import Vfs.Proofs.Store.Subtree

/-!
# Steps that stay among some keys

A step of a store stays among some keys when what it answers, and what it leaves under these keys, depends on what
is stored under them alone, and it touches no other key (`StaysIn`). Looking a key up and putting an entry under one
do so, and so does what is made of them, step after step; making directories and files is made of nothing else.
-/

namespace Vfs.Memory
set_option autoImplicit false
open Vfs.Path Store

variable {α β : Type} {inside : Text → Prop} {s t : Store Entry} {k root name dir : Text} {mode : Int}

/-! ## Steps -/

/-- Two runs of a step on stores that agree on some keys go alike, and leave the other keys as they are. -/
structure StaysIn (inside : Text → Prop) (step : Store Entry → Except Error α × Store Entry) : Prop where
  sound : ∀ s, s.Sound → (step s).2.Sound
  alike : ∀ s t, s.Sound → t.Sound → SameOn inside s t →
    (step s).1 = (step t).1 ∧ SameOn inside (step s).2 (step t).2
  outside : ∀ s, s.Sound → ∀ k, ¬inside k → (step s).2.get? k = s.get? k

/-- A step, and another one after it if it answers. -/
def andThen (step : Store Entry → Except Error α × Store Entry) (next : α → Store Entry → Except Error β × Store Entry)
    (s : Store Entry) : Except Error β × Store Entry :=
  match step s with
  | (.error e, s) => (.error e, s)
  | (.ok a, s) => next a s

section
variable {step : Store Entry → Except Error α × Store Entry} {next : α → Store Entry → Except Error β × Store Entry}

theorem andThen_ok {a : α} (answered : (step s).1 = .ok a) : andThen step next s = next a (step s).2 := by
  unfold andThen
  generalize step s = x at answered
  obtain ⟨r, t⟩ := x
  subst answered
  rfl

theorem andThen_error {e : Error} (failed : (step s).1 = .error e) : andThen step next s = (.error e, (step s).2) := by
  unfold andThen
  generalize step s = x at failed
  obtain ⟨r, t⟩ := x
  subst failed
  rfl

end

namespace StaysIn

theorem answers (r : Except Error α) : StaysIn inside fun s => (r, s) where
  sound := fun _ sound => sound
  alike := fun _ _ _ _ same => ⟨rfl, same⟩
  outside := fun _ _ _ _ => rfl

/-- Going on with what stands under one of the keys. -/
theorem look {next : Option Entry → Store Entry → Except Error α × Store Entry} (member : inside k)
    (later : ∀ found, StaysIn inside (next found)) : StaysIn inside fun s => next (s.get? k) s where
  sound := fun s => (later (s.get? k)).sound s
  alike := fun s t hs ht same => by
    rw [same k member]
    exact (later (t.get? k)).alike s t hs ht same
  outside := fun s => (later (s.get? k)).outside s

/-- Going on with an entry put under one of the keys. -/
theorem put {next : Store Entry → Except Error α × Store Entry} (member : inside k) (e : Entry)
    (later : StaysIn inside next) : StaysIn inside fun s => next (s.put k e) where
  sound := fun s sound => later.sound _ (sound.put k e)
  alike := fun s t hs ht same => by
    refine later.alike _ _ (hs.put k e) (ht.put k e) fun j inner => ?_
    rw [get?_put, get?_put, same j inner]
  outside := fun s sound j other => by
    have apart : j ≠ k := by
      rintro rfl
      exact other member
    rw [later.outside _ (sound.put k e) j other, get?_put, if_neg apart]

theorem andThen {step : Store Entry → Except Error α × Store Entry}
    {next : α → Store Entry → Except Error β × Store Entry} (first : StaysIn inside step)
    (later : ∀ a, StaysIn inside (next a)) : StaysIn inside (andThen step next) where
  sound := fun s hs => by
    have sound := first.sound s hs
    cases told : (step s).1 with
    | error e => rwa [andThen_error told]
    | ok a => rw [andThen_ok told]; exact (later a).sound _ sound
  alike := fun s t hs ht same => by
    obtain ⟨alike, left⟩ := first.alike s t hs ht same
    cases told : (step s).1 with
    | error e =>
      rw [andThen_error told, andThen_error (alike.symm.trans told)]
      exact ⟨rfl, left⟩
    | ok a =>
      rw [andThen_ok told, andThen_ok (alike.symm.trans told)]
      exact (later a).alike _ _ (first.sound s hs) (first.sound t ht) left
  outside := fun s hs j other => by
    have kept := first.outside s hs j other
    cases told : (step s).1 with
    | error e => rwa [andThen_error told]
    | ok a => rw [andThen_ok told, (later a).outside _ (first.sound s hs) j other, kept]

end StaysIn

/-! ## Making directories and files -/

/-- What is done at one level, by what stands there. -/
def atLevel (dir : Text) (mode : Int) (level : Level) (levels : List Level) :
    Option Entry → Store Entry → Except Error Unit × Store Entry
  | some e, s =>
    if e.directory then makeLevels dir mode levels s else (.error (Fault.invalid.at "MkdirAll".text dir), s)
  | none, s =>
    match Mode.permissions mode with
    | .error fault => (.error fault.error, s)
    | .ok bits => makeLevels dir mode levels (s.put level.key (.newDirectory level.name bits))

/-- What is done at the key of a name, once the directories on the way are made. -/
def atFile (root name : Text) (mode : Int) : Option Entry → Store Entry → Except Error (Text × Entry) × Store Entry
  | some e, s =>
    if e.directory then (.error (Fault.invalid.at "Create".text name), s) else (.ok (key root name, e), s)
  | none, s =>
    match Mode.permissions mode with
    | .error fault => (.error fault.error, s)
    | .ok bits =>
      (.ok (key root name, .newFile (lastElement name) bits),
        s.put (key root name) (.newFile (lastElement name) bits))

theorem makeLevels_eq (dir : Text) (mode : Int) (level : Level) (levels : List Level) :
    makeLevels dir mode (level :: levels) = fun s => atLevel dir mode level levels (s.get? level.key) s := by
  funext s
  rw [makeLevels]
  cases s.get? level.key with
  | some e => rfl
  | none => rfl

theorem create_eq (valid : isValid name = true) (mode : Int) :
    create root name mode =
      andThen (mkdirAll root (parent name) mode) fun _ s => atFile root name mode (s.get? (key root name)) s := by
  funext s
  rw [create, if_pos valid, andThen]
  rcases mkdirAll root (parent name) mode s with ⟨r, t⟩
  cases r with
  | error e => rfl
  | ok _ =>
    dsimp only
    cases t.get? (key root name) with
    | some e => rfl
    | none => rfl

theorem staysIn_makeLevels (dir : Text) (mode : Int) {levels : List Level} (members : ∀ l ∈ levels, inside l.key) :
    StaysIn inside (makeLevels dir mode levels) := by
  induction levels with
  | nil => exact .answers (.ok ())
  | cons level levels ih =>
    obtain ⟨first, members⟩ := List.forall_mem_cons.1 members
    have rest := ih members
    rw [makeLevels_eq]
    refine .look first fun found => ?_
    unfold atLevel
    cases found with
    | some e =>
      cases kind : e.directory with
      | true => simpa [kind] using rest
      | false => simpa [kind] using StaysIn.answers _
    | none =>
      cases Mode.permissions mode with
      | error fault => exact .answers _
      | ok bits => exact rest.put first _

/-- What is done at the key of a file depends on what stands there. -/
theorem staysIn_atFile (member : inside (key root name)) (mode : Int) :
    StaysIn inside fun s => atFile root name mode (s.get? (key root name)) s := by
  refine .look member fun found => ?_
  unfold atFile
  cases found with
  | some e =>
    cases kind : e.directory with
    | true => simpa [kind] using StaysIn.answers _
    | false => simpa [kind] using StaysIn.answers _
  | none =>
    cases Mode.permissions mode with
    | error fault => exact .answers _
    | ok bits => exact (StaysIn.answers _).put member _

/-- Putting the content under the key of a file that was created. -/
def atContent (root name : Text) (data : Bytes) (made : Text × Entry) (s : Store Entry) :
    Except Error Nat × Store Entry :=
  (.ok data.length, s.put (key root name) { made.2 with data := data })

theorem write_eq (root name : Text) (data : Bytes) (mode : Int) :
    write root name data mode = andThen (create root name mode) (atContent root name data) := by
  funext s
  rcases write_cases root name data mode s with ⟨fault, refused, eq⟩ | ⟨e, made, eq⟩
  · rw [eq, andThen_error refused]
  · rw [eq, andThen_ok made]
    rfl

theorem staysIn_atContent (member : inside (key root name)) (data : Bytes) (made : Text × Entry) :
    StaysIn inside (atContent root name data made) :=
  (StaysIn.answers _).put member _

/-- Taking out a key and all keys below it. -/
theorem staysIn_takeOut (members : ∀ j, j = k ∨ Under k j → inside j) :
    StaysIn inside fun s => ((.ok () : Except Error Unit), s.removeAll k) where
  sound := fun s sound => sound.removeAll _
  alike := fun s t hs ht same => ⟨rfl, fun j member => by
    rw [get?_removeAll hs, get?_removeAll ht, same j member]⟩
  outside := fun s sound j other => by
    have apart : ¬(j = k ∨ Under k j) := fun below => other (members j below)
    rw [get?_removeAll sound, if_neg apart]

/-- The keys of the names of a view, and of the directories on the way to them, are among some keys. -/
structure Confined (inside : Text → Prop) (root : Text) : Prop where
  key : ∀ name, isValid name = true → inside (Memory.key root name)
  levels : ∀ dir, isValid dir = true → ∀ l ∈ levels root dir, inside l.key
  under : ∀ k j, inside k → Under k j → inside j

section
variable (confined : Confined inside root)
include confined

theorem staysIn_mkdirAll (dir : Text) (mode : Int) : StaysIn inside (mkdirAll root dir mode) := by
  unfold mkdirAll
  split
  · next valid => exact staysIn_makeLevels dir mode (confined.levels dir valid)
  · exact .answers _

theorem staysIn_create (name : Text) (mode : Int) : StaysIn inside (create root name mode) := by
  by_cases valid : isValid name = true
  · rw [create_eq valid]
    exact (staysIn_mkdirAll confined (parent name) mode).andThen fun _ =>
      staysIn_atFile (confined.key name valid) mode
  · unfold create
    simpa [valid] using StaysIn.answers _

theorem staysIn_write (name : Text) (data : Bytes) (mode : Int) : StaysIn inside (write root name data mode) := by
  by_cases valid : isValid name = true
  · rw [write_eq]
    exact (staysIn_create confined name mode).andThen (staysIn_atContent (confined.key name valid) data)
  · have refused : write root name data mode = fun s => (.error (Fault.invalid.at "Create".text name), s) := by
      funext s
      rw [write, create, if_neg valid]
    rw [refused]
    exact .answers _

theorem staysIn_remove (name : Text) : StaysIn inside (remove root name) := by
  by_cases valid : isValid name = true
  · have eq : remove root name = fun s => (.ok (), s.remove (key root name)) := by
      funext s
      rw [remove, if_pos valid]
    rw [eq]
    refine ⟨fun s sound => sound.remove _, fun s t hs ht same => ⟨rfl, fun k member => ?_⟩, fun s sound k other => ?_⟩
    · rw [get?_remove hs, get?_remove ht, same k member]
    · have apart : k ≠ key root name := by
        rintro rfl
        exact other (confined.key name valid)
      rw [get?_remove sound, if_neg apart]
  · have refused : remove root name = fun s => (.error (Fault.invalid.at "RemoveFile".text name), s) := by
      funext s
      rw [remove, if_neg valid]
    rw [refused]
    exact .answers _

theorem staysIn_removeAll (name : Text) : StaysIn inside (removeAll root name) := by
  by_cases valid : isValid name = true
  · have eq : removeAll root name = fun s => (.ok (), s.removeAll (key root name)) := by
      funext s
      rw [removeAll, if_pos valid]
    have member := confined.key name valid
    rw [eq]
    refine staysIn_takeOut fun j below => ?_
    rcases below with rfl | under
    · exact member
    · exact confined.under _ j member under
  · have refused : removeAll root name = fun s => (.error (Fault.invalid.at "RemoveAll".text name), s) := by
      funext s
      rw [removeAll, if_neg valid]
    rw [refused]
    exact .answers _

end

/-! ## Answers -/

theorem Confined.top (confined : Confined inside root) : inside root :=
  confined.levels here (by decide) ⟨root, rootName root⟩ (List.mem_cons_self ..)

section
variable (confined : Confined inside root) (sound : s.Sound) (sound' : t.Sound) (same : SameOn inside s t)
include confined same

theorem locate_same (name : Text) : locate root s name = locate root t name := by
  unfold locate
  split
  · next valid => rw [same _ (confined.key name valid)]
  · rfl

theorem content_same (name : Text) : content root s name = content root t name := by
  rw [content, content, locate_same confined same]

theorem sub_same (name : Text) : sub root s name = sub root t name := by
  rw [sub, sub, locate_same confined same]

include sound sound'

theorem select_same (member : inside k) (test : Text → Bool) : s.select k test = t.select k test :=
  select_congr sound sound' (same k member) (fun j under => same j (confined.under k j member under)) test

theorem list_same (dir : Text) : list root s dir = list root t dir := by
  unfold list
  rw [locate_same confined same]
  cases found : locate root t dir with
  | error e => rfl
  | ok l =>
    obtain ⟨k, e⟩ := l
    obtain ⟨valid, rfl, -⟩ := locate_eq_ok.1 found
    have member := confined.key dir valid
    have children := select_same confined sound sound' same member fun rest => !rest.contains (.char '/')
    dsimp only
    rw [Store.children, Store.children, children]
    have each :
        (t.select (key root dir) fun rest => !rest.contains (.char '/')).filterMap (fun c => (s.get? c).map (c, ·)) =
        (t.select (key root dir) fun rest => !rest.contains (.char '/')).filterMap fun c => (t.get? c).map (c, ·) := by
      refine List.filterMap_congr fun c inner => ?_
      obtain ⟨-, -, under, -⟩ := ((select_spec sound' _ _).2 c).1 inner
      rw [same c (confined.under _ c member under)]
    rw [each]

omit same sound in
/-- What a directory lists stands under keys below its own. -/
theorem list_inside {rows : List (Text × Entry)} (listed : list root t dir = .ok rows) {l : Text × Entry}
    (member : l ∈ rows) : inside l.1 := by
  unfold list at listed
  cases found : locate root t dir with
  | error fault =>
    rw [found] at listed
    cases listed
  | ok d =>
    obtain ⟨valid, key, -⟩ := locate_eq_ok.1 found
    simp only [found] at listed
    split at listed
    · cases listed
      obtain ⟨c, inner, told⟩ := List.mem_filterMap.1 member
      obtain ⟨e, -, rfl⟩ := Option.map_eq_some_iff.1 told
      obtain ⟨-, -, under, -⟩ := ((select_spec sound' _ _).2 c).1 inner
      exact confined.under _ c (key ▸ confined.key dir valid) under
    · cases listed

theorem glob_same (pattern : Text) : glob root s pattern = glob root t pattern := by
  unfold glob Store.matching
  cases Glob.scan pattern with
  | none => rfl
  | some tokens => simp only [select_same confined sound sound' same confined.top]

end

end Vfs.Memory
