import Vfs.Proofs.Filesystem.Checking
import Vfs.Proofs.Filesystem.Errand
import Vfs.Proofs.Path.Steps

/-!
# A walk enumerates the tree

A walk of a view of a well-formed tree ends and tells every name that is stored at or below the one it begins with,
each with what the view says about it, in the order of the rows of their elements (`walk_enumerates`). The root of
the view may be spelled in any way: what the view finds is found from the row that its root is cleaned to
(`StandsFor`). Only where `/.` is stored a walk of the whole does not come to an end, since the name `.` that it lists
there is the root again (`not_walk_enumerates`).
-/

namespace Vfs
set_option autoImplicit false

/-! ## What a walk tells -/

/-- What is said of a path that a walk comes to in some worlds: the answer does not grow old, and a listing says
of each child the like. -/
structure Handed (fs : Filesystem) (K : World → Prop) (P : Text → Info → Prop) : Prop where
  fresh : ∀ {path info w}, K w → P path info → w.refresh info = info
  kept : ∀ {path info w}, K w → P path info → info.directory = true → K (fs.list path w).2
  children : ∀ {path info w children}, K w → P path info → info.directory = true →
    (fs.list path w).1 = .ok children → ∀ child ∈ children, P (Path.child path child.name) child

/-- A walk stays in the worlds it began in, and tells of each path what is said of it. -/
structure Recounts (K : World → Prop) (P : Text → Info → Prop) (x : Trace × World) : Prop where
  kept : K x.2
  told : ∀ path info, (path, info) ∈ x.1.visited → P path info

variable {fs : Filesystem} {K : World → Prop} {P : Text → Info → Prop}

theorem recounts_nothing {w : World} (kept : K w) (outcome : Except Error Unit) : Recounts K P (⟨[], outcome⟩, w) :=
  ⟨kept, fun _ _ member => absurd member List.not_mem_nil⟩

theorem recounts_sequence {α : Type} {walk : α → StateM World Trace} {l : List α} {w : World}
    (each : ∀ a ∈ l, ∀ w, K w → Recounts K P (walk a w)) (kept : K w) : Recounts K P (Trace.sequence walk l w) := by
  induction l generalizing w with
  | nil => exact recounts_nothing kept _
  | cons a l ih =>
    have first := each a (List.mem_cons_self ..) w kept
    rw [Trace.sequence, bind_apply]
    generalize walk a w = x at first ⊢
    obtain ⟨t, w'⟩ := x
    dsimp only
    cases t.outcome with
    | error fault => exact first
    | ok done =>
      have rest := ih (fun b member => each b (List.mem_cons_of_mem a member)) first.kept
      dsimp only [bind_apply]
      generalize Trace.sequence walk l w' = y at rest ⊢
      refine ⟨rest.kept, fun path info member => ?_⟩
      rcases List.mem_append.1 member with here | later
      · exact first.told path info here
      · exact rest.told path info later

theorem recounts_walkTree (handed : Handed fs K P) {depth : Nat} {path : Text} {info : Info} {w : World} (kept : K w)
    (said : P path info) : Recounts K P (fs.walkTree (fun _ _ => pure ()) depth path info w) := by
  induction depth generalizing path info w with
  | zero => exact recounts_nothing kept _
  | succ depth ih =>
    have visited : (pure () : Action Unit) w = (.ok (), w) := rfl
    have shown {x : Trace × World} (below : Recounts K P x) : Recounts K P (.cons path (w.refresh info) x.1, x.2) := by
      refine ⟨below.kept, fun path' info' member => ?_⟩
      rcases List.mem_cons.1 member with first | later
      · obtain ⟨rfl, rfl⟩ := Prod.mk.inj first
        rwa [handed.fresh kept said]
      · exact below.told path' info' later
    rw [Filesystem.walkTree_succ, visited]
    dsimp only
    split
    · next directory =>
      have stays := handed.kept kept said directory
      have children (infos : List Info) (listed : (fs.list path w).1 = .ok infos) :=
        handed.children kept said directory listed
      generalize fs.list path w = y at stays children ⊢
      obtain ⟨r, w'⟩ := y
      cases r with
      | error fault => exact shown (recounts_nothing stays _)
      | ok infos =>
        exact shown (recounts_sequence (fun child member w begun => ih begun (children infos rfl child member)) stays)
    · exact shown (recounts_nothing kept _)

namespace Path

/-- The elements on the way down to a name; there are none to the directory itself. -/
def rowOf (name : Text) : List Text := if name = here then [] else elements name

theorem rowOf_ofReduced {bs : List Text} (names : Names bs) : rowOf (ofReduced false bs) = bs := by
  by_cases hne : bs = []
  · rw [hne]
    rfl
  · rw [rowOf, if_neg (ofReduced_ne_here names hne), ofReduced_relative hne, names.elements_joined hne]

end Path

namespace Memory
open Vfs.Path Session

/-! ## Other spellings of a root -/

/-- The root of a view is another spelling of a row: what it finds is found from there. -/
structure StandsFor (root : Text) (as : List Text) : Prop where
  names : Names as
  cleaned : clean root = ofReduced true as
  locate : ∀ s name, locate root s name = Memory.locate (ofReduced true as) s name

variable {root name : Text} {as bs rs : List Text} {n : Nat} {w : World} {e : Entry} {s : Store Entry}

theorem standsFor_rooted (rooted : isRooted root = true) : StandsFor root (reduce true (steps root)) := by
  have names : Names (reduce true (steps root)) := names_reduce fun e member => no_slash_of_mem_steps member
  refine ⟨names, clean_rooted rooted, fun s name => ?_⟩
  by_cases valid : isValid name = true
  · obtain ⟨bs, hb, rfl⟩ := isValid_iff_names.1 valid
    have same : key root (ofReduced false bs) =
        key (ofReduced true (reduce true (steps root))) (ofReduced false bs) := by
      rw [key_ofReduced names hb]
      exact clean_attach_name rooted hb
    rw [Memory.locate, Memory.locate, same]
  · rw [Memory.locate, Memory.locate, if_neg valid, if_neg valid]

/-- A view that finds anything in a well-formed tree has a root that stands for a row. -/
theorem standsFor_of_located {k : Text} (formed : Formed s) (located : locate root s name = .ok (k, e)) :
    ∃ as, StandsFor root as := by
  obtain ⟨valid, rfl, stored⟩ := locate_eq_ok.1 located
  obtain ⟨bs, hb, rfl⟩ := isValid_iff_names.1 valid
  have rooted : isRooted (clean (attach root (ofReduced false bs))) = true := by
    rcases formed.keys _ e stored with top | ⟨name, -, below⟩
    · rw [isRooted_iff]
      exact congrArg List.head? top
    · rw [isRooted_iff]
      exact congrArg List.head? below
  exact ⟨_, standsFor_rooted ((isRooted_attach_iff (head?_ofReduced hb.pieces)).1 (isRooted_of_clean rooted))⟩

namespace StandsFor

variable (stands : StandsFor root as)
include stands

theorem stored? (w : World) (n : Nat) (name : Text) :
    View.stored? ⟨n, root⟩ w name = View.stored? ⟨n, ofReduced true as⟩ w name := by
  rw [View.stored?, View.stored?, stands.locate]

theorem stat (n : Nat) (name : Text) : stat ⟨n, root⟩ name = stat ⟨n, ofReduced true as⟩ name := by
  funext w
  simp only [Memory.stat, stands.locate]
  rfl

theorem listing (n : Nat) (dir : Text) (w : World) :
    listing ⟨n, root⟩ dir w = listing ⟨n, ofReduced true as⟩ dir w := by
  simp only [Memory.listing, list, stands.locate]
  rfl

theorem shows (id n : Nat) (w : World) :
    Shows w ⟨n, ofReduced true as⟩ (filesystem id ⟨n, root⟩).stat (filesystem id ⟨n, root⟩).list where
  stat := fun name => by
    rw [← stands.stat]
    exact (shows_filesystem id w ⟨n, root⟩).stat name
  list := fun dir => by
    rw [← stands.listing]
    exact (shows_filesystem id w ⟨n, root⟩).list dir

end StandsFor

/-! ## The entries that a walk tells -/

/-- A row at or below `rs` is stored and told as the view tells it. -/
structure AtRow (w : World) (n : Nat) (as rs : List Text) (path : Text) (info : Info) : Prop where
  row : ∃ bs e, rs <+: bs ∧ Names (as ++ bs) ∧ path = ofReduced false bs ∧
    (w.volume n).store.get? (ofReduced true (as ++ bs)) = some e ∧
    info = describe ⟨n, ofReduced true as⟩ (ofReduced true (as ++ bs), e) w

theorem AtRow.stat {path : Text} {info : Info} (told : AtRow w n as rs path info) :
    stat ⟨n, ofReduced true as⟩ path w = (.ok info, w) := by
  obtain ⟨bs, e, -, names, rfl, stored, rfl⟩ := told.row
  exact stat_row names stored

theorem handed_view (footing : Footing w n as rs e) (stands : StandsFor root as) (id : Nat) :
    Handed (filesystem id ⟨n, root⟩) (fun w' => w' = w) (AtRow w n as rs) where
  fresh := by
    rintro path info w' rfl told
    obtain ⟨bs, e, -, -, -, stored, rfl⟩ := told.row
    exact refresh_describe rfl stored
  kept := by
    rintro path info w' rfl - -
    rfl
  children := by
    rintro path info w' children rfl told directory listed child member
    obtain ⟨bs, e, behind, names, rfl, stored, rfl⟩ := told.row
    obtain ⟨infos, told', -, mem_infos⟩ :=
      listing_spec footing.sound (footing.labelled.behind names behind) names ⟨e, stored, directory⟩
    have asked : listing ⟨n, root⟩ (ofReduced false bs) w' = .ok children := listed
    rw [stands.listing, told'] at asked
    obtain rfl := Except.ok.inj asked
    obtain ⟨longer, e', stored', described⟩ := (mem_infos child.name child).1 ⟨member, rfl⟩
    rw [List.append_assoc] at longer stored' described
    exact ⟨bs ++ [child.name], e', behind.trans (List.prefix_append ..), longer,
      child_ofReduced (names_append.1 longer).2, stored', described.symm⟩

/-- Some entries are those of a tree: of every name stored at or below one, and of no other, what the view says
about it, once, in the order of the elements of the names. -/
structure Enumerates (view : View) (w : World) (name : Text) (entries : List (Text × Info)) : Prop where
  inner : ∀ inner, inner ∈ entries.map (·.1) ↔
    AtOrBelow name inner ∧ (view.stored? w inner).isSome = true
  told : ∀ inner info, (inner, info) ∈ entries → stat view inner w = (.ok info, w)
  once : (entries.map (·.1)).Nodup
  /-- A directory comes before what is in it, and what is in it by increasing name. -/
  sorted : entries.Pairwise fun x y => rowOf x.1 < rowOf y.1
  /-- What is below a directory follows it in one block. -/
  block : ∀ front inner info back, entries = front ++ (inner, info) :: back →
    ∃ within after, back = within ++ after ∧ (∀ x ∈ within, AtOrBelow inner x.1) ∧
      ∀ x ∈ front ++ after, ¬AtOrBelow inner x.1

theorem enumerates_of_rows {entries : List (Text × Info)} {view : View} {rows : List (List Text)}
    (names : entries.map (·.1) = rows.map (ofReduced false)) (sorted : rows.Pairwise (· < ·))
    (each : ∀ bs ∈ rows, Names bs)
    (inner : ∀ bs, Names bs → (bs ∈ rows ↔
      AtOrBelow name (ofReduced false bs) ∧ (view.stored? w (ofReduced false bs)).isSome = true))
    (told : ∀ path info, (path, info) ∈ entries → stat view path w = (.ok info, w)) :
    Enumerates view w name entries := by
  have row {x : Text × Info} (member : x ∈ entries) : ∃ bs, Names bs ∧ x.1 = ofReduced false bs := by
    have called : x.1 ∈ entries.map (·.1) := List.mem_map_of_mem member
    rw [names] at called
    obtain ⟨bs, there, same⟩ := List.mem_map.1 called
    exact ⟨bs, each bs there, same.symm⟩
  have rowsOf : entries.map (fun x => rowOf x.1) = rows := by
    calc entries.map (fun x => rowOf x.1) = (entries.map (·.1)).map rowOf := by rw [List.map_map]; rfl
      _ = (rows.map (ofReduced false)).map rowOf := by rw [names]
      _ = rows := by
        rw [List.map_map]
        exact (List.map_congr_left fun bs member => rowOf_ofReduced (each bs member)).trans (List.map_id rows)
  have ordered : entries.Pairwise fun x y => rowOf x.1 < rowOf y.1 := by
    rw [← rowsOf] at sorted
    exact List.pairwise_map.1 sorted
  have within {x y : Text × Info} (hx : x ∈ entries) (hy : y ∈ entries) :
      AtOrBelow x.1 y.1 ↔ rowOf x.1 <+: rowOf y.1 := by
    obtain ⟨bs, hb, called⟩ := row hx
    obtain ⟨cs, hc, called'⟩ := row hy
    rw [called, called', rowOf_ofReduced hb, rowOf_ofReduced hc, atOrBelow_iff hb hc]
  refine ⟨fun path => ?_, told, ?_, ordered, ?_⟩
  · rw [names, List.mem_map]
    constructor
    · rintro ⟨bs, member, rfl⟩
      exact (inner bs (each bs member)).1 member
    · rintro ⟨below, stored⟩
      obtain ⟨bs, hb, rfl⟩ := isValid_iff_names.1 below.isValid
      exact ⟨bs, (inner bs hb).2 ⟨below, stored⟩, rfl⟩
  · rw [List.Nodup, List.pairwise_map]
    refine ordered.imp fun {x y} before same => ?_
    rw [same] at before
    exact List.lt_irrefl _ before
  · rintro front path info back rfl
    obtain ⟨inside, after, rfl, below, apart⟩ := Text.exists_block ordered
    have first : (path, info) ∈ front ++ (path, info) :: (inside ++ after) :=
      List.mem_append_right _ (List.mem_cons_self ..)
    refine ⟨inside, after, rfl, fun x member => ?_, fun x member => ?_⟩
    · exact (within first (by simp [member])).2 (below x member)
    · refine fun found => apart x member ((within first ?_).1 found)
      rcases List.mem_append.1 member with before | behind
      · exact List.mem_append_left _ before
      · exact List.mem_append_right _ (by simp [behind])

/-- **A walk enumerates the tree.** On a view of a well-formed tree it ends well from every name that is stored,
leaves the world, and tells the names at or below that one that are stored; from any other name it tells nothing and
fails as the question for that name does. Where `/.` is stored, the walk is not to begin with the root of the whole. -/
theorem walk_enumerates {w : World} {view : View} {name : Text} (sound : (w.volume view.volume).store.Sound)
    (formed : FormedNamed (w.volume view.volume).store)
    (plain : ((w.volume view.volume).store.get? "/.".text).isSome = true →
      clean view.root = [.char '/'] → name ≠ here) (id : Nat) :
    ((view.stored? w name).isSome = true →
      ∃ entries, (filesystem id view).walk name w = (⟨entries, .ok ()⟩, w) ∧ Enumerates view w name entries) ∧
    (view.stored? w name = none →
      (filesystem id view).walk name w =
        (.failed ((if isValid name then Fault.notExist else Fault.invalid).at "Open".text name), w)) := by
  obtain ⟨n, root⟩ := view
  constructor
  · intro stored
    obtain ⟨e, found⟩ := Option.isSome_iff_exists.1 stored
    obtain ⟨k, located⟩ := locate_of_stored found
    obtain ⟨as, stands⟩ := standsFor_of_located formed.toFormed located
    obtain ⟨rs, hr, rfl⟩ := isValid_iff_names.1 (isValid_of_stored found)
    have names : Names (as ++ rs) := names_append.2 ⟨stands.names, hr⟩
    rw [stands.stored?, stored?_row names] at found
    have labelled : LabelledUnder (w.volume n).store (ofReduced true (as ++ rs)) := by
      refine formed.under names fun dotted top => ?_
      obtain ⟨rfl, rfl⟩ := List.append_eq_nil_iff.1 top
      exact plain dotted stands.cleaned rfl
    have footing : Footing w n as rs e := ⟨sound, labelled, names, found⟩
    obtain ⟨ended, order⟩ := walk_order (stands.shows id n w) footing
    have asked : (filesystem id ⟨n, root⟩).stat (ofReduced false rs) w =
        (.ok (describe ⟨n, ofReduced true as⟩ (ofReduced true (as ++ rs), e) w), w) := by
      rw [← stat_row names found, ← stands.stat]
      rfl
    have recounts : Recounts (fun w' => w' = w) (AtRow w n as rs)
        ((filesystem id ⟨n, root⟩).walk (ofReduced false rs) w) := by
      rw [Filesystem.walk, Filesystem.walkWith_eq, asked]
      exact recounts_walkTree (handed_view footing stands id) rfl
        ⟨rs, e, List.prefix_refl rs, names, rfl, found, rfl⟩
    generalize (filesystem id ⟨n, root⟩).walk (ofReduced false rs) w = x at ended order recounts ⊢
    obtain ⟨⟨entries, outcome⟩, w'⟩ := x
    obtain ⟨rfl, told⟩ := recounts
    obtain rfl : outcome = .ok () := ended
    have each (bs : List Text) (member : bs ∈ walkOrder w' n as rs) : Names bs :=
      (names_append.1 ((footing.mem_order formed.linked).1 member).2.1).2
    refine ⟨entries, rfl, enumerates_of_rows order footing.sorted each (fun bs hb => ?_) fun path info member => ?_⟩
    · rw [footing.mem_order formed.linked, atOrBelow_iff hr hb, stands.stored?,
        stored?_row (names_append.2 ⟨stands.names, hb⟩)]
      exact and_congr_right fun _ => and_iff_right (names_append.2 ⟨stands.names, hb⟩)
    · rw [stands.stat]
      exact (told path info member).stat
  · intro missing
    have asked : (filesystem id ⟨n, root⟩).stat name w =
        ((locate root (w.volume n).store name).map fun l => describe ⟨n, root⟩ l w, w) := rfl
    have refused : locate root (w.volume n).store name =
        .error ((if isValid name then Fault.notExist else Fault.invalid).at "Open".text name) := by
      rw [View.stored?, locate] at missing
      rw [locate]
      split
      · next valid =>
        rw [if_pos valid] at missing
        cases stored : (w.volume n).store.get? (key root name) with
        | none => rfl
        | some e =>
          rw [stored] at missing
          cases missing
      · rfl
    rw [Filesystem.walk, Filesystem.walkWith_eq, asked, refused]
    rfl

/-- The calls of a session after which the keys and the rows stand in different orders. -/
def dashedCalls : List Call := [.on 0 (.write "a/x".text [104, 105] 0o644), .on 0 (.write "a-1".text [] 0o644)]

theorem walk_enumerates_dashed :
    (start.after dashedCalls).store.Sound ∧ FormedNamed (start.after dashedCalls).store ∧
      ¬((start.after dashedCalls).store.get? "/.".text).isSome = true ∧
      (View.stored? ⟨0, [.char '/']⟩ (start.after dashedCalls).world here).isSome = true ∧
      ∃ entries, (filesystem 0 ⟨0, [.char '/']⟩).walk here (start.after dashedCalls).world =
          (⟨entries, .ok ()⟩, (start.after dashedCalls).world) ∧
        Enumerates ⟨0, [.char '/']⟩ (start.after dashedCalls).world here entries := by
  have first := Reached.call (.on 0 (.write "a/x".text [104, 105] 0o644)) .start (.inl rfl)
  obtain ⟨-, sound, tree⟩ := invariant_reached (.call (.on 0 (.write "a-1".text [] 0o644)) first (.inl rfl))
  have plain : ¬((start.after dashedCalls).store.get? "/.".text).isSome = true := by decide +kernel
  have stored : (View.stored? ⟨0, [.char '/']⟩ (start.after dashedCalls).world here).isSome = true := by decide +kernel
  have walks := @walk_enumerates (start.after dashedCalls).world ⟨0, [.char '/']⟩ here sound tree.formedNamed
    (fun dotted => absurd dotted plain) 0
  exact ⟨sound, tree.formedNamed, plain, stored, walks.1 stored⟩

example : ((filesystem 0 ⟨0, [.char '/']⟩).walk here (start.after [.on 0 (.write "a/x".text [] 0o644),
    .on 0 (.write "a-1".text [] 0o644)]).world).1.names =
      [here, "a".text, "a/x".text, "a-1".text] := by decide +kernel

/-- Where `/.` is stored, a walk of the whole comes to its root again and again. -/
theorem walkFrom_respelled (depth : Nat) {info : Info} (directory : info.directory = true) :
    (walkFrom 0 ⟨0, [.char '/']⟩ depth here info respelled).1.outcome = .error Fault.unbounded.error := by
  induction depth generalizing info with
  | zero => rfl
  | succ depth ih =>
    have told : (listing ⟨0, [.char '/']⟩ here respelled).toOption.map
        (List.map fun child => (child.name, child.directory)) = some [(here, true), ("a".text, false)] := by
      decide +kernel
    rw [walkFrom_succ, if_pos directory]
    cases listed : listing ⟨0, [.char '/']⟩ here respelled with
    | error fault =>
      rw [listed] at told
      cases told
    | ok children =>
      rw [listed] at told
      obtain ⟨again, rest, rfl, first, -⟩ := List.map_eq_cons_iff.1 (Option.some.inj told)
      obtain ⟨name, kind⟩ := Prod.mk.inj first
      have down : Path.child here again.name = here := by rw [name]; rfl
      have below := ih kind
      dsimp only
      rw [Trace.sequence, bind_apply, down]
      generalize walkFrom 0 ⟨0, [.char '/']⟩ depth here again respelled = x at below ⊢
      obtain ⟨t, w⟩ := x
      dsimp only at below ⊢
      rw [below]
      exact below

/-- A walk of the whole has to be without `/.`: with it the tree is well formed, but the walk does not end. -/
theorem not_walk_enumerates :
    ¬∀ (w : World) (view : View) (name : Text), (w.volume view.volume).store.Sound →
      FormedNamed (w.volume view.volume).store → (view.stored? w name).isSome = true →
      ∃ entries, (filesystem 0 view).walk name w = (⟨entries, .ok ()⟩, w) ∧ Enumerates view w name entries := by
  intro enumerates
  have stored : (View.stored? ⟨0, [.char '/']⟩ respelled here).isSome = true := by decide +kernel
  obtain ⟨entries, walked, -⟩ := enumerates respelled ⟨0, [.char '/']⟩ here sound_respelled formed_respelled stored
  have run := walk_here 0 ⟨0, [.char '/']⟩ respelled
  have found : (locate [.char '/'] (respelled.volume 0).store here).toOption.map (·.2.directory) = some true := by
    decide +kernel
  cases located : locate [.char '/'] (respelled.volume 0).store here with
  | error fault =>
    rw [located] at found
    cases found
  | ok l =>
    rw [located] at found run
    have directory : (describe ⟨0, [.char '/']⟩ l respelled).directory = true := Option.some.inj found
    have fails := walkFrom_respelled (Filesystem.spareLevels + respelled.nesting) directory
    rw [walked] at run
    dsimp only at run
    rw [← run] at fails
    cases fails

end Memory

end Vfs
