import Vfs.Proofs.Memory.Subtree
import Vfs.Proofs.Path.Steps

/-!
# A view of a subtree stands alone

A view of a directory other than `/` reads and changes what is stored under the key of the directory and below it,
and nothing else: on two stores that agree there, any calls on the view, on the views taken of it and on the handles
they open answer alike, and leave every other key as it was (`independent_view`). The two runs are followed side by
side (`Beside`); one call keeps them so (`parallel_perform`), and the induction is on the calls.
-/

namespace Vfs.Memory
set_option autoImplicit false
open Vfs.Path Session

/-! ## Runs on one view -/

/-- A key is that of a directory or one below it. -/
def InSubtree (root k : Text) : Prop := k = root ∨ root ++ [.char '/'] <+: k

/-- A session on a view of a store. -/
def Session.on (root : Text) (s : Store Entry) : Session := ⟨{ volumes := #[⟨s, []⟩] }, [root]⟩

/-- What calls answer, one after the other. -/
def Session.replies (s : Session) : List Call → List (Except Error Answer)
  | [] => []
  | c :: calls => (s.perform c).1 :: replies (s.perform c).2 calls

/-- A call on a view is one on a view that there is. -/
def Call.Aims (s : Session) (c : Call) : Prop := ∀ v request, c = .on v request → v < s.roots.length

/-- Each of some calls is on a view that there is then, or on a handle. -/
def Aimed (s : Session) : List Call → Prop
  | [] => True
  | c :: calls => c.Aims s ∧ Aimed (s.perform c).2 calls

/-- Calls on a view of one store go as they go on a view of another, and leave both alone outside the subtree. -/
structure Independent (root : Text) (s t : Store Entry) (calls : List Call) : Prop where
  replies : (Session.on root s).replies calls = (Session.on root t).replies calls
  inside : ∀ k, InSubtree root k →
    ((Session.on root s).after calls).store.get? k = ((Session.on root t).after calls).store.get? k
  outside : ∀ k, ¬InSubtree root k → ((Session.on root s).after calls).store.get? k = s.get? k ∧
    ((Session.on root t).after calls).store.get? k = t.get? k

theorem length_roots_perform (s : Session) (c : Call) : s.roots.length ≤ (s.perform c).2.roots.length := by
  cases c with
  | on v request =>
    rw [perform_on, List.length_append]
    exact Nat.le_add_right _ _
  | read _ _ | write _ _ | list _ _ | stat _ | close _ => exact Nat.le_refl _

/-- Views that there are at first are there at every call. -/
theorem aimed_of_lt (calls : List Call) {s : Session}
    (there : ∀ v request, .on v request ∈ calls → v < s.roots.length) : Aimed s calls := by
  induction calls generalizing s with
  | nil => trivial
  | cons c calls ih =>
    refine ⟨fun v request call => there v request (call ▸ List.mem_cons_self), ih fun v request later => ?_⟩
    exact Nat.lt_of_lt_of_le (there v request (List.mem_cons_of_mem _ later)) (length_roots_perform s c)

variable {inside : Text → Prop} {w w' : World} {root name dir k : Text} {mode : Int} {e : Entry} {s t : Store Entry}
  {as bs : List Text} {view : View} {α : Type}

/-! ## What a volume remembers -/

/-- A volume remembers the entry under a key that a change has taken out. -/
theorem past_after {v : Volume} (sound : v.store.Sound) (sound' : s.Sound) (oneWay : Store.OneWay v.store s)
    (k : Text) : (v.after s).past k = v.past k ++ Store.lost v.store s k := by
  unfold Volume.after
  split
  · next fewer =>
    have row : (v.store.toList.filter fun r => !s.contains r.1).filter (fun r => r.1 = k) =
        ((v.store.get? k).map (k, ·)).toList.filter fun r => !s.contains r.1 := by
      rw [List.filter_filter, ← Store.filter_toList sound, List.filter_filter]
      simp only [Bool.and_comm]
    have gone : (((v.store.get? k).map (k, ·)).toList.filter fun r => !s.contains r.1).map (·.2) =
        Store.lost v.store s k := by
      unfold Store.lost
      cases v.store.get? k with
      | none => rfl
      | some e =>
        cases left : s.get? k with
        | none =>
          have absent : s.contains k = false := by
            rw [← Bool.not_eq_true, Store.contains_iff, left]
            simp
          simp [absent]
        | some e' =>
          have present : s.contains k = true := Store.contains_iff.2 (by rw [left, Option.isSome_some])
          simp [present]
    rw [Volume.past, List.filter_append, List.map_append, row, gone]
    rfl
  · next size =>
    have lossless : Store.lost v.store s k = [] := by
      unfold Store.lost
      cases stored : v.store.get? k with
      | none => rfl
      | some e =>
        have kept : (s.get? k).isSome = true := by
          rcases oneWay with more | fewer
          · exact more k (by rw [stored, Option.isSome_some])
          · exact Store.kept_of_size_le sound sound' fewer (Nat.le_of_not_lt size) (by rw [stored, Option.isSome_some])
        obtain ⟨e', left⟩ := Option.isSome_iff_exists.1 kept
        rw [left]
    rw [lossless, List.append_nil]
    rfl

theorem Grows.oneWay (grows : Grows s t) : Store.OneWay s t := by
  refine .inl fun k stored => ?_
  obtain ⟨e, there⟩ := Option.isSome_iff_exists.1 stored
  rw [grows.kept k e there, Option.isSome_some]

theorem oneWay_write (root name : Text) (data : Bytes) (mode : Int) (s : Store Entry) :
    Store.OneWay s (write root name data mode s).2 := by
  have grows := grows_create root name mode s
  rcases write_cases root name data mode s with ⟨fault, -, eq⟩ | ⟨e, -, eq⟩
  · rw [eq]
    exact grows.oneWay
  · rw [eq]
    refine .inl fun k stored => ?_
    obtain ⟨e, there⟩ := Option.isSome_iff_exists.1 stored
    rw [Store.get?_put, grows.kept k e there]
    split
    · rfl
    · rfl

theorem oneWay_remove (sound : s.Sound) (root name : Text) : Store.OneWay s (remove root name s).2 := by
  unfold remove
  split
  · refine .inr fun k stored => ?_
    rw [Store.get?_remove sound] at stored
    split at stored
    · cases stored
    · exact stored
  · exact .inr fun _ stored => stored

theorem oneWay_removeAll (sound : s.Sound) (root name : Text) : Store.OneWay s (removeAll root name s).2 := by
  unfold removeAll
  split
  · refine .inr fun k stored => ?_
    rw [Store.get?_removeAll sound] at stored
    split at stored
    · cases stored
    · exact stored
  · exact .inr fun _ stored => stored

/-! ## Two runs side by side -/

/-- Two worlds whose volumes agree on some keys, and remember the same of them, and whose handles are the same. -/
structure Beside (inside : Text → Prop) (w w' : World) : Prop where
  there : 0 < w.volumes.size ∧ 0 < w'.volumes.size
  handles : w.memoryHandles = w'.memoryHandles
  sound : (w.volume 0).store.Sound ∧ (w'.volume 0).store.Sound
  same : Store.SameOn inside (w.volume 0).store (w'.volume 0).store
  past : ∀ k, inside k → (w.volume 0).past k = (w'.volume 0).past k

/-- Two outcomes of an action in two worlds: they answer the same, the worlds are left side by side, and no other key
is touched in either. -/
structure Parallel (inside : Text → Prop) (w w' : World) (x y : Except Error α × World) : Prop where
  answer : x.1 = y.1
  beside : Beside inside x.2 y.2
  left : ∀ k, ¬inside k → (x.2.volume 0).store.get? k = (w.volume 0).store.get? k
  right : ∀ k, ¬inside k → (y.2.volume 0).store.get? k = (w'.volume 0).store.get? k

section
variable (beside : Beside inside w w')
include beside

theorem Beside.asked {r r' : Except Error α} (same : r = r') : Parallel inside w w' (r, w) (r', w') :=
  ⟨same, beside, fun _ _ => rfl, fun _ _ => rfl⟩

theorem Beside.describe_same (member : inside k) (root : Text) (e : Entry) :
    describe ⟨0, root⟩ (k, e) w = describe ⟨0, root⟩ (k, e) w' := by
  simp only [describe, Volume.info, beside.past k member]

theorem Beside.listing_same (confined : Confined inside root) (dir : Text) :
    listing ⟨0, root⟩ dir w = listing ⟨0, root⟩ dir w' := by
  obtain ⟨sound, sound'⟩ := beside.sound
  rw [listing, listing, list_same confined sound sound' beside.same]
  cases listed : list root (w'.volume 0).store dir with
  | error fault => rfl
  | ok rows =>
    refine congrArg Except.ok (List.map_congr_left fun l member => ?_)
    exact beside.describe_same (list_inside confined sound' listed member) root l.2

theorem Beside.stat_same (confined : Confined inside root) (name : Text) :
    (stat ⟨0, root⟩ name w).1 = (stat ⟨0, root⟩ name w').1 := by
  simp only [stat, locate_same confined beside.same]
  cases found : locate root (w'.volume 0).store name with
  | error fault => rfl
  | ok l =>
    obtain ⟨valid, key, -⟩ := locate_eq_ok.1 found
    exact congrArg Except.ok (beside.describe_same (key ▸ confined.key name valid) root l.2)

/-- A change that stays among the keys goes alike in both worlds. -/
theorem Beside.changed (f : Text → Store Entry → Except Error α × Store Entry) (stays : StaysIn inside (f root))
    (oneWay : ∀ s, s.Sound → Store.OneWay s (f root s).2) :
    Parallel inside w w' (change ⟨0, root⟩ f w) (change ⟨0, root⟩ f w') := by
  obtain ⟨sound, sound'⟩ := beside.sound
  obtain ⟨answer, same⟩ := stays.alike _ _ sound sound' beside.same
  rw [change_eq, change_eq]
  refine ⟨answer, ⟨?_, beside.handles, ?_, ?_, fun k member => ?_⟩, fun k other => ?_, fun k other => ?_⟩
  · simpa [World.setVolume] using beside.there
  · simp only [volume_setVolume beside.there.1, volume_setVolume beside.there.2, store_after]
    exact ⟨stays.sound _ sound, stays.sound _ sound'⟩
  · simp only [volume_setVolume beside.there.1, volume_setVolume beside.there.2, store_after]
    exact same
  · simp only [volume_setVolume beside.there.1, volume_setVolume beside.there.2]
    rw [past_after sound (stays.sound _ sound) (oneWay _ sound), beside.past k member,
      past_after sound' (stays.sound _ sound') (oneWay _ sound'),
      Store.lost_congr (beside.same k member) (same k member)]
  · simp only [volume_setVolume beside.there.1, store_after]
    exact stays.outside _ sound k other
  · simp only [volume_setVolume beside.there.2, store_after]
    exact stays.outside _ sound' k other

end

theorem Parallel.telling (action : Action α) (tell : α → Answer)
    (parallel : Parallel inside w w' (action w) (action w')) :
    Parallel inside w w' (telling action tell w) (telling action tell w') := by
  rw [telling_eq, telling_eq]
  exact ⟨by rw [parallel.answer], parallel.beside, parallel.left, parallel.right⟩

/-- Both worlds may get the same handle. -/
theorem Beside.opened (beside : Beside inside w w') (h : Handle) :
    Beside inside (newFile h w).2 (newFile h w').2 :=
  ⟨beside.there, congrArg (·.push h) beside.handles, beside.sound, beside.same, beside.past⟩

/-- A handle may be set to the same state in both worlds. -/
theorem Beside.set (beside : Beside inside w w') (i : Nat) (h : Handle) :
    Beside inside (setHandle w i h) (setHandle w' i h) :=
  ⟨beside.there, congrArg (·.setIfInBounds i h) beside.handles, beside.sound, beside.same, beside.past⟩

/-- **A view is asked alike in both worlds.** -/
theorem parallel_ask (beside : Beside inside w w') (confined : Confined inside root) (request : Request) :
    Parallel inside w w' (request.ask ⟨0, root⟩ w) (request.ask ⟨0, root⟩ w') := by
  obtain ⟨sound, sound'⟩ := beside.sound
  have same := beside.same
  cases request with
  | openFile name =>
    rw [Request.ask, opening_openFile, opening_openFile, locate_same confined same]
    cases locate root (w'.volume 0).store name with
    | error fault => exact beside.asked rfl
    | ok l => exact ⟨by rw [beside.handles], beside.opened _, fun _ _ => rfl, fun _ _ => rfl⟩
  | stat name => exact .telling (Memory.stat ⟨0, root⟩ name) .info (beside.asked (beside.stat_same confined name))
  | read name =>
    exact .telling (Memory.ask ⟨0, root⟩ fun root s => content root s name) .content
      (beside.asked (content_same confined same name))
  | list dir =>
    exact .telling (fun w => (listing ⟨0, root⟩ dir w, w)) .infos (beside.asked (beside.listing_same confined dir))
  | glob pattern =>
    exact .telling (Memory.ask ⟨0, root⟩ fun root s => glob root s pattern) .names
      (beside.asked (glob_same confined sound sound' same pattern))
  | sub dir =>
    exact .telling (Memory.ask ⟨0, root⟩ fun root s => sub root s dir) .view
      (beside.asked (sub_same confined same dir))
  | mkdirAll dir mode =>
    exact .telling _ _ (beside.changed (fun root => mkdirAll root dir mode) (staysIn_mkdirAll confined dir mode)
      fun s _ => (grows_mkdirAll root dir mode s).oneWay)
  | create name mode =>
    have changed := beside.changed (fun root => create root name mode) (staysIn_create confined name mode)
      fun s _ => (grows_create root name mode s).oneWay
    rw [Request.ask, opening_createFile, opening_createFile]
    generalize change ⟨0, root⟩ (fun root => create root name mode) w = x,
      change ⟨0, root⟩ (fun root => create root name mode) w' = y at changed ⊢
    obtain ⟨r, v⟩ := x
    obtain ⟨r', v'⟩ := y
    obtain ⟨answer, left, kept, kept'⟩ := changed
    obtain rfl : r = r' := answer
    cases r with
    | error fault => exact ⟨rfl, left, kept, kept'⟩
    | ok made => exact ⟨by rw [beside.handles], left.opened _, kept, kept'⟩
  | write name data mode =>
    exact .telling _ _ (beside.changed (fun root => write root name data mode) (staysIn_write confined name data mode)
      fun s _ => oneWay_write root name data mode s)
  | remove name =>
    exact .telling _ _ (beside.changed (fun root => remove root name) (staysIn_remove confined name)
      fun s sound => oneWay_remove sound root name)
  | removeAll name =>
    exact .telling _ _ (beside.changed (fun root => removeAll root name) (staysIn_removeAll confined name)
      fun s sound => oneWay_removeAll sound root name)

/-- A handle does alike in both worlds what depends on the store only as it does. -/
theorem Beside.handled (beside : Beside inside w w') (i : Nat) (f : World → Handle → Except Error α × Handle)
    (same : f w (handle w i) = f w' (handle w' i)) : Parallel inside w w' (onHandle i f w) (onHandle i f w') := by
  unfold onHandle
  rw [same]
  obtain ⟨r, h⟩ := f w' (handle w' i)
  exact ⟨rfl, beside.set i h, fun _ _ => rfl, fun _ _ => rfl⟩

theorem Beside.handle_same (beside : Beside inside w w') (i : Nat) : handle w i = handle w' i := by
  rw [handle, handle, beside.handles]

/-! ## The views of a subtree -/

/-- A root key in the subtree of a row. -/
def BelowRow (as : List Text) (root : Text) : Prop := ∃ bs, Names (as ++ bs) ∧ root = ofReduced true (as ++ bs)

theorem inSubtree_row (hne : as ≠ []) (bs : List Text) :
    InSubtree (ofReduced true as) (ofReduced true (as ++ bs)) := by
  by_cases own : bs = []
  · left
    rw [own, List.append_nil]
  · right
    rw [ofReduced_append own hne]
    exact ⟨joined bs, by rw [List.append_assoc]; rfl⟩

/-- Whatever is below a key of a subtree is in the subtree. -/
theorem InSubtree.under {j : Text} (hne : as ≠ []) (ha : Names as) (member : InSubtree (ofReduced true as) k)
    (under : Store.Under k j) : InSubtree (ofReduced true as) j := by
  right
  rcases member with rfl | below
  · rw [← branch_ofReduced ha hne]
    exact under.2
  · exact below.trans ((Store.isPrefix_branch k).trans under.2)

/-- A view in the subtree names nothing but keys of the subtree. -/
theorem BelowRow.limited (hne : as ≠ []) (below : BelowRow as root) :
    Confined (InSubtree (ofReduced true as)) root := by
  obtain ⟨bs, names, rfl⟩ := below
  constructor
  · intro name valid
    obtain ⟨cs, hc, rfl⟩ := isValid_iff_names.1 valid
    rw [key_ofReduced names hc, List.append_assoc]
    exact inSubtree_row hne _
  · intro dir valid level member
    obtain ⟨cs, hc, rfl⟩ := isValid_iff_names.1 valid
    obtain ⟨front, -, key⟩ := (exists_level_iff names hc).1 ⟨level, member, rfl⟩
    rw [key, List.append_assoc]
    exact inSubtree_row hne _
  · exact fun k j member under => member.under hne (names_append.1 names).1 under

theorem BelowRow.sub (below : BelowRow as root) (valid : isValid dir = true) : BelowRow as (key root dir) := by
  obtain ⟨bs, names, rfl⟩ := below
  obtain ⟨cs, hc, rfl⟩ := isValid_iff_names.1 valid
  have longer := names_append.2 ⟨names, hc⟩
  rw [List.append_assoc] at longer
  exact ⟨bs ++ cs, longer, by rw [key_ofReduced names hc, List.append_assoc]⟩

/-! ## Two sessions side by side -/

/-- Two sessions with the same views, all of them in a subtree on which their stores agree, and the same handles. -/
structure Twins (as : List Text) (s s' : Session) : Prop where
  roots : s.roots = s'.roots
  beside : Beside (InSubtree (ofReduced true as)) s.world s'.world
  views : ∀ root ∈ s.roots, BelowRow as root
  handles : ∀ h ∈ s.world.memoryHandles, h.view.volume = 0 ∧ BelowRow as h.view.root

section
variable {s s' : Session} {c : Call} (hne : as ≠ []) (twins : Twins as s s')
include hne twins

omit hne in
theorem Twins.wired : s.Wired where
  volume := twins.beside.there.1
  roots := by
    intro root member
    obtain ⟨bs, names, rfl⟩ := twins.views root member
    exact isRoot_ofReduced names
  handles := by
    intro h member
    obtain ⟨own, bs, names, row⟩ := twins.handles h member
    exact ⟨own, row ▸ isRoot_ofReduced names⟩

omit hne in
/-- A handle is one of a view in the subtree, or stands for none. -/
theorem Twins.handle_cases (i : Nat) :
    (∃ root, (handle s.world i).view = ⟨0, root⟩ ∧ BelowRow as root) ∨
      handle s.world i = .ofDirectory ⟨0, []⟩ [] 0 := by
  by_cases there : i < s.world.memoryHandles.size
  · obtain ⟨own, below⟩ := twins.handles _ (handle_mem there)
    exact .inl ⟨_, by rw [← own], below⟩
  · exact .inr (handle_of_size_le (Nat.le_of_not_lt there))

omit hne in
theorem Twins.aimed (aims : c.Aims s) {v : Nat} {request : Request} (call : c = .on v request) :
    BelowRow as (s.root v) := by
  have there := aims v request call
  rw [Session.root, List.getD_eq_getElem?_getD, List.getElem?_eq_getElem there]
  exact twins.views _ (List.getElem_mem there)

/-- What a handle lists it lists in both worlds. -/
theorem Twins.listing_same (i : Nat) :
    listing (handle s.world i).view (handle s.world i).name s.world =
      listing (handle s.world i).view (handle s.world i).name s'.world := by
  rcases twins.handle_cases i with ⟨root, own, below⟩ | idle
  · rw [own]
    exact twins.beside.listing_same (below.limited hne) _
  · rw [idle]
    rfl

theorem Twins.stat_same (i : Nat) :
    (stat (handle s.world i).view (handle s.world i).name s.world).1 =
      (stat (handle s.world i).view (handle s.world i).name s'.world).1 := by
  rcases twins.handle_cases i with ⟨root, own, below⟩ | idle
  · rw [own]
    exact twins.beside.stat_same (below.limited hne) _
  · rw [idle]
    rfl

/-- A handle is closed alike in both worlds. -/
theorem Twins.closed (i : Nat) :
    Parallel (InSubtree (ofReduced true as)) s.world s'.world (closeHandle i s.world) (closeHandle i s'.world) := by
  have same := twins.beside.handle_same i
  have set := twins.beside.set i (handle s.world i).close
  cases handed : (handle s.world i).commit with
  | none =>
    simp only [closeHandle, ← same, handed]
    exact ⟨rfl, set, fun _ _ => rfl, fun _ _ => rfl⟩
  | some data =>
    rcases twins.handle_cases i with ⟨root, own, below⟩ | idle
    · have changed := set.changed (fun root => write root (handle s.world i).name data (handle s.world i).mode)
        (staysIn_write (below.limited hne) _ _ _) fun s _ => oneWay_write root _ _ _ s
      simp only [closeHandle, ← same, handed, own]
      exact ⟨congrArg (Except.map fun _ => ()) changed.answer, changed.beside, changed.left, changed.right⟩
    · rw [idle] at handed
      cases handed

/-- **One call does the same in two sessions side by side.** -/
theorem parallel_perform (aims : c.Aims s) :
    (s.perform c).1 = (s'.perform c).1 ∧ Twins as (s.perform c).2 (s'.perform c).2 ∧
      (∀ k, ¬InSubtree (ofReduced true as) k → (s.perform c).2.store.get? k = s.store.get? k) ∧
      ∀ k, ¬InSubtree (ofReduced true as) k → (s'.perform c).2.store.get? k = s'.store.get? k := by
  have same := twins.beside.handle_same
  -- An action that goes alike leaves the sessions side by side, whatever becomes of the views.
  have act {x y : Except Error Answer × World} {roots roots' : List Text} (views : roots = roots')
      (parallel : Parallel (InSubtree (ofReduced true as)) s.world s'.world x y)
      (performed : s.perform c = (x.1, ⟨x.2, roots⟩)) (performed' : s'.perform c = (y.1, ⟨y.2, roots'⟩)) :
      (s.perform c).1 = (s'.perform c).1 ∧ Twins as (s.perform c).2 (s'.perform c).2 ∧
        (∀ k, ¬InSubtree (ofReduced true as) k → (s.perform c).2.store.get? k = s.store.get? k) ∧
        ∀ k, ¬InSubtree (ofReduced true as) k → (s'.perform c).2.store.get? k = s'.store.get? k := by
    have kept := views_perform (P := fun view => view.volume = 0 ∧ BelowRow as view.root) (c := c)
      (fun _ _ view valid => ⟨view.1, view.2.sub valid⟩) (fun root member => ⟨rfl, twins.views root member⟩)
      twins.handles fun _ _ call => ⟨rfl, twins.aimed aims call⟩
    rw [performed] at kept
    rw [performed, performed']
    exact ⟨parallel.answer, ⟨views, parallel.beside, fun root member => (kept.1 root member).2, kept.2⟩,
      parallel.left, parallel.right⟩
  cases c with
  | on v request =>
    have root : s.root v = s'.root v := by rw [Session.root, Session.root, twins.roots]
    have parallel := parallel_ask twins.beside ((twins.aimed aims rfl).limited hne) request
    refine act ?_ (root ▸ parallel) (perform_on s v request) (perform_on s' v request)
    rw [twins.roots, ← root, parallel.answer]
  | read i size =>
    have handled := twins.beside.handled i (fun _ h => h.read size) (by rw [same])
    exact act twins.roots (handled.telling _ .content) rfl rfl
  | write i data =>
    have handled := twins.beside.handled i (fun _ h => h.write data) (by rw [same])
    exact act twins.roots (handled.telling _ .count) rfl rfl
  | list i n =>
    have handled := twins.beside.handled i (fun w h => h.list n (listing h.view h.name w))
      (by rw [← same, twins.listing_same hne])
    exact act twins.roots (handled.telling _ .infos) rfl rfl
  | stat i =>
    have told := Parallel.telling (Memory.stat (handle s.world i).view (handle s.world i).name) .info
      (twins.beside.asked (twins.stat_same hne i))
    exact act twins.roots told rfl (by rw [same]; rfl)
  | close i => exact act twins.roots ((twins.closed hne i).telling _ fun _ => .done) rfl rfl

end

/-- **Calls on two sessions side by side**: they answer the same, they leave the sessions side by side, and they touch
no key outside the subtree. The induction is on the calls. -/
theorem parallel_after (hne : as ≠ []) (calls : List Call) {s s' : Session} (twins : Twins as s s')
    (aimed : Aimed s calls) :
    s.replies calls = s'.replies calls ∧ Twins as (s.after calls) (s'.after calls) ∧
      (∀ k, ¬InSubtree (ofReduced true as) k → (s.after calls).store.get? k = s.store.get? k) ∧
      ∀ k, ¬InSubtree (ofReduced true as) k → (s'.after calls).store.get? k = s'.store.get? k := by
  induction calls generalizing s s' with
  | nil => exact ⟨rfl, twins, fun _ _ => rfl, fun _ _ => rfl⟩
  | cons c calls ih =>
    obtain ⟨aims, later⟩ := aimed
    obtain ⟨answer, next, left, right⟩ := parallel_perform hne twins aims
    obtain ⟨replies, last, kept, kept'⟩ := ih next later
    refine ⟨by rw [Session.replies, Session.replies, answer, replies], last, fun k other => ?_, fun k other => ?_⟩
    · exact (kept k other).trans (left k other)
    · exact (kept' k other).trans (right k other)

/-! ## The view of a directory -/

/-- A clean rooted key other than `/` is a row of names behind a slash. -/
theorem row_of_clean (rooted : isRooted root = true) (normal : clean root = root) (proper : root ≠ [.char '/']) :
    ∃ as, Names as ∧ as ≠ [] ∧ root = ofReduced true as := by
  have names : Names (reduce true (steps root)) := names_reduce fun e => no_slash_of_mem_steps
  have row : root = ofReduced true (reduce true (steps root)) := normal.symm.trans (clean_rooted rooted)
  refine ⟨_, names, fun top => proper ?_, row⟩
  rw [row, top]
  rfl

/-- Sessions on stores that agree in a subtree are side by side. -/
theorem twins_on (ha : Names as) (sound : s.Sound) (sound' : t.Sound)
    (same : Store.SameOn (InSubtree (ofReduced true as)) s t) :
    Twins as (.on (ofReduced true as) s) (.on (ofReduced true as) t) where
  roots := rfl
  beside := ⟨⟨Nat.one_pos, Nat.one_pos⟩, rfl, ⟨sound, sound'⟩, same, fun _ _ => rfl⟩
  views := by
    intro root member
    obtain rfl : root = ofReduced true as := List.mem_singleton.1 member
    exact ⟨[], by rwa [List.append_nil], by rw [List.append_nil]⟩
  handles := fun h member => absurd member (Array.not_mem_empty h)

/-- **A view of a directory is confined to its subtree and does not depend on anything else.** On two stores that hold
the same under its key and below, any calls on the view, on views taken of it and on handles they open answer alike and
leave the stores the same there; every other key stays as it was in either. -/
theorem independent_view (rooted : isRooted root = true) (normal : clean root = root) (proper : root ≠ [.char '/'])
    (sound : s.Sound) (sound' : t.Sound) (same : ∀ k, InSubtree root k → s.get? k = t.get? k) (calls : List Call)
    (aimed : Aimed (.on root s) calls) : Independent root s t calls := by
  obtain ⟨as, names, hne, rfl⟩ := row_of_clean rooted normal proper
  obtain ⟨replies, twins, left, right⟩ := parallel_after hne calls (twins_on names sound sound' same) aimed
  exact ⟨replies, twins.beside.same, fun k other => ⟨left k other, right k other⟩⟩

/-- A view of `/a` beside a file `/a-x` that one of the stores has: a file is written, listed and removed. -/
theorem independent_view_sibling :
    Independent "/a".text (Store.empty.put "/a".text (.newDirectory "a".text Mode.standard))
      ((Store.empty.put "/a".text (.newDirectory "a".text Mode.standard)).put "/a-x".text
        (.newFile "a-x".text Mode.standard))
      [.on 0 (.write "f".text [1] 0), .on 0 (.list here), .on 0 (.removeAll here)] := by
  have sound := Store.sound_empty.put "/a".text (Entry.newDirectory "a".text Mode.standard)
  refine independent_view (by decide) (by decide) (by decide) sound (sound.put _ _) (fun k member => ?_) _
    (aimed_of_lt _ fun v request member => ?_)
  · rw [Store.get?_put _ "/a-x".text, if_neg]
    rintro rfl
    exact absurd member (by unfold InSubtree; decide)
  · obtain rfl : v = 0 := by
      simp only [List.mem_cons, Call.on.injEq, List.not_mem_nil, or_false] at member
      omega
    exact Nat.one_pos

end Vfs.Memory
