import Vfs.Proofs.Filesystem.Asking
import Vfs.Proofs.Memory.Preorder

/-!
# A walk that does something

A walk that visits what it reaches goes through the rows of its source in their order, as long as the source stays
what it was (`Errand`). What holds of the world once some first rows were visited is then carried from row to row:
either the walk goes through, and it holds for all rows, or the walk stops at a row, and what is left of the world is
what the rows before it left and what stopped it there (`walked`).
-/

namespace Vfs
set_option autoImplicit false
open Memory Vfs.Path

/-- An action answers and leaves one thing to hold, or fails and leaves another. -/
inductive Comes {α : Type} (done : α → World → Prop) (failed : Error → World → Prop) :
    Except Error α × World → Prop where
  | ok {a : α} {w : World} : done a w → Comes done failed (.ok a, w)
  | error {fault : Error} {w : World} : failed fault w → Comes done failed (.error fault, w)

/-- A walk went through some rows, or stopped at one of them. `I` holds of the world after some first rows, `F` after
some first rows and the failure at the next one. -/
inductive Went (I : List (List Text) → World → Prop) (F : List (List Text) → List Text → Error → World → Prop)
    (front rows : List (List Text)) : Trace × World → Prop where
  | through {t : Trace} {w : World} : t.outcome = .ok () → t.names = rows.map (ofReduced false) →
      I (front ++ rows) w → Went I F front rows (t, w)
  | stopped {t : Trace} {w : World} {fault : Error} {before after : List (List Text)} {bs : List Text} :
      rows = before ++ bs :: after → t.names = (before ++ [bs]).map (ofReduced false) → t.outcome = .error fault →
      F (front ++ before) bs fault w → Went I F front rows (t, w)

section
variable {I : List (List Text) → World → Prop} {F : List (List Text) → List Text → Error → World → Prop}
  {order front back rows rows' : List (List Text)} {t : Trace} {w : World}

/-- A walk goes on from where another one ended. -/
theorem Went.append {t' : Trace} (names : t.names = rows.map (ofReduced false))
    (went : Went I F (front ++ rows) rows' (t', w)) :
    Went I F front (rows ++ rows') (⟨t.visited ++ t'.visited, t'.outcome⟩, w) := by
  have reached : Trace.names ⟨t.visited ++ t'.visited, t'.outcome⟩ = rows.map (ofReduced false) ++ t'.names := by
    rw [← names]
    exact List.map_append
  cases went with
  | through ended names' held =>
    refine .through ended ?_ ?_
    · rw [reached, names', List.map_append]
    · rwa [← List.append_assoc]
  | stopped split names' failed left =>
    refine .stopped (by rw [split, List.append_assoc]) ?_ failed ?_
    · rw [reached, names', List.append_assoc, ← List.map_append]
    · rwa [← List.append_assoc]

/-- Walks one after the other go through the rows of all of them. -/
theorem went_sequence {α : Type} {walk : α → StateM World Trace} {rows : α → List (List Text)} {l : List α}
    (split : order = front ++ l.flatMap rows ++ back)
    (each : ∀ a ∈ l, ∀ front back w, order = front ++ rows a ++ back → I front w →
      Went I F front (rows a) (walk a w)) (begun : I front w) :
    Went I F front (l.flatMap rows) (Trace.sequence walk l w) := by
  induction l generalizing front w with
  | nil => exact .through rfl rfl (by rw [List.flatMap_nil, List.append_nil]; exact begun)
  | cons a l ih =>
    have first : order = front ++ rows a ++ (l.flatMap rows ++ back) := by
      rw [split, List.flatMap_cons]
      simp only [List.append_assoc]
    have rest : order = front ++ rows a ++ l.flatMap rows ++ back := by
      rw [first]
      simp only [List.append_assoc]
    have one := each a (List.mem_cons_self ..) front _ w first begun
    rw [Trace.sequence, bind_apply, List.flatMap_cons]
    generalize walk a w = x at one ⊢
    cases one with
    | stopped split' names failed left =>
      dsimp only
      rw [failed]
      exact .stopped (by rw [split', List.append_assoc]; rfl) names failed left
    | @through t w' ended names held =>
      have others := ih rest (fun b member => each b (List.mem_cons_of_mem a member)) held
      dsimp only
      rw [ended]
      dsimp only [bind_apply]
      generalize Trace.sequence walk l w' = y at others ⊢
      exact others.append names

end

namespace Memory

/-- What a walk of a view that stays as it is in `home` does row by row: it tells the first row, visits a row that
is next and lists it if it is a directory, and what holds is carried along. -/
structure Errand (source : Filesystem) (visit : Text → Info → Action Unit) (home : World) (n : Nat) (as : List Text)
    (order : List (List Text)) (I : List (List Text) → World → Prop)
    (F : List (List Text) → List Text → Error → World → Prop) : Prop where
  visits : ∀ {front bs back e w}, order = front ++ bs :: back →
    (home.volume n).store.get? (ofReduced true (as ++ bs)) = some e → I front w →
    Comes (fun _ => I (front ++ [bs])) (F front bs)
      (visit (ofReduced false bs) (describe ⟨n, ofReduced true as⟩ (ofReduced true (as ++ bs), e) home) w)
  lists : ∀ {front bs back w}, order = front ++ bs :: back →
    IsDirectory (home.volume n).store (ofReduced true (as ++ bs)) → I (front ++ [bs]) w →
    Comes (fun infos w' => listing ⟨n, ofReduced true as⟩ (ofReduced false bs) home = .ok infos ∧
      I (front ++ [bs]) w') (F front bs) (source.list (ofReduced false bs) w)

section
variable {source : Filesystem} {visit : Text → Info → Action Unit} {home w : World} {n depth : Nat}
  {as bs : List Text} {e : Entry} {order front back : List (List Text)}
  {I : List (List Text) → World → Prop} {F : List (List Text) → List Text → Error → World → Prop}

/-- The names of a listing are those that the order of a walk goes by. -/
theorem childNames_listing {infos : List Info} (names : Names (as ++ bs))
    (listed : listing ⟨n, ofReduced true as⟩ (ofReduced false bs) home = .ok infos) :
    infos.map (·.name) = childNames (home.volume n).store (ofReduced true (as ++ bs)) := by
  obtain ⟨ha, hb⟩ := names_append.1 names
  rw [listing] at listed
  unfold list at listed
  cases located : locate (ofReduced true as) (home.volume n).store (ofReduced false bs) with
  | error fault =>
    rw [located] at listed
    cases listed
  | ok l =>
    obtain ⟨k, e⟩ := l
    obtain ⟨-, rfl, -⟩ := locate_eq_ok.1 located
    simp only [located] at listed
    split at listed
    · obtain rfl := Except.ok.inj listed
      rw [List.map_map, List.map_filterMap, key_ofReduced ha hb, childNames]
      simp only [Option.map_map]
      rfl
    · cases listed

/-- **A walk goes through the rows in their order**, or stops at one of them. -/
theorem went_tree (errand : Errand source visit home n as order I F) (sound : (home.volume n).store.Sound)
    (labelled : LabelledUnder (home.volume n).store (ofReduced true (as ++ bs))) (names : Names (as ++ bs))
    (stored : (home.volume n).store.get? (ofReduced true (as ++ bs)) = some e)
    (deep : ∀ k e, (home.volume n).store.get? k = some e → k.length < depth + (ofReduced true (as ++ bs)).length)
    (split : order = front ++ preorder (home.volume n).store as depth bs ++ back) (begun : I front w) :
    Went I F front (preorder (home.volume n).store as depth bs)
      (source.walkTree visit depth (ofReduced false bs)
        (describe ⟨n, ofReduced true as⟩ (ofReduced true (as ++ bs), e) home) w) := by
  induction depth generalizing bs e front back w with
  | zero =>
    have short := deep _ e stored
    omega
  | succ depth ih =>
    obtain ⟨others, next⟩ : ∃ others, order = front ++ bs :: others := by
      rw [split, preorder, List.append_assoc]
      exact ⟨_, rfl⟩
    have kind : (describe ⟨n, ofReduced true as⟩ (ofReduced true (as ++ bs), e) home).directory = e.directory := rfl
    have visited := errand.visits next stored begun
    rw [Filesystem.walkTree_succ]
    generalize describe ⟨n, ofReduced true as⟩ (ofReduced true (as ++ bs), e) home = info at kind visited ⊢
    generalize visit (ofReduced false bs) info w = x at visited ⊢
    cases visited with
    | error failed => exact .stopped (List.nil_append _).symm rfl rfl (by rwa [List.append_nil])
    | @ok _ w' held =>
      dsimp only
      rw [kind]
      cases directory : e.directory with
      | false =>
        have noDirectory : ¬IsDirectory (home.volume n).store (ofReduced true (as ++ bs)) := by
          rintro ⟨d, found, kind'⟩
          obtain rfl := Option.some.inj (stored.symm.trans found)
          rw [directory] at kind'
          cases kind'
        rw [preorder, if_neg noDirectory]
        exact .through rfl rfl held
      | true =>
        have there : IsDirectory (home.volume n).store (ofReduced true (as ++ bs)) := ⟨e, stored, directory⟩
        have listed := errand.lists next there held
        rw [if_pos rfl]
        generalize source.list (ofReduced false bs) w' = y at listed ⊢
        cases listed with
        | error failed => exact .stopped (List.nil_append _).symm rfl rfl (by rwa [List.append_nil])
        | @ok infos w'' told =>
          obtain ⟨told, held'⟩ := told
          dsimp only
          have below : preorder (home.volume n).store as (depth + 1) bs =
              [bs] ++ infos.flatMap fun child => preorder (home.volume n).store as depth (bs ++ [child.name]) := by
            rw [preorder, if_pos there, ← childNames_listing names told, List.flatMap_map]
            rfl
          obtain ⟨infos', told', -, mem_infos⟩ := listing_spec sound labelled names there
          obtain rfl := Except.ok.inj (told.symm.trans told')
          rw [below] at split ⊢
          rw [← List.append_assoc] at split
          refine Went.append (t := ⟨[(ofReduced false bs, w.refresh info)], .ok ()⟩) rfl
            (went_sequence split (fun child member front back w split begun => ?_) held')
          obtain ⟨longer, e', stored', described⟩ := (mem_infos child.name child).1 ⟨member, rfl⟩
          have growth := length_snoc longer
          rw [List.append_assoc] at longer stored' growth described
          have path := child_ofReduced (names_append.1 longer).2
          have deeper : ∀ k e, (home.volume n).store.get? k = some e →
              k.length < depth + (ofReduced true (as ++ (bs ++ [child.name]))).length := by
            intro k e present
            have short := deep k e present
            omega
          have one := ih (labelled.behind longer (List.prefix_append ..)) longer stored' deeper split begun
          rw [path]
          rwa [described] at one

/-- A row that a walk can begin with: it is stored, and the keys below it name their entries. -/
structure Footing (home : World) (n : Nat) (as rs : List Text) (e : Entry) : Prop where
  sound : (home.volume n).store.Sound
  labelled : LabelledUnder (home.volume n).store (ofReduced true (as ++ rs))
  names : Names (as ++ rs)
  stored : (home.volume n).store.get? (ofReduced true (as ++ rs)) = some e

namespace Footing

variable {rs : List Text} (footing : Footing home n as rs e)
include footing

theorem there : ((home.volume n).store.get? (ofReduced true (as ++ rs))).isSome = true := by
  rw [footing.stored, Option.isSome_some]

/-- The rows stand in the order of their elements. -/
theorem sorted : (walkOrder home n as rs).Pairwise (· < ·) :=
  sorted_preorder footing.sound footing.labelled footing.names

/-- The rows are those at or below the first that are stored. -/
theorem mem_order (linked : Linked (home.volume n).store) : bs ∈ walkOrder home n as rs ↔
    rs <+: bs ∧ Names (as ++ bs) ∧ ((home.volume n).store.get? (ofReduced true (as ++ bs))).isSome = true :=
  mem_walkOrder footing.sound footing.labelled footing.names footing.there linked

/-- A row of the order is one of names, and listed if it is a directory. -/
theorem row (split : walkOrder home n as rs = front ++ bs :: back) :
    Names (as ++ bs) ∧ (IsDirectory (home.volume n).store (ofReduced true (as ++ bs)) →
      ∃ infos, listing ⟨n, ofReduced true as⟩ (ofReduced false bs) home = .ok infos) := by
  have member : bs ∈ walkOrder home n as rs := by
    rw [split]
    exact List.mem_append_right _ (List.mem_cons_self ..)
  have row := (stored_of_mem_preorder footing.sound footing.labelled footing.names footing.there member).1
  refine ⟨row, fun directory => ?_⟩
  obtain ⟨infos, listed, -, -⟩ :=
    listing_spec footing.sound (footing.labelled.behind row (isPrefix_of_mem_preorder member)) row directory
  exact ⟨infos, listed⟩

end Footing

/-- How a walk from a row ends: the row cannot be told, or its tree is gone through, or the walk stops there. -/
inductive Walked (I : List (List Text) → World → Prop) (F : List (List Text) → List Text → Error → World → Prop)
    (rs : List Text) (order : List (List Text)) : Trace × World → Prop where
  | untold {w : World} {fault : Error} : F [] rs fault w → Walked I F rs order (.failed fault, w)
  | went {x : Trace × World} : Went I F [] order x → Walked I F rs order x

theorem walked {rs : List Text} (errand : Errand source visit home n as (walkOrder home n as rs) I F)
    (footing : Footing home n as rs e) (same : ∀ w, I [] w → w.volume n = home.volume n)
    (told : Comes (fun info w => info = describe ⟨n, ofReduced true as⟩ (ofReduced true (as ++ rs), e) home ∧ I [] w)
      (F [] rs) (source.stat (ofReduced false rs) w)) :
    Walked I F rs (walkOrder home n as rs) (source.walkWith visit (ofReduced false rs) w) := by
  rw [Filesystem.walkWith_eq]
  generalize source.stat (ofReduced false rs) w = x at told ⊢
  cases told with
  | error failed => exact .untold failed
  | @ok info w' told =>
    obtain ⟨rfl, begun⟩ := told
    have order := walkOrder_eq footing.sound footing.labelled footing.names footing.there (same w' begun)
    have went := went_tree errand footing.sound footing.labelled footing.names footing.stored
      (fun k e present => length_lt_spare (same w' begun ▸ footing.sound) (same w' begun ▸ present) _)
      (by rw [order, List.append_nil]; rfl) begun
    rw [order] at went
    exact .went went

end

section
variable {w : World} {n : Nat} {as rs : List Text} {e : Entry}

/-- A stored row is found under its name. -/
theorem locate_row (names : Names (as ++ rs))
    (stored : (w.volume n).store.get? (ofReduced true (as ++ rs)) = some e) :
    locate (ofReduced true as) (w.volume n).store (ofReduced false rs) = .ok (ofReduced true (as ++ rs), e) := by
  obtain ⟨ha, hr⟩ := names_append.1 names
  have key := key_ofReduced ha hr
  exact locate_eq_ok.2 ⟨isValid_iff_names.2 ⟨rs, hr, rfl⟩, key, by rw [key, stored]⟩

theorem stat_row (names : Names (as ++ rs))
    (stored : (w.volume n).store.get? (ofReduced true (as ++ rs)) = some e) :
    stat ⟨n, ofReduced true as⟩ (ofReduced false rs) w =
      (.ok (describe ⟨n, ofReduced true as⟩ (ofReduced true (as ++ rs), e) w), w) := by
  refine Prod.ext ?_ rfl
  rw [stat, locate_row names stored]
  rfl

/-- A walk that does nothing where it visits reaches the rows in their order, if it is told what a view tells. -/
theorem walk_order {fs : Filesystem} (shows : Shows w ⟨n, ofReduced true as⟩ fs.stat fs.list)
    (footing : Footing w n as rs e) :
    (fs.walk (ofReduced false rs) w).1.outcome = .ok () ∧
      (fs.walk (ofReduced false rs) w).1.names = (walkOrder w n as rs).map (ofReduced false) := by
  have errand : Errand fs (fun _ _ => pure ()) w n as (walkOrder w n as rs) (fun _ w' => w'.volumes = w.volumes)
      fun _ _ _ _ => False := by
    constructor
    · intro front bs back e w' _ _ same
      exact .ok same
    · intro front bs back w' split directory same
      obtain ⟨infos, listed⟩ := (footing.row split).2 directory
      have asked := shows.list (ofReduced false bs)
      have left := asked.volumes w' same
      rw [asked.run same, listed]
      exact .ok ⟨rfl, left⟩
  have told : Comes (fun info w' => info = describe ⟨n, ofReduced true as⟩ (ofReduced true (as ++ rs), e) w ∧
      w'.volumes = w.volumes) (fun _ _ => False) (fs.stat (ofReduced false rs) w) := by
    have asked := shows.stat (ofReduced false rs)
    have left := asked.volumes w rfl
    rw [asked.run rfl, stat_row footing.names footing.stored]
    exact .ok ⟨rfl, left⟩
  have ended := walked errand footing (fun w' same => volume_eq same n) told
  rw [Filesystem.walk]
  generalize fs.walkWith (fun _ _ => pure ()) (ofReduced false rs) w = x at ended ⊢
  cases ended with
  | untold never => exact never.elim
  | went went =>
    cases went with
    | through ended names' _ => exact ⟨ended, names'⟩
    | stopped _ _ _ never => exact never.elim

end

end Memory

end Vfs
