import Vfs.Proofs.Memory.Laying
import Vfs.Proofs.Memory.Rooted
import Vfs.Proofs.Memory.Spelling

/-!
# Changes on two branches

Making a directory, writing a file and taking out a tree each change what one name leads to, and on the way to it
they make the directories that are missing. Where neither of two names leads to the other, what the two lead to is
apart, and steps that stay on keys apart may be done in either order (`StaysIn.commute`). The directories on the way
are shared, as far as the two names begin alike: they are made by the first of two steps and passed over by the
second, or they stop the second as they stopped the first (`makeLevels_twice`). So the two changes may be done in
either order, on every store and through every view (`mutations_commute`).
-/

namespace Vfs.Memory
set_option autoImplicit false
open Vfs.Path Store

/-- A call that changes what one name leads to. -/
inductive Mutation where
  | mkdirAll (dir : Text)
  | write (name : Text) (data : Bytes)
  | removeAll (name : Text)

/-- What a step answers, told in other words. -/
def told {α β : Type} (tell : α → β) (step : Store Entry → Except Error α × Store Entry) (s : Store Entry) :
    Except Error β × Store Entry :=
  ((step s).1.map tell, (step s).2)

namespace Mutation

/-- The name that a call is about. -/
def name : Mutation → Text
  | .mkdirAll name | .write name _ | .removeAll name => name

/-- The call as it is made on a view. -/
def request (mode : Int) : Mutation → Request
  | .mkdirAll dir => .mkdirAll dir mode
  | .write name data => .write name data mode
  | .removeAll name => .removeAll name

/-- What the call makes of a store. -/
def step (root : Text) (mode : Int) : Mutation → Store Entry → Except Error Answer × Store Entry
  | .mkdirAll dir => told (fun _ => .done) (Memory.mkdirAll root dir mode)
  | .write name data => told .count (Memory.write root name data mode)
  | .removeAll name => told (fun _ => .done) (Memory.removeAll root name)

theorem ask_eq (m : Mutation) (mode : Int) (view : View) (w : World) :
    (m.request mode).ask view w = change view (fun root => m.step root mode) w := by
  cases m with
  | mkdirAll | write | removeAll => rfl

end Mutation

/-- Two calls may be made in either order: each answers the same before and after the other, and in the end the same
keys are stored in the same row, with the same entries. -/
structure Commutes (view : View) (a b : Request) (w : World) : Prop where
  first : (a.ask view (b.ask view w).2).1 = (a.ask view w).1
  second : (b.ask view (a.ask view w).2).1 = (b.ask view w).1
  keys : ((a.ask view (b.ask view w).2).2.volume view.volume).store.keys =
    ((b.ask view (a.ask view w).2).2.volume view.volume).store.keys
  entries : ∀ k, ((a.ask view (b.ask view w).2).2.volume view.volume).store.get? k =
    ((b.ask view (a.ask view w).2).2.volume view.volume).store.get? k

variable {α β : Type} {inside inside' : Text → Prop} {s t : Store Entry} {root dir dir' name : Text} {mode : Int}
  {shared : List Level} {f : Store Entry → Except Error α × Store Entry}
  {g : Store Entry → Except Error β × Store Entry}

/-! ## Steps in either order -/

/-- Two steps may be done in either order on a store. -/
structure StepsCommute (f : Store Entry → Except Error α × Store Entry) (g : Store Entry → Except Error β × Store Entry)
    (s : Store Entry) : Prop where
  first : (f (g s).2).1 = (f s).1
  second : (g (f s).2).1 = (g s).1
  same : ∀ k, (f (g s).2).2.get? k = (g (f s).2).2.get? k

theorem StepsCommute.symm (commute : StepsCommute f g s) : StepsCommute g f s :=
  ⟨commute.second, commute.first, fun k => (commute.same k).symm⟩

/-- Steps that stay on keys apart do not see each other. -/
theorem StaysIn.commute (stays : StaysIn inside f) (stays' : StaysIn inside' g) (apart : ∀ k, inside k → ¬inside' k)
    (sound : s.Sound) : StepsCommute f g s := by
  have unseen : SameOn inside (g s).2 s := fun k own => stays'.outside s sound k (apart k own)
  have unseen' : SameOn inside' (f s).2 s := fun k own => stays.outside s sound k fun other => apart k other own
  obtain ⟨first, kept⟩ := stays.alike _ s (stays'.sound s sound) sound unseen
  obtain ⟨second, kept'⟩ := stays'.alike _ s (stays.sound s sound) sound unseen'
  have after := stays.outside _ (stays'.sound s sound)
  have after' := stays'.outside _ (stays.sound s sound)
  refine ⟨first, second, fun k => ?_⟩
  by_cases own : inside k
  · rw [kept k own, after' k (apart k own)]
  · rw [after k own]
    by_cases own' : inside' k
    · rw [kept' k own']
    · rw [after' k own', stays.outside s sound k own, stays'.outside s sound k own']

theorem StaysIn.told (stays : StaysIn inside f) (tell : α → β) : StaysIn inside (told tell f) where
  sound := stays.sound
  alike := fun s t hs ht same => by
    obtain ⟨answer, left⟩ := stays.alike s t hs ht same
    exact ⟨congrArg (Except.map tell) answer, left⟩
  outside := stays.outside

theorem StaysIn.mono (stays : StaysIn inside f) (wider : ∀ k, inside k → inside' k) : StaysIn inside' f where
  sound := stays.sound
  alike := fun s t hs ht same => by
    obtain ⟨answer, left⟩ := stays.alike s t hs ht fun k own => same k (wider k own)
    refine ⟨answer, fun k own' => ?_⟩
    by_cases own : inside k
    · exact left k own
    · rw [stays.outside s hs k own, stays.outside t ht k own, same k own']
  outside := fun s sound k other => stays.outside s sound k fun own => other (wider k own)

/-! ## Levels that are shared -/

/-- Levels on which a step was stopped stop the next one, and those it has made are passed over. -/
theorem makeLevels_twice (dir dir' : Text) (mode : Int) (levels : List Level) (s : Store Entry) :
    makeLevels dir' mode levels (makeLevels dir mode levels s).2 =
      ((makeLevels dir' mode levels s).1, (makeLevels dir mode levels s).2) := by
  induction levels generalizing s with
  | nil => rfl
  | cons level rest ih =>
    have passed {s' : Store Entry} (there : IsDirectory s' level.key) :
        makeLevels dir' mode (level :: rest) (makeLevels dir mode rest s').2 =
          ((makeLevels dir' mode rest s').1, (makeLevels dir mode rest s').2) := by
      rw [makeLevels_stored ((grows_makeLevels dir mode rest s').isDirectory there), ih]
    cases found : s.get? level.key with
    | some e =>
      cases kind : e.directory with
      | true =>
        have there : IsDirectory s level.key := ⟨e, found, kind⟩
        rw [makeLevels_stored there, makeLevels_stored there, passed there]
      | false => simp [makeLevels, found, kind]
    | none =>
      cases allowed : Mode.permissions mode with
      | error fault => simp [makeLevels, found, allowed]
      | ok bits =>
        have made (dir : Text) : makeLevels dir mode (level :: rest) s =
            makeLevels dir mode rest (s.put level.key (.newDirectory level.name bits)) := by
          simp only [makeLevels, found, allowed]
        rw [made, made, passed ⟨_, by rw [get?_put, if_pos rfl], rfl⟩]

/-- A step behind some levels: they are made first, and what stops them stops the step. -/
def afterLevels (dir : Text) (mode : Int) (levels : List Level) (f : Store Entry → Except Error α × Store Entry) :
    Store Entry → Except Error α × Store Entry :=
  andThen (makeLevels dir mode levels) fun _ => f

theorem afterLevels_error {fault : Error} (stopped : (makeLevels dir mode shared s).1 = .error fault) :
    afterLevels dir mode shared f s = (.error fault, (makeLevels dir mode shared s).2) :=
  andThen_error stopped

theorem afterLevels_ok (made : (makeLevels dir mode shared s).1 = .ok ()) :
    afterLevels dir mode shared f s = f (makeLevels dir mode shared s).2 :=
  andThen_ok made

/-- Levels that are stored as directories are passed over. -/
theorem afterLevels_stored (stored : ∀ l ∈ shared, IsDirectory s l.key) : afterLevels dir mode shared f s = f s := by
  have passed : makeLevels dir mode shared s = (.ok (), s) := makeLevels_all stored
  rw [afterLevels_ok (congrArg Prod.fst passed), passed]

theorem StaysIn.isDirectory (stays : StaysIn inside f) (sound : s.Sound) {k : Text} (free : ¬inside k)
    (there : IsDirectory s k) : IsDirectory (f s).2 k := by
  obtain ⟨e, stored, kind⟩ := there
  exact ⟨e, (stays.outside s sound k free).trans stored, kind⟩

/-- Two steps behind the same levels: the second finds the levels as the first has left them. -/
theorem StaysIn.commute_behind (stays : StaysIn inside f) (stays' : StaysIn inside' g)
    (apart : ∀ k, inside k → ¬inside' k) (free : ∀ l ∈ shared, ¬inside l.key ∧ ¬inside' l.key) (sound : s.Sound)
    (dir dir' : Text) :
    StepsCommute (afterLevels dir mode shared f) (afterLevels dir' mode shared g) s := by
  have left : (makeLevels dir' mode shared s).2 = (makeLevels dir mode shared s).2 :=
    (makeLevels_alike dir' dir mode shared s).left
  have again := makeLevels_twice dir' dir mode shared s
  have again' := makeLevels_twice dir dir' mode shared s
  have ways := (makeLevels_alike dir dir' mode shared s).answer
  generalize ended : (makeLevels dir mode shared s).1 = r, ended' : (makeLevels dir' mode shared s).1 = r' at ways
  cases ways with
  | error alike =>
    have stopped := afterLevels_error (f := f) ended
    have stopped' := afterLevels_error (f := g) ended'
    rw [ended] at again
    rw [ended'] at again'
    have once := afterLevels_error (f := f) (congrArg Prod.fst again)
    have once' := afterLevels_error (f := g) (congrArg Prod.fst again')
    constructor
    · rw [stopped', stopped, once]
    · rw [stopped', stopped, once']
    · intro k
      rw [stopped', stopped, once, once', again, again', left]
  | ok same =>
    have stored := makeLevels_ok ended
    have sound' := (grows_makeLevels dir mode shared s).sound sound
    have went := afterLevels_ok (f := f) ended
    have went' := afterLevels_ok (f := g) ended'
    rw [left] at went'
    generalize (makeLevels dir mode shared s).2 = t at stored sound' went went'
    have on : afterLevels dir mode shared f (g t).2 = f (g t).2 :=
      afterLevels_stored fun l member => stays'.isDirectory sound' (free l member).2 (stored l member)
    have on' : afterLevels dir' mode shared g (f t).2 = g (f t).2 :=
      afterLevels_stored fun l member => stays.isDirectory sound' (free l member).1 (stored l member)
    obtain ⟨first, second, same⟩ := stays.commute stays' apart sound'
    constructor
    · rw [went', went, on, first]
    · rw [went', went, on', second]
    · intro k
      rw [went', went, on, on', same]

/-- How a step goes about levels that it may share with another one: it has nothing to do with them, or it makes them
first, and stays on its own keys after that. -/
inductive Passes (mode : Int) (shared : List Level) (own : Text → Prop)
    (f : Store Entry → Except Error α × Store Entry) : Prop where
  | apart (stays : StaysIn own f)
  | behind (dir : Text) (next : Store Entry → Except Error α × Store Entry) (stays : StaysIn own next)
      (eq : f = afterLevels dir mode shared next)

/-- A step on its own keys, and one behind levels that are none of them. -/
theorem StaysIn.commute_apart (stays : StaysIn inside f) (stays' : StaysIn inside' g)
    (apart : ∀ k, inside k → ¬inside' k) (free : ∀ l ∈ shared, ¬inside l.key) (sound : s.Sound) (dir : Text) :
    StepsCommute f (afterLevels dir mode shared g) s := by
  have levels : StaysIn (fun k => inside' k ∨ ∃ l ∈ shared, l.key = k) (makeLevels dir mode shared) :=
    staysIn_makeLevels dir mode fun l member => .inr ⟨l, member, rfl⟩
  refine stays.commute (levels.andThen fun _ => stays'.mono fun k own => .inl own) (fun k own => ?_) sound
  rintro (other | ⟨l, member, rfl⟩)
  · exact apart k own other
  · exact free l member own

/-- Steps on keys apart may be done in either order, though both may begin with the same levels. -/
theorem Passes.commute (passes : Passes mode shared inside f) (passes' : Passes mode shared inside' g)
    (apart : ∀ k, inside k → ¬inside' k) (free : ∀ l ∈ shared, ¬inside l.key ∧ ¬inside' l.key) (sound : s.Sound) :
    StepsCommute f g s := by
  have apart' : ∀ k, inside' k → ¬inside k := fun k other own => apart k own other
  cases passes with
  | apart stays =>
    cases passes' with
    | apart stays' => exact stays.commute stays' apart sound
    | behind dir' next' stays' eq' =>
      rw [eq']
      exact stays.commute_apart stays' apart (fun l member => (free l member).1) sound dir'
  | behind dir next stays eq =>
    cases passes' with
    | apart stays' =>
      rw [eq]
      exact (stays'.commute_apart stays apart' (fun l member => (free l member).2) sound dir).symm
    | behind dir' next' stays' eq' =>
      rw [eq, eq']
      exact stays.commute_behind stays' apart free sound dir dir'

/-! ## Each change -/

theorem andThen_assoc {γ : Type} (step : Store Entry → Except Error α × Store Entry)
    (next : α → Store Entry → Except Error β × Store Entry) (last : β → Store Entry → Except Error γ × Store Entry) :
    andThen (andThen step next) last = andThen step fun a => andThen (next a) last := by
  funext s
  unfold andThen
  rcases step s with ⟨r, t⟩
  cases r with
  | error fault => rfl
  | ok a => rfl

theorem told_andThen {γ : Type} (tell : β → γ) (step : Store Entry → Except Error α × Store Entry)
    (next : α → Store Entry → Except Error β × Store Entry) :
    told tell (andThen step next) = andThen step fun a => told tell (next a) := by
  funext s
  unfold told andThen
  rcases step s with ⟨r, t⟩
  cases r with
  | error fault => rfl
  | ok a => rfl

theorem Passes.told {own : Text → Prop} (passes : Passes mode shared own f) (tell : α → β) :
    Passes mode shared own (told tell f) := by
  cases passes with
  | apart stays => exact .apart (stays.told tell)
  | behind dir next stays eq =>
    refine .behind dir _ (stays.told tell) ?_
    rw [eq, afterLevels, told_andThen]
    rfl

theorem Passes.andThen {own : Text → Prop} (passes : Passes mode shared own f)
    {next : α → Store Entry → Except Error β × Store Entry} (later : ∀ a, StaysIn own (next a)) :
    Passes mode shared own (andThen f next) := by
  cases passes with
  | apart stays => exact .apart (stays.andThen later)
  | behind dir first stays eq =>
    refine .behind dir _ (stays.andThen later) ?_
    rw [eq, afterLevels, andThen_assoc]
    rfl

/-- The levels down to a name are made one part after the other. -/
theorem makeLevels_append (dir : Text) (mode : Int) (front back : List Level) :
    makeLevels dir mode (front ++ back) = afterLevels dir mode front (makeLevels dir mode back) := by
  funext s
  unfold afterLevels andThen
  induction front generalizing s with
  | nil => rfl
  | cons level front ih =>
    simp only [List.cons_append, makeLevels_eq, atLevel]
    cases s.get? level.key with
    | some e =>
      dsimp only
      split
      · exact ih s
      · rfl
    | none =>
      cases Mode.permissions mode with
      | error fault => rfl
      | ok bits => exact ih _

section
variable {made found es front back : List Text} {b : Text} (fronts : Fronts root made found)
include fronts

/-- The directories down to a name are made behind those that lead to one of them. -/
theorem passes_mkdirAll (mode : Int) (names : Names (es ++ back)) (own : back <+: b :: front) :
    Passes mode (levels root (ofReduced false es)) (Own made found (es ++ [b]))
      (mkdirAll root (ofReduced false (es ++ back)) mode) := by
  have valid := isValid_iff_names.2 ⟨es ++ back, names, rfl⟩
  have pieces : Pieces ((made ++ es) ++ back) := by
    rw [List.append_assoc]
    exact pieces_append.2 ⟨fronts.pieces, names.pieces⟩
  refine .behind (ofReduced false (es ++ back))
    (makeLevels (ofReduced false (es ++ back)) mode (deeper (ofReduced true (made ++ es)) back))
    (staysIn_makeLevels _ mode fun l member => ?_) ?_
  · obtain ⟨way, rest, proper, rfl, key⟩ := key_of_mem_deeper pieces member
    obtain ⟨d, way, rfl⟩ := List.exists_cons_of_ne_nil proper
    obtain rfl : d = b := (List.cons_prefix_cons.1 own).1
    rw [key, List.append_assoc, List.append_cons es d way]
    exact own_row (List.mem_cons_self ..) (by simp) way
  · funext s
    rw [mkdirAll, if_pos valid, fronts.levels_append names, makeLevels_append]

/-- Each change makes the directories that lead to its name, or does not touch them, and stays in the subtree. -/
theorem passes_step (m : Mutation) (names : Names (es ++ b :: back))
    (named : m.name = ofReduced false (es ++ b :: back)) :
    Passes mode (levels root (ofReduced false es)) (Own made found (es ++ [b])) (m.step root mode) := by
  have valid := isValid_iff_names.2 ⟨es ++ b :: back, names, rfl⟩
  have row : es ++ b :: back = (es ++ [b]) ++ back := List.append_cons ..
  have key := fronts.key (es ++ b :: back) names
  have proper : es ++ [b] ≠ [] := by simp
  cases m with
  | mkdirAll dir =>
    obtain rfl : dir = ofReduced false (es ++ b :: back) := named
    exact (passes_mkdirAll fronts mode names (List.prefix_refl _)).told _
  | write name data =>
    obtain rfl : name = ofReduced false (es ++ b :: back) := named
    have above : parent (ofReduced false (es ++ b :: back)) = ofReduced false (es ++ (b :: back).dropLast) := by
      rw [parent_ofReduced names, List.dropLast_append_of_ne_nil (by simp)]
    have shorter : Names (es ++ (b :: back).dropLast) :=
      names.ahead ((List.prefix_append_right_inj es).2 (List.dropLast_prefix _))
    have way := passes_mkdirAll fronts mode shorter (List.dropLast_prefix (b :: back))
    have member : Own made found (es ++ [b]) (Memory.key root (ofReduced false (es ++ b :: back))) := by
      rw [key, row]
      exact own_row (by simp) proper back
    rw [Mutation.step, write_eq, create_eq valid, above]
    exact ((way.andThen fun _ => staysIn_atFile member mode).andThen (staysIn_atContent member data)).told _
  | removeAll name =>
    obtain rfl : name = ofReduced false (es ++ b :: back) := named
    have removed : removeAll root (ofReduced false (es ++ b :: back)) = fun s =>
        (.ok (), s.removeAll (ofReduced true (found ++ ((es ++ [b]) ++ back)))) := by
      funext s
      rw [removeAll, if_pos valid, key, row]
    have ahead : Names (found ++ (es ++ [b])) := by
      rw [row] at names
      exact names_append.2 ⟨fronts.names, (names_append.1 names).1⟩
    rw [Mutation.step, removed]
    exact (Passes.apart (staysIn_takeOut fun j below => own_of_under ahead proper below)).told _

end

/-! ## Two changes -/

/-- Two rows that do not begin one with the other part somewhere. -/
theorem exists_fork {rs bs : List Text} (apart : ¬rs <+: bs) (apart' : ¬bs <+: rs) :
    ∃ es b d front back, b ≠ d ∧ rs = es ++ b :: front ∧ bs = es ++ d :: back := by
  induction rs generalizing bs with
  | nil => exact absurd List.nil_prefix apart
  | cons b rs ih =>
    cases bs with
    | nil => exact absurd List.nil_prefix apart'
    | cons d bs =>
      by_cases same : b = d
      · subst same
        obtain ⟨es, b', d', front, back, other, rfl, rfl⟩ :=
          ih (fun ahead => apart ((List.prefix_cons_inj b).2 ahead))
            fun ahead => apart' ((List.prefix_cons_inj b).2 ahead)
        exact ⟨b :: es, b', d', front, back, other, rfl, rfl⟩
      · exact ⟨[], b, d, rs, bs, same, rfl, rfl⟩

/-- Changes of what two names lead to may be made in either order on a store. -/
theorem steps_commute (spelled : Spelled root) (sound : s.Sound) {a b : Mutation}
    (valid : isValid a.name = true) (valid' : isValid b.name = true) (apart : ¬AtOrBelow a.name b.name)
    (apart' : ¬AtOrBelow b.name a.name) : StepsCommute (a.step root mode) (b.step root mode) s := by
  obtain ⟨made, found, fronts⟩ := spelled.fronts
  obtain ⟨rs, hr, named⟩ := isValid_iff_names.1 valid
  obtain ⟨bs, hb, named'⟩ := isValid_iff_names.1 valid'
  rw [named, named', atOrBelow_iff hr hb] at apart
  rw [named, named', atOrBelow_iff hb hr] at apart'
  obtain ⟨es, c, d, front, back, other, rfl, rfl⟩ := exists_fork apart apart'
  have above : Names es := (names_append.1 hr).1
  have names : Names (es ++ [c]) := hr.ahead (by simp)
  have names' : Names (es ++ [d]) := hb.ahead (by simp)
  -- Past the fork the two names have nothing in common, and the directories above it are below neither.
  have disjoint (k : Text) (own : Own made found (es ++ [c]) k) : ¬Own made found (es ++ [d]) k := by
    intro own'
    have first {x y : Text} (ahead : es ++ [x] <+: es ++ [y]) : x = y :=
      (List.cons_prefix_cons.1 ((List.prefix_append_right_inj es).1 ahead)).1
    rcases fronts.comparable names (by simp) names' (by simp) own own' with ahead | ahead
    · exact other (first ahead)
    · exact other (first ahead).symm
  have free {x : Text} (names : Names (es ++ [x])) (l : Level) (member : l ∈ levels root (ofReduced false es)) :
      ¬Own made found (es ++ [x]) l.key := by
    obtain ⟨way, behind, key⟩ := fronts.key_of_mem_levels above member
    intro own
    have ahead := fronts.ahead_of_level names (by simp) (above.ahead behind) (key ▸ own)
    exact absurd (ahead.trans behind).length_le (by simp)
  exact (passes_step fronts a hr named).commute (passes_step fronts b hb named') disjoint
    (fun l member => ⟨free names l member, free names' l member⟩) sound

section
variable {w : World} {view : View}

theorem Mutation.answer_ask (m : Mutation) (mode : Int) (view : View) (w : World) :
    ((m.request mode).ask view w).1 = (m.step view.root mode (w.volume view.volume).store).1 := by
  rw [ask_eq, change_eq]

theorem Mutation.store_ask (there : view.volume < w.volumes.size) (m : Mutation) (mode : Int) :
    (((m.request mode).ask view w).2.volume view.volume).store =
      (m.step view.root mode (w.volume view.volume).store).2 := by
  rw [ask_eq, store_change w view there]

/-- **Changes of what two names lead to commute.** On every store, and through every view whose root is spelled as keys
are, two calls that make a directory, write a file or take out a tree answer the same in either order, and leave the
same, as long as neither name leads to the other. -/
theorem mutations_commute (sound : (w.volume view.volume).store.Sound) (there : view.volume < w.volumes.size)
    (spelled : Spelled view.root) (mode : Int) {a b : Mutation} (valid : isValid a.name = true)
    (valid' : isValid b.name = true) (apart : ¬AtOrBelow a.name b.name) (apart' : ¬AtOrBelow b.name a.name) :
    Commutes view (a.request mode) (b.request mode) w := by
  obtain ⟨first, second, same⟩ : StepsCommute (a.step view.root mode) (b.step view.root mode)
      (w.volume view.volume).store := steps_commute spelled sound valid valid' apart apart'
  have asked (m : Mutation) := ask_world w view there (m.request mode)
  have there' (m : Mutation) : view.volume < ((m.request mode).ask view w).2.volumes.size :=
    Nat.lt_of_lt_of_eq there (asked m).2.1.symm
  have twice (m m' : Mutation) : (((m.request mode).ask view ((m'.request mode).ask view w).2).2.volume
      view.volume).store = (m.step view.root mode (m'.step view.root mode (w.volume view.volume).store).2).2 := by
    rw [m.store_ask (there' m'), m'.store_ask there]
  have sound' (m m' : Mutation) : (((m.request mode).ask view ((m'.request mode).ask view w).2).2.volume
      view.volume).store.Sound := by
    rw [(ask_world _ view (there' m') (m.request mode)).1, (asked m').1]
    exact Request.sound_effect (Request.sound_effect sound _ _) _ _
  have entries (k : Text) : (((a.request mode).ask view ((b.request mode).ask view w).2).2.volume
      view.volume).store.get? k = (((b.request mode).ask view ((a.request mode).ask view w).2).2.volume
        view.volume).store.get? k := by
    rw [twice, twice, same]
  refine ⟨?_, ?_, (sound' a b).keys_eq (sound' b a) entries, entries⟩
  · rw [a.answer_ask, b.store_ask there, first, a.answer_ask]
  · rw [b.answer_ask, a.store_ask there, second, b.answer_ask]

theorem mutations_commute_dotted :
    (dotted.volume 0).store.Sound ∧ 0 < dotted.volumes.size ∧ Spelled "/.".text ∧
      isValid "a/x".text = true ∧ isValid "a/d".text = true ∧ ¬AtOrBelow "a/x".text "a/d".text ∧
      ¬AtOrBelow "a/d".text "a/x".text ∧
      Commutes ⟨0, "/.".text⟩ (.write "a/x".text [104, 105] 0o644) (.removeAll "a/d".text) dotted := by
  have there : 0 < dotted.volumes.size := by decide +kernel
  have spelled : Spelled "/.".text := formed_dotted.spelled (by decide +kernel)
  have apart {x y : Text} (names : Names ["a".text, x]) (names' : Names ["a".text, y]) (other : x ≠ y) :
      ¬AtOrBelow (ofReduced false ["a".text, x]) (ofReduced false ["a".text, y]) := by
    rw [atOrBelow_iff names names']
    simpa using other
  have first : ¬AtOrBelow "a/x".text "a/d".text := apart (by decide) (by decide) (by decide)
  have second : ¬AtOrBelow "a/d".text "a/x".text := apart (by decide) (by decide) (by decide)
  exact ⟨sound_dotted, there, spelled, by decide, by decide, first, second,
    @mutations_commute dotted ⟨0, "/.".text⟩ sound_dotted there spelled 0o644 (.write "a/x".text [104, 105])
      (.removeAll "a/d".text) (by decide) (by decide) first second⟩

end

end Vfs.Memory
