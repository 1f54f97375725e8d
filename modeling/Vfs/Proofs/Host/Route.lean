import Mathlib.Data.List.Basic
import Vfs.Host.Tree.Creation
import Vfs.Host.Tree.Removal
import Vfs.Proofs.Path.Encoding
import Vfs.Proofs.Path.Steps

/-!
# Following a route of names

Where every step of a route is a name that the host takes, a route that leads anywhere leads to the row of its
names. It does so if every directory above the end is open (`find_eq`, `slot_eq`); where one is missing or no
directory, the route is refused as a host refuses (`slot_closed`), and so it is where nothing is at its end.
-/

namespace Vfs.Host
set_option autoImplicit false
open Vfs.Path

variable {t : Tree} {r : Route} {row es front : List Text} {e : Text} {node : Node} {word : Nat} {fault : Fault}

namespace Tree

/-- A directory that may be listed, entered and changed, and is told as a directory. -/
structure Free (t : Tree) (word : Nat) : Prop where
  allows : ∀ access, t.allows access word = true
  kind : Mode.isDirectory word = true
  small : word < 0x100000000

/-- A free directory stands under a row. -/
def Open (t : Tree) (row : List Text) : Prop := ∃ word, t.node? row = some (.directory word) ∧ t.Free word

/-- Every directory above a row is open. -/
def OpenAbove (t : Tree) (row : List Text) : Prop := ∀ front, front <+: row → front ≠ row → t.Open front

theorem free_standard (t : Tree) : t.Free standardDirectory where
  allows := by
    intro access
    rw [Tree.allows, Bool.or_eq_true]
    right
    cases access with
    | _ => decide
  kind := by decide
  small := by decide

theorem Open.enter (isOpen : t.Open row) : t.enter row = .ok () := by
  obtain ⟨word, there, free⟩ := isOpen
  simp only [Tree.enter, there, free.allows, if_true]

theorem openAbove_snoc (above : t.OpenAbove row) (isOpen : t.Open row) (e : Text) : t.OpenAbove (row ++ [e]) := by
  intro front behind other
  rcases List.prefix_concat_iff.1 behind with same | before
  · exact absurd same other
  · by_cases same : front = row
    · exact same ▸ isOpen
    · exact above front before same

theorem OpenAbove.parent (above : t.OpenAbove (row ++ [e])) : t.Open row := by
  apply above row (List.prefix_append ..)
  intro same
  exact List.cons_ne_nil e [] (List.self_eq_append_right.1 same)

theorem OpenAbove.up (above : t.OpenAbove (row ++ [e])) : t.OpenAbove row := by
  intro front behind other
  apply above front (behind.trans (List.prefix_append ..))
  rintro rfl
  have short := behind.length_le
  rw [List.length_append, List.length_singleton] at short
  omega

/-! ## Steps -/

/-- The host takes each of the names. -/
def Short (es : List Text) : Prop := ∀ e ∈ es, Text.byteLength e ≤ longestElement

theorem step_name (names : Names [e]) (short : Short [e]) (enter : t.enter row = .ok ()) :
    t.step row e = .ok (row ++ [e]) := by
  obtain ⟨-, proper, notAbove⟩ := isChildName_iff.1 (names e (List.mem_singleton_self e)).1
  have taken := short e (List.mem_singleton_self e)
  rw [Tree.step, enter]
  simp only [proper, notAbove, if_false]
  rw [if_neg (by omega)]

theorem follow_append (row es es' : List Text) : t.follow row (es ++ es') = match t.follow row es with
    | .error fault => .error fault
    | .ok row' => t.follow row' es' := by
  induction es generalizing row with
  | nil => rfl
  | cons e es ih =>
    rw [List.cons_append, Tree.follow, Tree.follow]
    cases t.step row e with
    | error fault => rfl
    | ok row' => exact ih row'

theorem follow_singleton (row : List Text) (e : Text) : t.follow row [e] = t.step row e := by
  rw [Tree.follow]
  cases t.step row e with
  | error fault => rfl
  | ok row' => rfl

/-- Open directories are passed. -/
theorem follow_eq (names : Names row) (short : Short row) (above : t.OpenAbove row) : t.follow [] row = .ok row := by
  induction row using List.reverseRecOn with
  | nil => rfl
  | append_singleton row e ih =>
    obtain ⟨before, last⟩ := names_append.1 names
    obtain ⟨shortBefore, shortLast⟩ := List.forall_mem_append.1 short
    rw [follow_append, ih before shortBefore above.up]
    exact (follow_singleton row e).trans (step_name last shortLast above.parent.enter)

/-- Whatever is passed can be entered, and names lead to their row. -/
theorem follow_eq_ok {row' : List Text} (names : Names row) (followed : t.follow [] row = .ok row') :
    row' = row ∧ ∀ front e, row = front ++ [e] → t.enter front = .ok () := by
  induction row using List.reverseRecOn generalizing row' with
  | nil =>
    cases followed
    exact ⟨rfl, fun front e split => absurd split (by simp)⟩
  | append_singleton row e ih =>
    obtain ⟨before, last⟩ := names_append.1 names
    rw [follow_append] at followed
    cases up : t.follow [] row with
    | error fault =>
      rw [up] at followed
      cases followed
    | ok up' =>
      obtain ⟨rfl, -⟩ := ih before up
      rw [up] at followed
      have stepped : t.step up' e = .ok row' := (follow_singleton up' e).symm.trans followed
      rw [Tree.step] at stepped
      cases entered : t.enter up' with
      | error fault =>
        rw [entered] at stepped
        cases stepped
      | ok done =>
        obtain ⟨-, proper, notAbove⟩ := isChildName_iff.1 (last e (List.mem_singleton_self e)).1
        simp only [entered, proper, notAbove, if_false] at stepped
        constructor
        · split at stepped
          · cases stepped
          · cases stepped
            rfl
        · intro front e' split
          obtain ⟨rfl, -⟩ := List.append_inj' split rfl
          exact entered

/-! ## Refusals -/

theorem enter_system (refused : t.enter row = .error fault) : fault.kind.isSystem = true := by
  unfold Tree.enter at refused
  split at refused
  · cases refused
    decide
  · cases refused
    decide
  · split at refused
    · cases refused
    · cases refused
      decide

theorem step_system (refused : t.step row e = .error fault) : fault.kind.isSystem = true := by
  unfold Tree.step at refused
  cases entered : t.enter row with
  | error fault' =>
    rw [entered] at refused
    cases refused
    exact enter_system entered
  | ok done =>
    simp only [entered] at refused
    split at refused
    · cases refused
    · split at refused
      · cases refused
      · split at refused
        · cases refused
          decide
        · cases refused

theorem follow_system (refused : t.follow row es = .error fault) : fault.kind.isSystem = true := by
  induction es generalizing row with
  | nil => cases refused
  | cons e es ih =>
    rw [Tree.follow] at refused
    cases stepped : t.step row e with
    | error fault' =>
      rw [stepped] at refused
      cases refused
      exact step_system stepped
    | ok row' =>
      rw [stepped] at refused
      exact ih refused

end Tree

/-! ## Routes of names -/

/-- A route that leads along a row of names, each of which the host takes, and is not refused as a whole. -/
structure Route.Passes (r : Route) (row : List Text) : Prop where
  route : r.names = row
  names : Names row
  short : Tree.Short row
  check : r.check = .ok ()

/-- A host can be told the text as a path: it stands for bytes, and none of them is NUL. -/
def Plain (p : Text) : Prop := ∀ c ∈ p, c.isEncodable = true ∧ c ≠ .char '\x00'

instance (p : Text) : Decidable (Plain p) := inferInstanceAs (Decidable (∀ c ∈ p, _))

theorem plain_iff {p : Text} : Plain p ↔ p.isEncodable = true ∧ .char '\x00' ∉ p := by
  rw [Plain, Text.isEncodable, List.all_eq_true]
  refine ⟨fun plain => ⟨fun c member => (plain c member).1, fun null => (plain _ null).2 rfl⟩, ?_⟩
  rintro ⟨encodable, null⟩ c member
  refine ⟨encodable c member, ?_⟩
  rintro rfl
  exact null member

theorem Route.check_eq_ok : r.check = .ok () ↔ Plain r.path ∧ r.path.byteLength ≤ longestPath := by
  rw [plain_iff, Route.check, Route.byteLength]
  cases encodable : r.path.isEncodable with
  | false => exact iff_of_false (fun same => by cases same) fun both => by cases both.1.1
  | true =>
    rw [if_neg (by decide)]
    by_cases null : .char '\x00' ∈ r.path
    · rw [if_pos (List.contains_iff_mem.2 null)]
      exact iff_of_false (fun same => by cases same) fun both => both.1.2 null
    · rw [if_neg fun found => null (List.contains_iff_mem.1 found)]
      split
      · next long => exact iff_of_false (fun same => by cases same) fun both => by omega
      · next short => exact iff_of_true rfl ⟨⟨rfl, null⟩, by omega⟩

/-- A host that begins to follow a route begins to follow what the route begins with. -/
theorem Route.check_of_isPrefix {front : Route} (behind : front.path <+: r.path) (checked : r.check = .ok ()) :
    front.check = .ok () := by
  obtain ⟨plain, short⟩ := check_eq_ok.1 checked
  refine check_eq_ok.2 ⟨fun c member => plain c (behind.subset member), ?_⟩
  obtain ⟨rest, split⟩ := behind
  rw [← split, Text.byteLength_append] at short
  omega

theorem Route.above_isPrefix (r : Route) : r.above.path <+: r.path := by
  rcases List.eq_nil_or_concat' r.steps with top | ⟨front, last, split⟩
  · rw [Route.path, Route.above, top]
    exact List.nil_prefix
  · refine ⟨List.replicate last.slashes (.char '/') ++ last.name ++ List.replicate r.closing (.char '/'), ?_⟩
    rw [Route.path, Route.path, Route.above, split, List.dropLast_concat, List.flatMap_append]
    simp

/-- The route to the directory above is no longer and has no other names. -/
theorem Route.Passes.up (passes : r.Passes (row ++ [e])) : r.above.Passes row where
  route := by
    have route := passes.route
    rw [Route.names] at route
    rw [Route.above, Route.names, List.map_dropLast, route, List.dropLast_concat]
  names := (names_append.1 passes.names).1
  short := (List.forall_mem_append.1 passes.short).1
  check := Route.check_of_isPrefix r.above_isPrefix passes.check

namespace Tree

section
variable (passes : r.Passes row)
include passes

/-- What stands under a row is found there, if the directories above it are open. -/
theorem find_eq (above : t.OpenAbove row) (there : t.node? row = some node)
    (plain : r.slash = false ∨ ∃ word, node = .directory word) : t.find r = .ok (row, node) := by
  rw [Tree.find, passes.check, passes.route]
  simp only [follow_eq passes.names passes.short above, there]
  cases node with
  | directory word => rfl
  | file number =>
    rcases plain with open' | ⟨word, same⟩
    · simp [open']
    · cases same

theorem find_missing (missing : t.node? row = none) :
    ∃ fault, t.find r = .error fault ∧ fault.kind.isSystem = true := by
  rw [Tree.find, passes.check, passes.route]
  dsimp only
  cases followed : t.follow [] row with
  | error fault => exact ⟨fault, rfl, follow_system followed⟩
  | ok row' =>
    obtain ⟨rfl, -⟩ := follow_eq_ok passes.names followed
    simp only [missing]
    exact ⟨_, rfl, by decide⟩

end

section
variable (passes : r.Passes (row ++ [e]))
include passes

/-- Nothing is found in what is no directory. -/
theorem find_closed (closed : ∀ word, t.node? row ≠ some (.directory word)) :
    ∃ fault, t.find r = .error fault := by
  rw [Tree.find, passes.check, passes.route]
  dsimp only
  cases followed : t.follow [] (row ++ [e]) with
  | error fault => exact ⟨fault, rfl⟩
  | ok row' =>
    have entered := (follow_eq_ok passes.names followed).2 row e rfl
    unfold Tree.enter at entered
    split at entered
    · cases entered
    · cases entered
    · next word there => exact absurd there (closed word)

theorem getLast?_names : r.names.getLast? = some e := by
  rw [passes.route]
  exact List.getLast?_concat

/-- The slot at the end of a row, in an open directory. -/
theorem slot_eq (above : t.OpenAbove (row ++ [e])) : t.slot r = .ok (match t.node? (row ++ [e]) with
    | none => .free (row ++ [e])
    | some node => .taken (row ++ [e]) node) := by
  obtain ⟨before, last⟩ := names_append.1 passes.names
  obtain ⟨shortBefore, shortLast⟩ := List.forall_mem_append.1 passes.short
  obtain ⟨-, proper, notAbove⟩ := isChildName_iff.1 (last e (List.mem_singleton_self e)).1
  have final := getLast?_names passes
  have upper := passes.up.route
  have taken := shortLast e (List.mem_singleton_self e)
  rw [Tree.slot, passes.check]
  simp only [final, upper, follow_eq before shortBefore above.up, above.parent.enter, proper, notAbove, or_self,
    if_false]
  rw [if_neg (by omega)]
  cases t.node? (row ++ [e]) with
  | none => rfl
  | some node => rfl

/-- What is no directory has no slots. -/
theorem slot_closed (closed : ∀ word, t.node? row ≠ some (.directory word)) :
    ∃ fault, t.slot r = .error fault ∧ fault.kind.isSystem = true := by
  obtain ⟨before, -⟩ := names_append.1 passes.names
  have final := getLast?_names passes
  have upper := passes.up.route
  rw [Tree.slot, passes.check]
  simp only [final, upper]
  cases followed : t.follow [] row with
  | error fault => exact ⟨fault, rfl, follow_system followed⟩
  | ok row' =>
    obtain ⟨rfl, -⟩ := follow_eq_ok before followed
    cases entered : t.enter row' with
    | error fault => exact ⟨fault, by simp only [entered], enter_system entered⟩
    | ok done =>
      unfold Tree.enter at entered
      split at entered
      · cases entered
      · cases entered
      · next word there => exact absurd there (closed word)

end

end Tree

/-! ## Routes of host paths -/

theorem names_ofElements (slashes : Nat) (es : List Text) :
    (Route.ofElements slashes es).names = (es.filter (· ≠ [])).map Text.received := by
  induction es generalizing slashes with
  | nil => rfl
  | cons e es ih =>
    rw [Route.ofElements]
    by_cases empty : e = []
    · rw [if_pos empty, ih, List.filter_cons_of_neg (by simpa using empty)]
    · rw [if_neg empty, List.filter_cons_of_pos (by simpa using empty), List.map_cons, ← ih 1]
      rfl

/-- The names that a path leads along. -/
def rowOf (p : Text) : List Text := (steps p).map Text.received

theorem names_ofPath (p : Text) : (Route.ofPath p).names = rowOf p := names_ofElements 0 (elements p)

/-- What is attached to a path leads on along its names, if the host hands them back as they are. -/
theorem rowOf_foldl_attach (pieces : Pieces es) (kept : ∀ e ∈ es, e.Kept) (dir : Text) :
    rowOf (es.foldl attach dir) = rowOf dir ++ es := by
  have same : es.map Text.received = es.map id := List.map_congr_left fun e member => (kept e member).2
  rw [rowOf, steps_foldl_attach pieces, List.map_append, same, List.map_id]
  rfl

theorem plain_received {e : Text} : Plain e.received ↔ Plain e := by
  rw [plain_iff, plain_iff, Text.isEncodable_received, Text.mem_received_iff (b := 0) rfl (by decide)]

/-- The names of a route that a host can be told are such texts themselves. -/
theorem Route.plain_names (plain : Plain r.path) : ∀ e ∈ r.names, Plain e := by
  intro e member
  obtain ⟨s, there, rfl⟩ := List.mem_map.1 member
  refine plain_received.2 fun c inside => plain c (List.mem_append_left _ ?_)
  exact List.mem_flatMap.2 ⟨s, there, List.mem_append_right _ inside⟩

theorem plain_iff_steps {p : Text} : Plain p ↔ ∀ e ∈ steps p, Plain e := by
  constructor
  · intro plain e member c inside
    by_cases slash : c = .char '/'
    · rw [slash]
      decide
    · exact plain c ((mem_steps_iff slash).1 ⟨e, member, inside⟩)
  · intro plain c member
    by_cases slash : c = .char '/'
    · rw [slash]
      decide
    · obtain ⟨e, there, inside⟩ := (mem_steps_iff slash).2 member
      exact plain e there c inside

theorem closing_ofElements (slashes : Nat) (es : List Text) (hne : e ≠ []) :
    (Route.ofElements slashes (es ++ [e])).closing = 0 := by
  induction es generalizing slashes with
  | nil => rw [List.nil_append, Route.ofElements, if_neg hne, Route.ofElements]
  | cons f es ih =>
    rw [List.cons_append, Route.ofElements]
    split
    · exact ih _
    · exact ih 1

/-- A path that ends in a name closes with no slash. -/
theorem slash_attach (hne : e ≠ []) (plain : .char '/' ∉ e) (base : Text) :
    (Route.ofPath (attach base e)).slash = false := by
  have closing : (Route.ofPath (attach base e)).closing = 0 := by
    rw [Route.ofPath]
    rcases attach_cases plain base with ⟨-, attached⟩ | ⟨front, attached, -, -⟩
    · rw [attached, elements_of_no_slash plain, ← List.nil_append [e]]
      exact closing_ofElements 0 [] hne
    · rw [attached, elements_append, elements_of_no_slash plain]
      exact closing_ofElements 0 _ hne
  simp [Route.slash, closing]

theorem attach_isPrefix (plain : .char '/' ∉ e) (base : Text) : base <+: attach base e := by
  have relative : e.head? ≠ some (.char '/') := by
    intro slash
    obtain ⟨rest, rfl⟩ := List.head?_eq_some_iff.1 slash
    exact plain (List.mem_cons_self ..)
  rw [attach, if_neg relative]
  split
  · exact List.prefix_append ..
  · exact List.prefix_append ..

theorem foldl_attach_isPrefix {back : List Text} (pieces : Pieces back) (base : Text) :
    base <+: back.foldl attach base := by
  induction back generalizing base with
  | nil => exact List.prefix_refl base
  | cons e back ih =>
    obtain ⟨⟨-, plain⟩, later⟩ := List.forall_mem_cons.1 pieces
    exact (attach_isPrefix plain base).trans (ih later _)

theorem dropTrailing_isPrefix (c : CodePoint) (p : Text) : Text.dropTrailing c p <+: p := by
  rw [Text.dropTrailing, ← List.reverse_suffix, List.reverse_reverse]
  exact List.dropWhile_suffix _

/-- The directory of a path is a beginning of it. -/
theorem directory_isPrefix (p : Text) : directory p <+: p := by
  have first : (cut p).1 <+: p := ⟨(cut p).2, append_cut p⟩
  rw [directory]
  split
  · exact first
  · exact (dropTrailing_isPrefix (.char '/') _).trans first

/-- The host takes the path that a row of names has below a directory. -/
structure Fits (dir : Text) (es : List Text) : Prop where
  names : Names (rowOf dir ++ es)
  short : Tree.Short (rowOf dir ++ es)
  /-- What is below the directory is handed back under its own names. -/
  kept : ∀ e ∈ es, e.Kept
  check : (Route.ofPath (es.foldl attach dir)).check = .ok ()

namespace Fits

variable {dir : Text} {back : List Text}

theorem names_row (fits : Fits dir es) : Names es := (names_append.1 fits.names).2

theorem passes (fits : Fits dir es) : (Route.ofPath (es.foldl attach dir)).Passes (rowOf dir ++ es) where
  route := by rw [names_ofPath, rowOf_foldl_attach fits.names_row.pieces fits.kept]
  names := fits.names
  short := fits.short
  check := fits.check

/-- The host takes the paths of the directories on the way. -/
theorem beginning (fits : Fits dir (es ++ back)) : Fits dir es := by
  obtain ⟨names, short, kept, check⟩ := fits
  rw [← List.append_assoc] at names short
  refine ⟨(names_append.1 names).1, (List.forall_mem_append.1 short).1, (List.forall_mem_append.1 kept).1, ?_⟩
  refine Route.check_of_isPrefix ?_ check
  rw [Route.path_ofPath, Route.path_ofPath, List.foldl_append]
  exact foldl_attach_isPrefix (names_append.1 names).2.pieces _

theorem slash (fits : Fits dir (es ++ [e])) : (Route.ofPath ((es ++ [e]).foldl attach dir)).slash = false := by
  have last := (names_append.1 fits.names_row).2
  rw [List.foldl_append]
  exact slash_attach (last.ne_nil (List.mem_singleton_self e)) (last.no_slash e (List.mem_singleton_self e)) _

/-- The host takes the path of the directory that the path of an entry names. -/
theorem above (fits : Fits dir (es ++ [e])) :
    (Route.ofPath (directory ((es ++ [e]).foldl attach dir))).Passes (rowOf dir ++ es) := by
  have before := fits.beginning
  have last := (names_append.1 fits.names_row).2.no_slash e (List.mem_singleton_self e)
  have route : steps (directory ((es ++ [e]).foldl attach dir)) = steps (es.foldl attach dir) := by
    rw [List.foldl_append]
    exact steps_directory_attach last _
  refine ⟨?_, before.names, before.short, Route.check_of_isPrefix ?_ fits.check⟩
  · rw [names_ofPath, rowOf, route, ← rowOf, rowOf_foldl_attach before.names_row.pieces before.kept]
  · rw [Route.path_ofPath, Route.path_ofPath]
    exact directory_isPrefix _

/-- Only the path of the directory itself may close with a slash. -/
theorem plain_end (fits : Fits dir es) : es = [] ∨ (Route.ofPath (es.foldl attach dir)).slash = false := by
  rcases List.eq_nil_or_concat' es with rfl | ⟨front, e, rfl⟩
  · exact .inl rfl
  · exact .inr fits.slash

end Fits

end Vfs.Host
