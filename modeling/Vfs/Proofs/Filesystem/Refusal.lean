import Vfs.Proofs.Filesystem.Search
import Vfs.Proofs.Path.Steps

/-!
# Patterns that a search refuses

Matching refuses the patterns that are malformed as a whole. A search cuts a pattern at its last slash, wherever that
stands, and reads both parts again: so it refuses the patterns with an element that is malformed on its own, such as
`[/]`, and answers all others (`refuses_elements`), through every view and whatever is stored. The induction is on the
length of the pattern: what is searched for next is its directory.
-/

namespace Vfs
set_option autoImplicit false
open Vfs.Path Memory Session

variable {p pattern e : Text}

/-! ## Elements on their own -/

/-- No element of a pattern is malformed on its own. -/
def Glob.Piecewise (p : Text) : Prop := ∀ e ∈ steps p, Glob.scan e ≠ none

theorem Glob.piecewise_iff : Glob.Piecewise p ↔ ∀ e ∈ elements p, Glob.scan e ≠ none := by
  constructor
  · intro each e member
    by_cases empty : e = []
    · rw [empty, Glob.scan]
      exact Option.some_ne_none []
    · exact each e (List.mem_filter.2 ⟨member, by simpa using empty⟩)
  · exact fun each e member => each e (List.mem_filter.1 member).1

namespace Glob

theorem Piecewise.scan (each : Piecewise p) : Glob.scan p ≠ none := by
  have scans := scan_joined_of_each (piecewise_iff.1 each)
  rwa [joined_elements] at scans

theorem piecewise_cut : Piecewise p ↔ Piecewise (directory p) ∧ Piecewise (lastElement p) := by
  simp only [Piecewise, steps_cut p, List.forall_mem_append]

/-- Without special characters nothing is malformed. -/
theorem piecewise_of_plain (plain : hasMeta p = false) : Piecewise p := by
  intro e member
  have own : hasMeta e = false := by
    rw [hasMeta, List.any_eq_false] at plain ⊢
    intro c inside
    refine plain c ?_
    rw [← joined_elements p]
    exact mem_joined (List.mem_filter.1 member).1 inside
  rw [scan_of_plain own]
  exact Option.some_ne_none _

/-- Behind a directory in order, the last element is malformed only if the whole is. -/
theorem Piecewise.lastElement (above : Piecewise (directory p)) (scans : Glob.scan p ≠ none) :
    Glob.scan (lastElement p) ≠ none := by
  rw [Path.lastElement]
  rcases cut_cases p with ⟨-, split⟩ | ⟨q, e, -, whole, split⟩
  · rwa [split]
  · have front : Piecewise q := by rwa [Piecewise, steps_directory, split, steps_slash] at above
    rw [split]
    rw [whole] at scans
    exact (scan_slash_ne_none front.scan).1 scans

theorem piecewise_of_scan (plain : .char '/' ∉ e) (scans : Glob.scan e ≠ none) : Piecewise e := by
  rw [piecewise_iff, elements_of_no_slash plain]
  exact List.forall_mem_singleton.2 scans

end Glob

/-- The directory of a pattern is shorter, unless the pattern is slashes alone. -/
theorem length_directory_lt (special : Glob.hasMeta p = true) : (directory p).length < p.length := by
  have shorter (q : Text) : (Text.dropTrailing (.char '/') (q ++ [.char '/'])).length ≤ q.length := by
    have gone : Text.dropTrailing (.char '/') (q ++ [.char '/']) = Text.dropTrailing (.char '/') q := by
      simp [Text.dropTrailing]
    have turned : q.reverse.length = q.length := List.length_reverse
    rw [gone, Text.dropTrailing, List.length_reverse, ← turned]
    exact (List.dropWhile_suffix _).length_le
  rcases cut_cases p with ⟨plain, -⟩ | ⟨q, e, -, rfl, split⟩
  · rw [directory_of_no_slash plain]
    refine List.length_pos_iff.2 ?_
    rintro rfl
    cases special
  · rw [directory, split]
    dsimp only
    split
    · next slashes =>
      have nonempty : e ≠ [] := by
        rintro rfl
        rw [Glob.hasMeta, List.any_eq_true] at special
        obtain ⟨c, inside, isMeta⟩ := special
        rw [of_decide_eq_true (List.all_eq_true.1 slashes c inside)] at isMeta
        cases isMeta
      have long := List.length_pos_iff.2 nonempty
      simp only [List.length_append, List.length_cons, List.length_nil]
      omega
    · have short := shorter q
      simp only [List.length_append, List.length_cons]
      omega

/-! ## What a search comes to -/

/-- A search refuses a malformed pattern, looks a plain name up, or searches a directory for the last element: one
that is named, or each of those that are found for the pattern before it, which is shorter. -/
theorem search_cases (stat : Text → Action Info) (list : Text → Action (List Info)) (p : Text) :
    Glob.scan p = none ∧ search stat list p = Action.fail Fault.badPattern.error ∨
    Glob.scan p ≠ none ∧
      (Glob.hasMeta p = false ∧ search stat list p = Action.orElse (do let _ ← stat p; return [p]) [] ∨
      (∃ dir, Glob.hasMeta (directory p) = false ∧ search stat list p = searchDirectory list dir (lastElement p)) ∨
      (directory p).length < p.length ∧ search stat list p = do
        let dirs ← search stat list (directory p)
        let found ← dirs.mapM fun d => searchDirectory list d (lastElement p)
        return found.flatten) := by
  by_cases malformed : Glob.scan p = none
  · refine .inl ⟨malformed, ?_⟩
    rw [search, if_pos (by rw [malformed]; rfl)]
  · refine .inr ⟨malformed, ?_⟩
    have scans : ¬(Glob.scan p).isNone = true := by simpa using malformed
    by_cases special : Glob.hasMeta p = true
    · right
      by_cases above : directory p = []
      · refine .inl ⟨here, by rw [above]; rfl, ?_⟩
        rw [search, if_neg scans, if_pos special, above]
        rfl
      · have shorter := length_directory_lt special
        rw [search_below scans special rfl above shorter]
        split
        · exact .inr ⟨shorter, rfl⟩
        · next plain => exact .inl ⟨directory p, Bool.eq_false_iff.2 plain, rfl⟩
    · refine .inl ⟨Bool.eq_false_iff.2 special, ?_⟩
      rw [search, if_neg scans, if_neg special]

/-! ## Searching a view -/

theorem Answers.fail {α : Type} (home : World) (e : Error) : Answers home (Action.fail (α := α) e) (.error e) :=
  ⟨fun _ _ => rfl, fun _ same => same⟩

/-- A pattern with a malformed element is refused, whatever is stored: if not at once, then for its directory. -/
theorem search_refused (home : World) (stat : Text → Action Info) (list : Text → Action (List Info))
    (malformed : ¬Glob.Piecewise p) : Answers home (search stat list p) (.error Fault.badPattern.error) := by
  induction size : p.length using Nat.strongRecOn generalizing p with
  | ind n ih =>
    -- The last element is in order if the whole is, so what is malformed is above it.
    have above (scans : Glob.scan p ≠ none) : ¬Glob.Piecewise (directory p) := fun above =>
      malformed (Glob.piecewise_cut.2
        ⟨above, Glob.piecewise_of_scan (no_slash_lastElement p) (above.lastElement scans)⟩)
    rcases search_cases stat list p with ⟨-, run⟩ | ⟨scans, ⟨plain, -⟩ | ⟨dir, plain, -⟩ | ⟨shorter, run⟩⟩
    · rw [run]
      exact .fail home _
    · exact absurd (Glob.piecewise_of_plain plain) malformed
    · exact absurd (Glob.piecewise_of_plain plain) (above scans)
    · rw [run]
      exact (ih _ (size ▸ shorter) (above scans) rfl).bind_error

section
variable {home : World} {view : View} {stat : Text → Action Info} {list : Text → Action (List Info)}
  (shows : Shows home view stat list)
include shows

/-- A pattern without one is answered. -/
theorem search_answered (each : Glob.Piecewise p) : ∃ names, Answers home (search stat list p) (.ok names) := by
  induction size : p.length using Nat.strongRecOn generalizing p with
  | ind n ih =>
    -- Both parts are read again: the shorter one by induction, the last element as it stands.
    obtain ⟨above, -⟩ := Glob.piecewise_cut.1 each
    rcases search_cases stat list p with ⟨unread, -⟩ | ⟨scans, ⟨-, run⟩ | ⟨dir, -, run⟩ | ⟨shorter, run⟩⟩
    · exact absurd unread each.scan
    · rw [run]
      exact ⟨_, search_name_answers shows p⟩
    · obtain ⟨tokens, scanned⟩ := Option.ne_none_iff_exists'.1 (above.lastElement scans)
      rw [run]
      exact ⟨_, searchDirectory_answers shows scanned dir⟩
    · obtain ⟨tokens, scanned⟩ := Option.ne_none_iff_exists'.1 (above.lastElement scans)
      obtain ⟨dirs, found⟩ := ih _ (size ▸ shorter) above rfl
      rw [run]
      exact ⟨_, found.bind ((Answers.mapM fun d _ => searchDirectory_answers shows scanned d).bind (.pure _))⟩

end

namespace Memory

/-- A search refuses the patterns with an element that is malformed on its own, and never fails otherwise. Matching
refuses those that are malformed as a whole, which are fewer. -/
structure RefusesElements (fs : Filesystem) (pattern : Text) (w : World) : Prop where
  search : (fs.search pattern w).1 = .error Fault.badPattern.error ↔ ∃ e ∈ elements pattern, Glob.scan e = none
  only : ∀ fault, (fs.search pattern w).1 = .error fault → fault = Fault.badPattern.error
  glob : (fs.glob pattern w).1 = .error Fault.badPattern.error ↔ Glob.scan pattern = none
  fewer : Glob.scan pattern = none → ∃ e ∈ elements pattern, Glob.scan e = none

/-- **A search refuses the patterns with a malformed element, and no others**, through every view and in every
world. -/
theorem refuses_elements (id : Nat) (view : View) (pattern : Text) (w : World) :
    RefusesElements (filesystem id view) pattern w := by
  have malformed : ¬Glob.Piecewise pattern ↔ ∃ e ∈ elements pattern, Glob.scan e = none := by
    rw [Glob.piecewise_iff]
    simp only [ne_eq, not_forall, not_not, exists_prop]
  have refused (broken : ¬Glob.Piecewise pattern) :
      ((filesystem id view).search pattern w).1 = .error Fault.badPattern.error :=
    (search_refused w _ _ broken).answer w rfl
  have answered (each : Glob.Piecewise pattern) (fault : Error) :
      ((filesystem id view).search pattern w).1 ≠ .error fault := by
    obtain ⟨names, answers⟩ := search_answered (shows_filesystem id w view) each
    have told : ((filesystem id view).search pattern w).1 = .ok names := answers.answer w rfl
    rw [told]
    intro same
    cases same
  have matched : ((filesystem id view).glob pattern w).1 =
      Memory.glob view.root (w.volume view.volume).store pattern := rfl
  constructor
  · rw [← malformed]
    exact ⟨fun stopped each => answered each _ stopped, refused⟩
  · intro fault stopped
    by_cases each : Glob.Piecewise pattern
    · exact absurd stopped (answered each fault)
    · exact (Except.error.inj ((refused each).symm.trans stopped)).symm
  · rw [matched, Memory.glob, Store.matching]
    cases Glob.scan pattern with
    | none => exact iff_of_true rfl rfl
    | some tokens => simp
  · intro unread
    exact malformed.1 fun each => each.scan unread

/-- A class that holds a slash is well formed, but a search cuts it in two. -/
theorem not_refuses_malformed :
    ¬∀ (w : World) (view : View) (pattern : Text),
      ((filesystem 0 view).search pattern w).1 = .error Fault.badPattern.error ↔ Glob.scan pattern = none := by
  intro refuses
  have refused : ((filesystem 0 ⟨0, [.char '/']⟩).search "[/]".text start.world).1 =
      .error Fault.badPattern.error := by decide +kernel
  have scans : Glob.scan "[/]".text ≠ none := by decide +kernel
  exact scans ((refuses _ _ _).1 refused)

end Memory

end Vfs
