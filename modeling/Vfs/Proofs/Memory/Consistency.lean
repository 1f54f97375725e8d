import Vfs.Proofs.Memory.Listing
import Vfs.Proofs.Memory.Stale
import Vfs.Proofs.Memory.SubView

/-!
# What is listed is what is found

A name is looked up by its key, while a directory is listed and a pattern matched along the row of keys. In
every session the two ways agree (`consistent_after`): a listing tells the entries that are found under one
name more, a pattern finds the names that match and under which something is found, and both come in order.
-/

namespace Vfs.Memory
set_option autoImplicit false
open Vfs.Path Session

variable {s : Store Entry} {as bs : List Text} {n : Nat} {name pattern : Text} {info : Info}

/-- A view lists and matches what it finds under names. -/
structure Consistent (s : Session) (v : Nat) : Prop where
  list : ∀ d info, (s.perform (.on v (.stat d))).1 = .ok (.info info) → info.directory = true →
    ∃ entries, (s.perform (.on v (.list d))).1 = .ok (.infos entries) ∧
      entries.Pairwise (fun e e' => e.name < e'.name) ∧
      ∀ c e, (e ∈ entries ∧ e.name = c) ↔ isValid c = true ∧ .char '/' ∉ c ∧ c ≠ here ∧
        (s.perform (.on v (.stat (below d c)))).1 = .ok (.info e)
  glob : ∀ pattern, Glob.scan pattern ≠ none →
    ∃ names, (s.perform (.on v (.glob pattern))).1 = .ok (.names names) ∧ names.Pairwise (· < ·) ∧
      ∀ n, n ∈ names ↔ isValid n = true ∧ n ≠ here ∧
        (∃ info, (s.perform (.on v (.stat n))).1 = .ok (.info info)) ∧ Glob.isMatch pattern n = .ok true

/-- A name that is one element, and not the directory's own. -/
theorem names_singleton_iff {c : Text} : Names [c] ↔ isValid c = true ∧ .char '/' ∉ c ∧ c ≠ here := by
  constructor
  · intro names
    have hne : [c] ≠ [] := List.cons_ne_nil c []
    have proper := ofReduced_ne_here names hne
    rw [ofReduced_relative hne, joined_singleton] at proper
    exact ⟨isValid_iff_names.2 ⟨[c], names, by rw [ofReduced_relative hne, joined_singleton]⟩,
      names.no_slash c (List.mem_singleton_self c), proper⟩
  · rintro ⟨valid, plain, proper⟩
    obtain ⟨es, names, rfl⟩ := isValid_iff_names.1 valid
    have hne : es ≠ [] := by
      rintro rfl
      exact proper rfl
    rw [ofReduced_relative hne] at plain ⊢
    obtain ⟨c, rfl⟩ := singleton_of_no_slash names hne plain
    rwa [joined_singleton]

/-- Asking about a name finds what is stored under its key. -/
theorem stat_eq_ok {s : Session} {v : Nat} :
    (s.perform (.on v (.stat name))).1 = .ok (.info info) ↔ isValid name = true ∧
      ∃ e, s.store.get? (key (s.root v) name) = some e ∧
        describe ⟨0, s.root v⟩ (key (s.root v) name, e) s.world = info := by
  have asked : (s.perform (.on v (.stat name))).1 =
      (locate (s.root v) s.store name).map fun l => .info (describe ⟨0, s.root v⟩ l s.world) := by
    rw [perform_on, Request.ask, telling_eq, stat]
    unfold Session.store
    cases locate (s.root v) (s.world.volume 0).store name with
    | error e => rfl
    | ok l => rfl
  rw [asked]
  cases found : locate (s.root v) s.store name with
  | error fault =>
    constructor
    · intro told
      cases told
    · rintro ⟨valid, e, stored, -⟩
      rw [locate_eq_ok.2 ⟨valid, rfl, stored⟩] at found
      cases found
  | ok l =>
    obtain ⟨k, e⟩ := l
    obtain ⟨valid, rfl, stored⟩ := locate_eq_ok.1 found
    simp only [Except.map, Except.ok.injEq, Answer.info.injEq, stored, Option.some.injEq, valid, true_and,
      exists_eq_left']

/-- A pattern finds a name from the root of a row: the name matches, and something is stored under its key. -/
def Finds (s : Store Entry) (as : List Text) (pattern name : Text) : Prop :=
  ∃ bs, bs ≠ [] ∧ Names bs ∧ name = ofReduced false bs ∧
    (s.get? (ofReduced true (as ++ bs))).isSome = true ∧ Glob.isMatch pattern name = .ok true

section
variable (sound : s.Sound) (labelled : LabelledUnder s (ofReduced true as)) (ha : Names as)
include sound labelled ha

/-- The names that a pattern finds: those of the stored keys below the root that match, in order. -/
theorem glob_spec (there : (s.get? (ofReduced true as)).isSome = true) (read : Glob.scan pattern ≠ none) :
    ∃ names, glob (ofReduced true as) s pattern = .ok names ∧ names.Pairwise (· < ·) ∧
      ∀ n, n ∈ names ↔ Finds s as pattern n := by
  obtain ⟨tokens, read⟩ := Option.ne_none_iff_exists'.1 read
  obtain ⟨sorted, members⟩ := Store.select_spec sound (ofReduced true as) (Glob.matchTokens tokens)
  refine ⟨(s.select (ofReduced true as) (Glob.matchTokens tokens)).map (relative (ofReduced true as)),
    by simp only [glob, Store.matching, read], ?_, fun n => ?_⟩
  · rw [List.pairwise_map]
    refine sorted.imp_of_mem fun {k k'} member member' before => ?_
    obtain ⟨-, -, ⟨-, rest, rfl⟩, -⟩ := (members k).1 member
    obtain ⟨-, -, ⟨-, rest', rfl⟩, -⟩ := (members k').1 member'
    rw [relative_branch, relative_branch]
    exact Text.append_lt_append_iff.1 before
  · have matched : Glob.isMatch pattern n = .ok true ↔ Glob.matchTokens tokens n = true := by
      simp [Glob.isMatch, read]
    rw [List.mem_map, Finds, matched]
    constructor
    · rintro ⟨k, member, rfl⟩
      obtain ⟨-, stored, under, passes⟩ := (members k).1 member
      obtain ⟨e, found⟩ := Option.isSome_iff_exists.1 stored
      obtain ⟨ks, hk, rfl⟩ := isKey_iff.1 (labelled.keys k e found under)
      obtain ⟨bs, hne, rfl⟩ := (under_iff ha hk).1 under
      rw [branch_append ha hne, List.drop_left] at passes
      refine ⟨bs, hne, (names_append.1 hk).2, ?_, stored, ?_⟩
      · rw [branch_append ha hne, relative_branch, ofReduced_relative hne]
      · rwa [branch_append ha hne, relative_branch]
    · rintro ⟨bs, hne, hb, rfl, stored, passes⟩
      rw [ofReduced_relative hne] at passes ⊢
      refine ⟨ofReduced true (as ++ bs), (members _).2 ⟨there, stored, ?_, ?_⟩, ?_⟩
      · exact (under_iff ha (names_append.2 ⟨ha, hb⟩)).2 ⟨bs, hne, rfl⟩
      · rwa [branch_append ha hne, List.drop_left]
      · rw [branch_append ha hne, relative_branch]

end

/-- **Listing and looking up agree**, through every view whose root is stored. -/
theorem consistent_after {calls : List Call} {v : Nat}
    (there : IsDirectory (start.after calls).store ((start.after calls).root v)) :
    Consistent (start.after calls) v := by
  obtain ⟨wired, sound, labelled⟩ := labelled_after calls
  generalize start.after calls = s at there wired sound labelled ⊢
  obtain ⟨as, ha, root⟩ := (wired.root v).names
  constructor
  · intro d info told kind
    obtain ⟨valid, e, stored, rfl⟩ := stat_eq_ok.1 told
    obtain ⟨bs, hb, rfl⟩ := isValid_iff_names.1 valid
    have names := names_append.2 ⟨ha, hb⟩
    rw [root, key_ofReduced ha hb] at stored
    obtain ⟨entries, listed, sorted, members⟩ :=
      listing_spec (n := 0) (w := s.world) sound (labelled.under _) names ⟨e, stored, kind⟩
    refine ⟨entries, ?_, sorted, fun c child => ?_⟩
    · rw [perform_on, Request.ask, telling_eq, root, listed]
      rfl
    · rw [members, names_append, names_singleton_iff, and_iff_right names, and_assoc, and_assoc]
      refine and_congr_right fun validName => and_congr_right fun plain => and_congr_right fun proper => ?_
      have last := names_singleton_iff.2 ⟨validName, plain, proper⟩
      have longer := names_append.2 ⟨hb, last⟩
      have path : below (ofReduced false bs) c = ofReduced false (bs ++ [c]) := by
        have walked := below_ofReduced hb last
        rwa [ofReduced_relative (List.cons_ne_nil c []), joined_singleton] at walked
      rw [path, stat_eq_ok, root, key_ofReduced ha longer, and_iff_right (isValid_iff_names.2 ⟨_, longer, rfl⟩),
        List.append_assoc]
      rfl
  · intro pattern read
    obtain ⟨e, stored, -⟩ := there
    rw [root] at stored
    obtain ⟨names, globbed, sorted, members⟩ :=
      glob_spec sound (labelled.under _) ha (by rw [stored, Option.isSome_some]) read
    refine ⟨names, ?_, sorted, fun n => ?_⟩
    · have asked : (s.perform (.on v (.glob pattern))).1 = (glob (s.root v) s.store pattern).map .names := by
        rw [perform_on]
        rfl
      rw [asked, root, globbed]
      rfl
    · simp only [members, stat_eq_ok, root]
      constructor
      · rintro ⟨bs, hne, hb, rfl, present, matched⟩
        obtain ⟨e, found⟩ := Option.isSome_iff_exists.1 present
        have valid := isValid_iff_names.2 ⟨bs, hb, rfl⟩
        refine ⟨valid, ofReduced_ne_here hb hne, ⟨_, valid, e, ?_, rfl⟩, matched⟩
        rwa [key_ofReduced ha hb]
      · rintro ⟨valid, proper, ⟨_, -, e, found, -⟩, matched⟩
        obtain ⟨bs, hb, rfl⟩ := isValid_iff_names.1 valid
        rw [key_ofReduced ha hb] at found
        refine ⟨bs, ?_, hb, rfl, by rw [found, Option.isSome_some], matched⟩
        rintro rfl
        exact proper rfl

/-- The calls of a session that writes a file two levels down, takes a view of the directory on the way, and
then takes out the directory that the file is in, alone. -/
def hollowCalls : List Call :=
  [.on 0 (.write "a/b/f".text [104, 105] 0o644), .on 0 (.sub "a".text), .on 0 (.remove "a/b".text)]

theorem consistent_hollow :
    IsDirectory (start.after hollowCalls).store ((start.after hollowCalls).root 1) ∧
      Consistent (start.after hollowCalls) 1 := by
  have there : IsDirectory (start.after hollowCalls).store ((start.after hollowCalls).root 1) := by
    decide +kernel
  exact ⟨there, consistent_after there⟩

end Vfs.Memory
