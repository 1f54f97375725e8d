import Vfs.Proofs.Filesystem.Search
import Vfs.Proofs.Glob.Escape

/-!
# Finding a name by its escaped form

Where every entry is named by its key, a directory lists what stands behind its own key (`listing_named`). The
pattern that a name is escaped to finds that name alone, matched against the keys (`glob_escape`) or searched for
one directory after the other (`search_escape`); the induction is on the name from its last element, which is
looked for in the directory that the elements before it lead to. None of this needs the keys to be spelled as
paths are: a key such as `/.` is listed under a name that no lookup accepts, and no escaped name matches it. In a
session the keys are paths, and there the escaped form of a name finds the name or nothing (`escape_exact`).
-/

namespace Vfs.Memory
set_option autoImplicit false
open Vfs.Path Session

variable {s : Store Entry} {as bs fs : List Text} {c name : Text} {k : Text} {e : Entry}

/-! ## Listings of named entries -/

theorem branch_slash (k : Text) : ∃ p, Store.branch k = p ++ [.char '/'] := by
  unfold Store.branch
  split
  · next ends => exact ⟨_, (List.getLast?_eq_some_iff.1 ends).choose_spec⟩
  · exact ⟨k, rfl⟩

/-- Each entry but the root's is named by its key. -/
def Named (s : Store Entry) : Prop := ∀ k e, s.get? k = some e → k ≠ [.char '/'] → e.name = lastElement k

/-- A child is named by what stands behind the branch of its directory. -/
theorem name_of_child (named : Named s) (sound : s.Sound) (ha : Names as)
    (member : k ∈ s.children (ofReduced true as)) (stored : s.get? k = some e) :
    k = Store.branch (ofReduced true as) ++ e.name := by
  obtain ⟨-, -, ⟨proper, rest, rfl⟩, plain⟩ := ((Store.select_spec sound _ _).2 k).1 member
  rw [List.drop_left] at plain
  have slashless : .char '/' ∉ rest := by simpa using plain
  obtain ⟨p, ends⟩ := branch_slash (ofReduced true as)
  have below : Store.branch (ofReduced true as) ++ rest ≠ [.char '/'] := by
    intro top
    by_cases empty : as = []
    · subst empty
      exact proper top
    · have long := congrArg List.length top
      rw [branch_ofReduced ha empty, ofReduced_rooted] at long
      simp at long
  have last : lastElement (Store.branch (ofReduced true as) ++ rest) = rest := by
    rw [ends, List.append_assoc, List.singleton_append, lastElement, cut_append_slash slashless]
  rw [named _ e stored below, last]

/-- A directory lists each entry under one name more, by increasing name. -/
theorem listing_named {w : World} {n : Nat} (sound : (w.volume n).store.Sound) (named : Named (w.volume n).store)
    (names : Names (as ++ bs)) (there : IsDirectory (w.volume n).store (ofReduced true (as ++ bs))) :
    ∃ entries, listing ⟨n, ofReduced true as⟩ (ofReduced false bs) w = .ok entries ∧
      (entries.map Info.name).Pairwise (· < ·) ∧
      ∀ c, Names [c] → ((w.volume n).store.get? (ofReduced true (as ++ bs ++ [c]))).isSome = true →
        c ∈ entries.map Info.name := by
  obtain ⟨d, stored, kind⟩ := there
  obtain ⟨ha, hb⟩ := names_append.1 names
  have found : locate (ofReduced true as) (w.volume n).store (ofReduced false bs) =
      .ok (ofReduced true (as ++ bs), d) := by
    have key := key_ofReduced ha hb
    exact locate_eq_ok.2 ⟨isValid_iff_names.2 ⟨bs, hb, rfl⟩, key, by rw [key, stored]⟩
  have told : listing ⟨n, ofReduced true as⟩ (ofReduced false bs) w =
      .ok (((w.volume n).store.children (ofReduced true (as ++ bs))).filterMap fun k =>
        ((w.volume n).store.get? k).map fun e => describe ⟨n, ofReduced true as⟩ (k, e) w) := by
    simp only [listing, list, found, kind, if_true, Except.map, List.map_filterMap, Option.map_map]
    rfl
  obtain ⟨sorted, members⟩ := Store.select_spec sound (ofReduced true (as ++ bs)) fun rest => !rest.contains (.char '/')
  -- The names are what stands behind the branch, in the order of the keys.
  have listed : ((w.volume n).store.children (ofReduced true (as ++ bs))).filterMap (fun k =>
      (((w.volume n).store.get? k).map fun e => describe ⟨n, ofReduced true as⟩ (k, e) w).map Info.name) =
      ((w.volume n).store.children (ofReduced true (as ++ bs))).map
        (·.drop (Store.branch (ofReduced true (as ++ bs))).length) := by
    rw [← List.filterMap_eq_map]
    refine List.filterMap_congr fun k member => ?_
    obtain ⟨-, present, -⟩ := (members k).1 member
    obtain ⟨e, stored⟩ := Option.isSome_iff_exists.1 present
    have row := name_of_child named sound names member stored
    rw [stored, Function.comp_apply, row, List.drop_left]
    rfl
  refine ⟨_, told, ?_, fun c single present => ?_⟩
  · rw [List.map_filterMap, listed, List.pairwise_map]
    refine List.Pairwise.imp_of_mem (fun {k k'} member member' before => ?_) sorted
    obtain ⟨-, -, ⟨-, rest, rfl⟩, -⟩ := (members k).1 member
    obtain ⟨-, -, ⟨-, rest', rfl⟩, -⟩ := (members k').1 member'
    rw [List.drop_left, List.drop_left]
    exact Text.append_lt_append_iff.1 before
  · have key := branch_append names (List.cons_ne_nil c [])
    have slashless : .char '/' ∉ c := single.no_slash c (List.mem_singleton_self c)
    have below := (under_iff names (names_append.2 ⟨names, single⟩)).2 ⟨[c], List.cons_ne_nil c [], rfl⟩
    rw [joined_singleton] at key
    rw [List.map_filterMap, listed]
    refine List.mem_map.2 ⟨ofReduced true (as ++ bs ++ [c]), (members _).2 ⟨?_, present, below, ?_⟩, ?_⟩
    · rw [stored, Option.isSome_some]
    · rw [key, List.drop_left]
      simpa using slashless
    · rw [key, List.drop_left]

/-! ## Finding a name by its escaped form -/

/-- What stands once in a row without repetition is all that is kept of it. -/
theorem filter_names {entries : List Info} (sorted : (entries.map Info.name).Pairwise (· < ·))
    (member : c ∈ entries.map Info.name) :
    ((entries.filter fun e => Glob.matchTokens (c.map Glob.Token.literal) e.name).map Info.name) = [c] := by
  have test : (fun e : Info => Glob.matchTokens (c.map Glob.Token.literal) e.name) = (· == c) ∘ Info.name := by
    funext e
    exact Bool.eq_iff_iff.2 ((Glob.matchTokens_escape c e.name).trans beq_iff_eq.symm)
  rw [test, ← List.filter_map, List.filter_beq, List.count_eq_one_of_mem (Text.nodup_of_sorted sorted) member]
  rfl

section
variable {home : World} {n : Nat} {stat : Text → Action Info} {list : Text → Action (List Info)}
  (sound : (home.volume n).store.Sound) (ha : Names as)
include sound ha

/-- A name is matched by its escaped form alone. -/
theorem glob_escape (hb : Names bs) (hne : bs ≠ [])
    (there : ((home.volume n).store.get? (ofReduced true as)).isSome = true)
    (stored : ((home.volume n).store.get? (ofReduced true (as ++ bs))).isSome = true) :
    glob (ofReduced true as) (home.volume n).store (Glob.escape (ofReduced false bs)) = .ok [ofReduced false bs] := by
  obtain ⟨sorted, members⟩ := Store.select_spec sound (ofReduced true as)
    (Glob.matchTokens ((ofReduced false bs).map Glob.Token.literal))
  have nodup := Text.nodup_of_sorted sorted
  have key : ofReduced true (as ++ bs) = Store.branch (ofReduced true as) ++ joined bs := branch_append ha hne
  have one : (home.volume n).store.select (ofReduced true as)
      (Glob.matchTokens ((ofReduced false bs).map Glob.Token.literal)) = [ofReduced true (as ++ bs)] := by
    refine List.perm_singleton.1 ((List.perm_ext_iff_of_nodup nodup (List.nodup_singleton _)).2 fun k => ?_)
    rw [members, List.mem_singleton, Glob.matchTokens_escape, ofReduced_relative hne, key]
    constructor
    · rintro ⟨-, -, ⟨-, rest, rfl⟩, same⟩
      rw [← same, List.drop_left]
    · rintro rfl
      have below := (under_iff ha (names_append.2 ⟨ha, hb⟩)).2 ⟨bs, hne, rfl⟩
      exact ⟨there, key ▸ stored, key ▸ below, List.drop_left⟩
  have behind : relative (ofReduced true as) (ofReduced true (as ++ bs)) = ofReduced false bs := by
    rw [key, relative_branch, ofReduced_relative hne]
  simp only [glob, Store.matching, Glob.scan_escape_all, one, List.map_cons, List.map_nil, behind]

variable (named : Named (home.volume n).store) (shows : Shows home ⟨n, ofReduced true as⟩ stat list)
include named shows

omit ha in
/-- In its directory a name is found by its escaped form alone. -/
theorem searchDirectory_escape (names : Names (as ++ bs)) (single : Names [c])
    (there : IsDirectory (home.volume n).store (ofReduced true (as ++ bs)))
    (stored : ((home.volume n).store.get? (ofReduced true (as ++ bs ++ [c]))).isSome = true) :
    Answers home (searchDirectory list (ofReduced false bs) (Glob.escape c)) (.ok [ofReduced false (bs ++ [c])]) := by
  obtain ⟨entries, listed, sorted, members⟩ := listing_named sound named names there
  have found : (entries.filter fun e => Glob.matchTokens (c.map Glob.Token.literal) e.name).map
      (fun e => Path.child (ofReduced false bs) e.name) = [ofReduced false (bs ++ [c])] := by
    have kept := congrArg (List.map (Path.child (ofReduced false bs)))
      (filter_names sorted (members c single stored))
    rw [List.map_map, List.map_cons, List.map_nil,
      child_ofReduced (names_append.2 ⟨(names_append.1 names).2, single⟩)] at kept
    exact kept
  have answers := searchDirectory_answers shows (Glob.scan_escape_all c) (ofReduced false bs)
  rw [listed] at answers
  exact found ▸ answers

/-- **A stored name is found by its escaped form alone**, whichever of its elements have to be escaped. -/
theorem search_escape (linked : Linked (home.volume n).store) (hb : Names bs) (hne : bs ≠ [])
    (stored : ((home.volume n).store.get? (ofReduced true (as ++ bs))).isSome = true) :
    Answers home (search stat list (Glob.escape (ofReduced false bs))) (.ok [ofReduced false bs]) := by
  induction bs using List.reverseRecOn with
  | nil => exact absurd rfl hne
  | append_singleton bs c ih =>
    obtain ⟨hbs, single⟩ := names_append.1 hb
    have names := names_append.2 ⟨ha, hbs⟩
    have whole := names_append.2 ⟨ha, hb⟩
    have plain : .char '/' ∉ Glob.escape c := Glob.slash_not_mem_escape (single.no_slash c (List.mem_singleton_self c))
    have pieces := Glob.pieces_escape hbs.pieces
    have scans : ¬(Glob.scan (Glob.escape (ofReduced false (bs ++ [c])))).isNone = true := by
      simp [Glob.scan_escape_all]
    have there : IsDirectory (home.volume n).store (ofReduced true (as ++ bs)) := linked.holder whole stored
    rw [← List.append_assoc] at stored
    have last := searchDirectory_escape sound named shows names single there stored
    by_cases special : Glob.hasMeta (Glob.escape (ofReduced false (bs ++ [c]))) = true
    · have cut : Glob.escape (ofReduced false (bs ++ [c])) = joined (bs.map Glob.escape ++ [Glob.escape c]) := by
        rw [ofReduced_relative (by simp), Glob.escape_joined, List.map_append]
        rfl
      rw [cut] at scans special ⊢
      have above := directory_joined pieces plain
      by_cases first : bs = []
      · subst first
        rw [search, if_neg scans, if_pos special, above, lastElement_joined plain]
        exact last
      · have nonempty : bs.map Glob.escape ≠ [] := by simpa using first
        have shorter : (joined (bs.map Glob.escape)).length <
            (joined (bs.map Glob.escape ++ [Glob.escape c])).length := by
          rw [joined_append (List.cons_ne_nil _ []) nonempty, List.length_append]
          exact Nat.lt_add_of_pos_right (Nat.succ_pos _)
        have path : joined (bs.map Glob.escape) = Glob.escape (ofReduced false bs) := by
          rw [ofReduced_relative first, Glob.escape_joined]
        rw [search_below scans special above (joined_ne_nil pieces nonempty) shorter, lastElement_joined plain, path]
        split
        · obtain ⟨d, present, -⟩ := there
          refine (ih hbs first (by rw [present, Option.isSome_some])).bind ?_
          have each : ∀ d ∈ [ofReduced false bs],
              Answers home (searchDirectory list d (Glob.escape c)) (.ok [ofReduced false (bs ++ [c])]) := by
            simpa using last
          exact (Answers.mapM (g := fun _ => [ofReduced false (bs ++ [c])]) each).bind (.pure _)
        · next literal =>
          rw [Glob.escape_plain (Bool.eq_false_iff.2 literal)]
          exact last
    · rw [search, if_neg scans, if_neg special, Glob.escape_plain (Bool.eq_false_iff.2 special)]
      have asked := shows.stat (ofReduced false (bs ++ [c]))
      obtain ⟨e, present⟩ := Option.isSome_iff_exists.1 stored
      have found : locate (ofReduced true as) (home.volume n).store (ofReduced false (bs ++ [c])) =
          .ok (ofReduced true (as ++ (bs ++ [c])), e) := by
        have key := key_ofReduced ha hb
        exact locate_eq_ok.2 ⟨isValid_iff_names.2 ⟨_, hb, rfl⟩, key, by rw [key, ← List.append_assoc, present]⟩
      simp only [Memory.stat, found] at asked
      exact (asked.bind (.pure [ofReduced false (bs ++ [c])])).orElse []

end

/-! ## Escaping is exact -/

/-- An escaped name matches itself alone. -/
theorem isMatch_escape (name text : Text) : Glob.isMatch (Glob.escape name) text = .ok (decide (text = name)) := by
  rw [Glob.isMatch, Glob.scan_escape_all]
  exact congrArg Except.ok (Bool.eq_iff_iff.2 ((Glob.matchTokens_escape name text).trans decide_eq_true_iff.symm))

/-- An escaped name is an element of a pattern. -/
theorem isElement_escape (hne : c ≠ []) (proper : c ≠ here) : Glob.IsElement (Glob.escape c) where
  ne_nil := Glob.escape_ne_nil hne
  proper := by
    intro same
    have plain : Glob.hasMeta (Glob.escape c) = false := by
      rw [same]
      decide
    rw [Glob.escape_plain plain] at same
    exact proper same
  read := ⟨_, Glob.scan_escape_all c, fun negated ranges member => by simp at member⟩

/-- An escaped name finds that name, if anything is stored under it. -/
theorem finds_escape_iff (hb : Names bs) (hne : bs ≠ []) : Finds s as (Glob.escape (ofReduced false bs)) name ↔
    name = ofReduced false bs ∧ (s.get? (ofReduced true (as ++ bs))).isSome = true := by
  have matched : Glob.isMatch (Glob.escape (ofReduced false bs)) name = .ok true ↔ name = ofReduced false bs := by
    simp [isMatch_escape]
  rw [Finds, matched]
  constructor
  · rintro ⟨bs', -, hb', rfl, stored, same⟩
    rw [ofReduced_inj hb' hb same] at stored
    exact ⟨same, stored⟩
  · rintro ⟨rfl, stored⟩
    exact ⟨bs, hne, hb, rfl, stored, rfl⟩

/-- A name, if anything is stored under it. -/
def ifStored (s : Store Entry) (root name : Text) : List Text := if (s.get? (key root name)).isSome then [name] else []

theorem eq_ifStored {root : Text} {names : List Text} (nodup : names.Nodup)
    (members : ∀ x, x ∈ names ↔ x = name ∧ (s.get? (key root name)).isSome = true) : names = ifStored s root name := by
  unfold ifStored
  split
  · next holds =>
    exact List.perm_singleton.1 ((List.perm_ext_iff_of_nodup nodup (List.nodup_singleton _)).2 fun x => by
      rw [members, List.mem_singleton, and_iff_left holds])
  · next fails => exact List.eq_nil_iff_forall_not_mem.2 fun x member => fails ((members x).1 member).2

/-- **Escaping is exact**: an escaped name is a pattern that matches the name and nothing else. On every view whose
root is stored, after any calls that leave each entry in a stored directory, both matching and searching find the
name by it if anything is stored under it, and otherwise nothing. -/
theorem escape_exact :
    (∀ name, Glob.scan (Glob.escape name) ≠ none ∧
      ∀ text, Glob.isMatch (Glob.escape name) text = .ok (decide (text = name))) ∧
    ∀ (calls : List Call) (v id : Nat) (name : Text), Linked (start.after calls).store →
      ((start.after calls).store.get? ((start.after calls).root v)).isSome = true →
      isValid name = true → name ≠ here →
      ((filesystem id ⟨0, (start.after calls).root v⟩).glob (Glob.escape name) (start.after calls).world).1 =
          .ok (ifStored (start.after calls).store ((start.after calls).root v) name) ∧
        ((filesystem id ⟨0, (start.after calls).root v⟩).search (Glob.escape name) (start.after calls).world).1 =
          .ok (ifStored (start.after calls).store ((start.after calls).root v) name) := by
  have scans (name : Text) : Glob.scan (Glob.escape name) ≠ none := by simp [Glob.scan_escape_all]
  refine ⟨fun name => ⟨scans name, isMatch_escape name⟩, fun calls v id name linked there valid proper => ?_⟩
  obtain ⟨wired, sound, labelled⟩ := labelled_after calls
  generalize start.after calls = s at linked there wired sound labelled ⊢
  obtain ⟨as, ha, root⟩ := (wired.root v).names
  rw [root] at there ⊢
  obtain ⟨bs, hb, rfl⟩ := isValid_iff_names.1 valid
  have hne : bs ≠ [] := by
    rintro rfl
    exact proper rfl
  have only (x : Text) : Finds s.store as (Glob.escape (ofReduced false bs)) x ↔
      x = ofReduced false bs ∧ (s.store.get? (key (ofReduced true as) (ofReduced false bs))).isSome = true := by
    rw [key_ofReduced ha hb]
    exact finds_escape_iff hb hne
  constructor
  · obtain ⟨found, globbed, sorted, members⟩ :=
      glob_spec sound (labelled.under _) ha there (scans (ofReduced false bs))
    rw [← eq_ifStored (Text.nodup_of_sorted sorted) fun x => (members x).trans (only x)]
    exact globbed
  · have each (e : Text) (member : e ∈ bs.map Glob.escape) : Glob.IsElement e ∧ .char '/' ∉ e := by
      obtain ⟨c, inside, rfl⟩ := List.mem_map.1 member
      exact ⟨isElement_escape (hb.ne_nil inside) (hb.ne_here inside),
        Glob.slash_not_mem_escape (hb.no_slash c inside)⟩
    have path : joined (bs.map Glob.escape) = Glob.escape (ofReduced false bs) := by
      rw [ofReduced_relative hne, Glob.escape_joined]
    have shows := shows_filesystem id s.world ⟨0, ofReduced true as⟩
    obtain ⟨names, answers, inOrder, inside⟩ :=
      search_inOrder (n := 0) sound (labelled.under _) linked ha shows each (by simpa using hne)
    rw [path] at answers inside
    rw [← eq_ifStored inOrder.nodup fun x => (inside x).trans (only x)]
    exact answers.answer _ rfl

/-- A file is written under a name full of special characters, and a directory beside it that the name would match. -/
def bracketedCalls : List Call :=
  [.on 0 (.write "a*/[b]".text [] 0o777), .on 0 (.write "ab/b".text [] 0o777)]

theorem linked_bracketed : Linked (start.after bracketedCalls).store := by
  have first := Reached.call (.on 0 (.write "a*/[b]".text [] 0o777)) .start (.inl rfl)
  obtain ⟨-, -, tree⟩ := invariant_reached (.call (.on 0 (.write "ab/b".text [] 0o777)) first (.inl rfl))
  exact tree.linked

theorem escape_exact_bracketed :
    Linked (start.after bracketedCalls).store ∧
      ((start.after bracketedCalls).store.get? ((start.after bracketedCalls).root 0)).isSome = true ∧
      isValid "a*/[b]".text = true ∧ "a*/[b]".text ≠ here ∧
      ((filesystem 0 ⟨0, (start.after bracketedCalls).root 0⟩).glob "a\\*/\\[b\\]".text
        (start.after bracketedCalls).world).1 = .ok ["a*/[b]".text] ∧
      ((filesystem 0 ⟨0, (start.after bracketedCalls).root 0⟩).search "a\\*/\\[b\\]".text
        (start.after bracketedCalls).world).1 = .ok ["a*/[b]".text] := by
  have there : ((start.after bracketedCalls).store.get? ((start.after bracketedCalls).root 0)).isSome = true := by
    decide +kernel
  have valid : isValid "a*/[b]".text = true := by decide
  have proper : "a*/[b]".text ≠ here := by decide
  have both := escape_exact.2 bracketedCalls 0 0 "a*/[b]".text linked_bracketed there valid proper
  have itself : ifStored (start.after bracketedCalls).store ((start.after bracketedCalls).root 0) "a*/[b]".text =
      ["a*/[b]".text] := by
    decide +kernel
  rw [itself] at both
  exact ⟨linked_bracketed, there, valid, proper, both⟩

end Vfs.Memory
