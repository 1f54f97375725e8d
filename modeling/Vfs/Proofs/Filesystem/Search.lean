import Vfs.Proofs.Filesystem.Asking
import Vfs.Proofs.Glob.Elements
import Vfs.Proofs.Memory.Atomic
import Vfs.Proofs.Path.Order

/-!
# Searching finds what matching finds

A filesystem in memory matches a pattern against every key below its root; a search lists one directory for
each element of the pattern. On a tree both find the same names (`searchesOut_glob`), and the search finds each
once, be it made on the filesystem itself or on one that can only open what that has. The induction is on the
elements of the pattern: the last one is matched in the directories that those before it find. The names come in
the order of their elements (`search_inOrder`), since what is found at one depth is in order and each directory is
listed in order.
-/

namespace Vfs.Memory
set_option autoImplicit false
open Vfs.Path

/-- A filesystem searches out just the names of a row, each one once. -/
def SearchesOut (fs : Filesystem) (pattern : Text) (w : World) (found : List Text) : Prop :=
  ∃ names, (fs.search pattern w).1 = .ok names ∧ names.Nodup ∧ ∀ n, n ∈ names ↔ n ∈ found

/-- A directory has an entry under a name whose last element matches. -/
def Holds (s : Store Entry) (as : List Text) (dir e name : Text) : Prop :=
  ∃ bs c, Names (bs ++ [c]) ∧ dir = ofReduced false bs ∧ name = ofReduced false (bs ++ [c]) ∧
    (s.get? (ofReduced true (as ++ (bs ++ [c])))).isSome = true ∧ Glob.isMatch e c = .ok true

variable {s : Store Entry} {as es : List Text} {dir e name pattern : Text}

/-- The directory that an entry is in is stored. -/
theorem Linked.holder (linked : Linked s) {bs : List Text} {c : Text} (names : Names (as ++ (bs ++ [c])))
    (stored : (s.get? (ofReduced true (as ++ (bs ++ [c])))).isSome = true) :
    IsDirectory s (ofReduced true (as ++ bs)) := by
  obtain ⟨e, there⟩ := Option.isSome_iff_exists.1 stored
  rw [← List.append_assoc] at names there
  exact linked.above names (List.cons_ne_nil c []) there

/-! ## Patterns of one element more -/

section
variable (isElement : Glob.IsElement e) (plain : .char '/' ∉ e)
include isElement plain

/-- A single element is found in the directory itself. -/
theorem finds_singleton_iff : Finds s as e name ↔ Holds s as here e name := by
  constructor
  · rintro ⟨bs, hne, hb, rfl, stored, matched⟩
    rw [ofReduced_relative hne] at matched
    obtain ⟨c, rfl⟩ := singleton_of_no_slash hb hne (isElement.no_slash plain matched)
    exact ⟨[], c, hb, rfl, rfl, stored, matched⟩
  · rintro ⟨bs, c, names, own, rfl, stored, matched⟩
    have own : ofReduced false [] = ofReduced false bs := own
    obtain rfl := ofReduced_inj names_nil (names_append.1 names).1 own
    exact ⟨[c], List.cons_ne_nil c [], names, rfl, stored, matched⟩

/-- The last element is found in a directory that those before it find. -/
theorem finds_snoc_iff (linked : Linked s) (ha : Names as) (each : ∀ e ∈ es, Glob.IsElement e) (hne : es ≠ []) :
    Finds s as (joined (es ++ [e])) name ↔ ∃ dir, Finds s as (joined es) dir ∧ Holds s as dir e name := by
  rw [joined_append (List.cons_ne_nil e []) hne, joined_singleton]
  have split (s : Text) := Glob.isMatch_snoc (s := s) (Glob.scan_joined each) isElement plain
  constructor
  · rintro ⟨bs, proper, hb, rfl, stored, matched⟩
    rw [ofReduced_relative proper] at matched
    obtain ⟨u, v, front, last, slashless, cut⟩ := (split _).1 matched
    -- The row of the name is that of what stands before the last slash, and one name more.
    have row := hb.elements_joined proper
    rw [cut, elements_append, elements_of_no_slash slashless] at row
    subst row
    have before : ofReduced false (elements u) = u := by
      rw [ofReduced_relative (elements_ne_nil u), joined_elements]
    obtain ⟨d, there, -⟩ := linked.holder (names_append.2 ⟨ha, hb⟩) stored
    exact ⟨u, ⟨elements u, elements_ne_nil u, (names_append.1 hb).1, before.symm,
      by rw [there, Option.isSome_some], front⟩, elements u, v, hb, before.symm, rfl, stored, last⟩
  · rintro ⟨_, ⟨bs, proper, hb, rfl, -, front⟩, bs', c, names, same, rfl, stored, last⟩
    obtain rfl := ofReduced_inj hb (names_append.1 names).1 same
    refine ⟨bs ++ [c], by simp, names, rfl, stored, ?_⟩
    rw [ofReduced_append (List.cons_ne_nil c []) proper, joined_singleton]
    exact (split _).2 ⟨_, c, front, last, (names_append.1 names).2.no_slash c (List.mem_singleton_self c), rfl⟩

end

/-- A row of elements of a pattern that is not empty does not name the directory itself. -/
theorem joined_ne_here (each : ∀ e ∈ es, Glob.IsElement e ∧ .char '/' ∉ e) (hne : es ≠ []) : joined es ≠ here := by
  intro same
  have row := elements_joined hne fun e member => (each e member).2
  rw [same, elements_of_no_slash (by decide)] at row
  exact (each here (by rw [← row]; exact List.mem_singleton_self here)).1.proper rfl

/-! ## One step of a search -/

/-- A pattern with a directory before its last element is searched for in what is found for the directory, or
in the directory itself if that is a plain name. -/
theorem search_below {stat : Text → Action Info} {list : Text → Action (List Info)}
    (scans : ¬(Glob.scan pattern).isNone = true) (special : Glob.hasMeta pattern = true)
    (above : directory pattern = dir) (hne : dir ≠ []) (shorter : dir.length < pattern.length) :
    search stat list pattern =
      if Glob.hasMeta dir then do
        let dirs ← search stat list dir
        let found ← dirs.mapM fun d => searchDirectory list d (lastElement pattern)
        return found.flatten
      else searchDirectory list dir (lastElement pattern) := by
  subst above
  rw [search, if_neg scans, if_pos special]
  cases same : directory pattern with
  | nil => exact absurd same hne
  | cons c rest =>
    rw [same] at shorter
    simp only [if_pos shorter]

/-- A name that is not found is refused as the host would. -/
theorem locate_isSystem {root : Text} {fault : Error} (refused : locate root s name = .error fault) :
    fault.isSystem = true := by
  unfold locate at refused
  split at refused
  · split at refused
    · cases refused
      exact Failure.isSystem_path ..
    · cases refused
  · cases refused
    exact Failure.isSystem_path ..

theorem stat_isSystem {view : View} {w : World} {fault : Error} (refused : (stat view name w).1 = .error fault) :
    fault.isSystem = true := by
  rw [stat] at refused
  cases located : locate view.root (w.volume view.volume).store name with
  | error fault' =>
    rw [located] at refused
    cases refused
    exact locate_isSystem located
  | ok l =>
    rw [located] at refused
    cases refused

/-- A directory that cannot be listed is refused as the host would. -/
theorem listing_isSystem {view : View} {w : World} {fault : Error} (refused : listing view dir w = .error fault) :
    fault.isSystem = true := by
  unfold listing Memory.list at refused
  cases located : locate view.root (w.volume view.volume).store dir with
  | error fault' =>
    rw [located] at refused
    cases refused
    exact locate_isSystem located
  | ok l =>
    rw [located] at refused
    dsimp only at refused
    split at refused
    · cases refused
    · cases refused
      exact Fault.isSystem_at ..

section
variable {home : World} {view : View} {stat : Text → Action Info} {list : Text → Action (List Info)}
  (shows : Shows home view stat list)
include shows

/-- A plain name is answered by itself if it can be asked about. -/
theorem search_name_answers (name : Text) : Answers home (Action.orElse (do let _ ← stat name; return [name]) [])
    (.ok (if (Memory.stat view name home).1.isOk then [name] else [])) := by
  have asked := shows.stat name
  cases told : (Memory.stat view name home).1 with
  | error fault =>
    rw [told] at asked
    exact asked.bind_error.orElse_error (stat_isSystem told) []
  | ok info =>
    rw [told] at asked
    exact Answers.orElse (asked.bind (.pure [name])) []

/-- Searching one directory answers the children it lists whose names match. -/
theorem searchDirectory_answers {tokens : List Glob.Token} (scans : Glob.scan e = some tokens) (dir : Text) :
    Answers home (searchDirectory list dir e)
      (.ok ((((listing view dir home).toOption.getD []).filter fun child => Glob.matchTokens tokens child.name).map
        fun child => Path.child dir child.name)) := by
  have asked := shows.list dir
  cases listed : listing view dir home with
  | error fault =>
    rw [listed] at asked
    exact (asked.orElse_error (listing_isSystem listed) []).bind (.pure [])
  | ok entries =>
    rw [listed] at asked
    refine (asked.orElse []).bind ?_
    cases entries with
    | nil => exact .pure []
    | cons child entries =>
      simp only [List.isEmpty_cons, Bool.false_eq_true, if_false, scans]
      exact .pure _

end

/-- An entry's path has one element more than that of its directory. -/
theorem Holds.elements_eq (holds : Holds s as dir e name) (proper : dir ≠ here) :
    ∃ c, elements name = elements dir ++ [c] := by
  obtain ⟨bs, c, names, rfl, rfl, -, -⟩ := holds
  have hne : bs ≠ [] := by
    rintro rfl
    exact proper rfl
  refine ⟨c, ?_⟩
  rw [ofReduced_relative hne, ofReduced_relative (by simp), names.elements_joined (by simp),
    (names_append.1 names).1.elements_joined hne]

/-- A name that a row of elements finds has as many elements, and is not the directory that is searched. -/
theorem length_of_finds (each : ∀ e ∈ es, Glob.IsElement e ∧ .char '/' ∉ e) (hne : es ≠ [])
    (finds : Finds s as (joined es) name) : name ≠ here ∧ (elements name).length = es.length := by
  obtain ⟨bs, proper, hb, rfl, -, matched⟩ := finds
  refine ⟨fun same => proper (ofReduced_inj hb names_nil same), Glob.length_elements each hne matched⟩

section
variable {home : World} {n : Nat} {stat : Text → Action Info} {list : Text → Action (List Info)}
  (sound : (home.volume n).store.Sound)
  (labelled : LabelledUnder (home.volume n).store (ofReduced true as)) (linked : Linked (home.volume n).store)
  (ha : Names as) (shows : Shows home ⟨n, ofReduced true as⟩ stat list)

/-- A name is that of a stored directory, or cannot be listed. -/
theorem listing_cases (home : World) (n : Nat) (ha : Names as) (dir : Text) :
    (∃ bs, Names bs ∧ dir = ofReduced false bs ∧
      IsDirectory (home.volume n).store (ofReduced true (as ++ bs))) ∨
    ∃ fault, listing ⟨n, ofReduced true as⟩ dir home = .error fault ∧ fault.isSystem = true := by
  by_cases valid : isValid dir = true
  · obtain ⟨bs, hb, rfl⟩ := isValid_iff_names.1 valid
    simp only [listing, Memory.list, locate, valid, if_true, key_ofReduced ha hb]
    cases found : (home.volume n).store.get? (ofReduced true (as ++ bs)) with
    | none => exact .inr ⟨_, rfl, Failure.isSystem_path ..⟩
    | some d =>
      cases kind : d.directory with
      | true => exact .inl ⟨bs, hb, rfl, d, found, kind⟩
      | false =>
        refine .inr ⟨Fault.notDir.at "ReadDir".text (ofReduced false bs), ?_, Failure.isSystem_path ..⟩
        simp [kind, Except.map]
  · simp only [listing, Memory.list, locate, valid]
    exact .inr ⟨_, rfl, Failure.isSystem_path ..⟩

include ha shows in
/-- A name is found by itself where something is stored under it. -/
theorem search_plain (plain : Glob.hasMeta pattern = false) (proper : pattern ≠ here) :
    ∃ names, Answers home (Action.orElse (do let _ ← stat pattern; return [pattern]) []) (.ok names) ∧
      InOrder names ∧ ∀ name, name ∈ names ↔ Finds (home.volume n).store as pattern name := by
  refine ⟨_, search_name_answers shows pattern, ?_, fun name => ?_⟩
  · split
    · exact List.pairwise_singleton _ _
    · exact .nil
  · have found : name ∈ (if (Memory.stat ⟨n, ofReduced true as⟩ pattern home).1.isOk then [pattern] else []) ↔
        (Memory.stat ⟨n, ofReduced true as⟩ pattern home).1.isOk = true ∧ name = pattern := by
      split
      · next there => simp [there]
      · next missing => simp [missing]
    rw [found]
    constructor
    · rintro ⟨answered, rfl⟩
      cases located : locate (ofReduced true as) (home.volume n).store name with
      | error fault =>
        rw [Memory.stat, located] at answered
        cases answered
      | ok l =>
        obtain ⟨valid, -, stored⟩ := locate_eq_ok.1 located
        obtain ⟨bs, hb, rfl⟩ := isValid_iff_names.1 valid
        rw [key_ofReduced ha hb] at stored
        have hne : bs ≠ [] := by
          rintro rfl
          exact proper rfl
        exact ⟨bs, hne, hb, rfl, by rw [stored, Option.isSome_some], (Glob.isMatch_plain plain).2 rfl⟩
    · rintro ⟨bs, -, hb, rfl, stored, matched⟩
      obtain rfl := (Glob.isMatch_plain plain).1 matched
      obtain ⟨e, there⟩ := Option.isSome_iff_exists.1 stored
      have located := locate_eq_ok.2 ⟨isValid_iff_names.2 ⟨bs, hb, rfl⟩, rfl, by rw [key_ofReduced ha hb, there]⟩
      rw [Memory.stat, located]
      exact ⟨rfl, rfl⟩

include sound labelled linked ha shows

/-- Searching one directory finds what it holds, in the order it is listed in; what is no directory holds nothing. -/
theorem searchDirectory_spec (isElement : Glob.IsElement e) (dir : Text) :
    ∃ names, Answers home (searchDirectory list dir e) (.ok names) ∧ InOrder names ∧
      ∀ name, name ∈ names ↔ Holds (home.volume n).store as dir e name := by
  obtain ⟨tokens, scans, -⟩ := isElement.read
  have matched (c : Text) : Glob.isMatch e c = .ok true ↔ Glob.matchTokens tokens c = true := by
    simp [Glob.isMatch, scans]
  rcases listing_cases home n ha dir with ⟨bs, hb, rfl, there⟩ | ⟨fault, refused, -⟩
  · have names := names_append.2 ⟨ha, hb⟩
    obtain ⟨entries, listed, sorted, members⟩ := listing_spec sound (labelled.down names) names there
    have path {child : Info} (member : child ∈ entries) : Names (bs ++ [child.name]) ∧
        Path.child (ofReduced false bs) child.name = ofReduced false (bs ++ [child.name]) := by
      have longer := ((members child.name child).1 ⟨member, rfl⟩).1
      rw [List.append_assoc] at longer
      have row := (names_append.1 longer).2
      exact ⟨row, child_ofReduced row⟩
    have answers := searchDirectory_answers shows scans (ofReduced false bs)
    rw [listed] at answers
    refine ⟨_, answers, ?_, fun name => ?_⟩
    · rw [InOrder, List.pairwise_map]
      refine (sorted.filter _).imp_of_mem fun {child child'} member member' before => ?_
      obtain ⟨row, walked⟩ := path (List.mem_of_mem_filter member)
      obtain ⟨row', walked'⟩ := path (List.mem_of_mem_filter member')
      rw [walked, walked', ofReduced_relative (by simp), ofReduced_relative (by simp), row.elements_joined (by simp),
        row'.elements_joined (by simp)]
      exact List.append_left_lt (.rel before)
    · rw [List.mem_map]
      constructor
      · rintro ⟨child, member, rfl⟩
        obtain ⟨inside, passes⟩ := List.mem_filter.1 member
        obtain ⟨row, walked⟩ := path inside
        obtain ⟨-, e', stored, -⟩ := (members child.name child).1 ⟨inside, rfl⟩
        rw [List.append_assoc] at stored
        exact ⟨bs, child.name, row, rfl, walked, by rw [stored, Option.isSome_some], (matched _).2 passes⟩
      · rintro ⟨bs', c, row, same, rfl, stored, passes⟩
        obtain rfl := ofReduced_inj hb (names_append.1 row).1 same
        obtain ⟨e', there⟩ := Option.isSome_iff_exists.1 stored
        rw [← List.append_assoc] at there
        have longer : Names (as ++ bs ++ [c]) := names_append.2 ⟨names, (names_append.1 row).2⟩
        obtain ⟨inside, named⟩ := (members c _).2 ⟨longer, e', there, rfl⟩
        refine ⟨_, List.mem_filter.2 ⟨inside, ?_⟩, ?_⟩
        · rw [named]
          exact (matched c).1 passes
        · rw [(path inside).2, named]
  · have answers := searchDirectory_answers shows scans dir
    rw [refused] at answers
    refine ⟨[], answers, .nil, fun name => ?_⟩
    refine ⟨fun member => absurd member List.not_mem_nil, ?_⟩
    rintro ⟨bs, c, names, rfl, rfl, stored, -⟩
    have whole := names_append.2 ⟨ha, names⟩
    have there := linked.holder whole stored
    obtain ⟨hb, -⟩ := names_append.1 names
    obtain ⟨entries, listed, -⟩ :=
      listing_spec sound (labelled.down (names_append.2 ⟨ha, hb⟩)) (names_append.2 ⟨ha, hb⟩) there
    rw [refused] at listed
    cases listed

/-- Searching one directory after the other keeps the order of the directories, if they are all of one depth. -/
theorem search_directories {dirs : List Text} {depth : Nat} (ordered : InOrder dirs)
    (level : ∀ d ∈ dirs, d ≠ here ∧ (elements d).length = depth) (isElement : Glob.IsElement e) :
    ∃ names, Answers home (do let found ← dirs.mapM fun d => searchDirectory list d e; return found.flatten)
        (.ok names) ∧ InOrder names ∧
      ∀ name, name ∈ names ↔ ∃ dir ∈ dirs, Holds (home.volume n).store as dir e name := by
  choose found answers inside members using searchDirectory_spec sound labelled linked ha shows isElement
  refine ⟨dirs.flatMap found, ?_, ?_, fun name => ?_⟩
  · rw [List.flatMap_def]
    exact (Answers.mapM fun d _ => answers d).bind (.pure _)
  · refine List.pairwise_flatMap.2 ⟨fun d _ => inside d, ?_⟩
    refine List.Pairwise.imp_of_mem (fun {d d'} here there before x member y member' => ?_) ordered
    -- The directories differ in an element that both have, and so do the entries in them.
    obtain ⟨c, row⟩ := ((members d x).1 member).elements_eq (level d here).1
    obtain ⟨c', row'⟩ := ((members d' y).1 member').elements_eq (level d' there).1
    rw [row, row']
    exact Text.append_lt_append_of_length_eq before ((level d here).2.trans (level d' there).2.symm)
  · rw [List.mem_flatMap]
    exact exists_congr fun d => and_congr_right fun _ => members d name

/-- A search finds the names that the pattern finds, in the order of their elements. -/
theorem search_inOrder (each : ∀ e ∈ es, Glob.IsElement e ∧ .char '/' ∉ e) (hne : es ≠ []) :
    ∃ names, Answers home (search stat list (joined es)) (.ok names) ∧ InOrder names ∧
      ∀ name, name ∈ names ↔ Finds (home.volume n).store as (joined es) name := by
  induction es using List.reverseRecOn with
  | nil => exact absurd rfl hne
  | append_singleton es e ih =>
    have before : ∀ e ∈ es, Glob.IsElement e ∧ .char '/' ∉ e := fun e' member => each e' (List.mem_append_left _ member)
    obtain ⟨isElement, plain⟩ := each e (List.mem_append_right _ (List.mem_singleton_self e))
    have pieces : Pieces es := fun e' member => ⟨(before e' member).1.ne_nil, (before e' member).2⟩
    have scans : ¬(Glob.scan (joined (es ++ [e]))).isNone = true := by
      simpa using Glob.scan_joined fun e' member => (each e' member).1
    have single := searchDirectory_spec sound labelled linked ha shows isElement
    by_cases special : Glob.hasMeta (joined (es ++ [e])) = true
    · have above := directory_joined pieces plain
      by_cases first : es = []
      · -- The pattern is one element: only the directory itself is searched.
        subst first
        obtain ⟨names, answers, ordered, members⟩ := single here
        refine ⟨names, ?_, ordered, fun name => ?_⟩
        · rw [search, if_neg scans, if_pos special, above, lastElement_joined plain]
          exact answers
        · rw [members, List.nil_append, joined_singleton, finds_singleton_iff isElement plain]
      · have shorter : (joined es).length < (joined (es ++ [e])).length := by
          rw [joined_append (List.cons_ne_nil e []) first, List.length_append]
          exact Nat.lt_add_of_pos_right (Nat.succ_pos _)
        have found (name : Text) :
            Finds (home.volume n).store as (joined (es ++ [e])) name ↔
              ∃ dir, Finds (home.volume n).store as (joined es) dir ∧ Holds (home.volume n).store as dir e name :=
          finds_snoc_iff isElement plain linked ha (fun e' member => (before e' member).1) first
        rw [search_below scans special above (joined_ne_nil pieces first) shorter, lastElement_joined plain]
        split
        · obtain ⟨dirs, answers, ordered, members⟩ := ih before first
          have level (d : Text) (member : d ∈ dirs) : d ≠ here ∧ (elements d).length = es.length :=
            length_of_finds before first ((members d).1 member)
          obtain ⟨names, searched, increasing, inside⟩ :=
            search_directories sound labelled linked ha shows ordered level isElement
          refine ⟨names, answers.bind searched, increasing, fun name => ?_⟩
          simp only [inside, found, members]
        · -- What stands before the last element is a name: it is found if the directory holds anything.
          next literal =>
          have itself (u : Text) := Glob.isMatch_plain (s := u) (Bool.eq_false_iff.2 literal)
          obtain ⟨names, answers, ordered, members⟩ := single (joined es)
          refine ⟨names, answers, ordered, fun name => ?_⟩
          rw [members, found]
          constructor
          · intro holds
            refine ⟨joined es, ?_, holds⟩
            obtain ⟨bs, c, names, same, -, stored, -⟩ := holds
            obtain ⟨d, there, -⟩ := linked.holder (names_append.2 ⟨ha, names⟩) stored
            refine ⟨bs, ?_, (names_append.1 names).1, same, by rw [there, Option.isSome_some], (itself _).2 rfl⟩
            rintro rfl
            exact joined_ne_here before first same
          · rintro ⟨dir', ⟨-, -, -, -, -, matched⟩, holds⟩
            rwa [(itself dir').1 matched] at holds
    · rw [search, if_neg scans, if_neg special]
      exact search_plain ha shows (Bool.eq_false_iff.2 special) (joined_ne_here each hne)

/-- A search finds each name once that the pattern finds. -/
theorem search_spec (each : ∀ e ∈ es, Glob.IsElement e ∧ .char '/' ∉ e) (hne : es ≠ []) :
    ∃ names, Answers home (search stat list (joined es)) (.ok names) ∧ names.Nodup ∧
      ∀ name, name ∈ names ↔ Finds (home.volume n).store as (joined es) name := by
  obtain ⟨names, answers, ordered, members⟩ := search_inOrder sound labelled linked ha shows each hne
  exact ⟨names, answers, ordered.nodup, members⟩

end

/-! ## Searching a tree -/

/-- A well-formed tree in which the last element of a key is the name of the entry under it. -/
structure FormedNamed (s : Store Entry) : Prop extends Formed s where
  named : ∀ k e, s.get? k = some e → k ≠ [.char '/'] → e.name = lastElement k

theorem rootName_eq {k : Text} (isKey : IsKey k) (proper : k ≠ [.char '/']) : rootName k = lastElement k := by
  obtain ⟨ks, hk, rfl⟩ := isKey_iff.1 isKey
  rcases List.eq_nil_or_concat' ks with rfl | ⟨front, c, rfl⟩
  · exact absurd rfl proper
  · have last := (names_append.1 hk).2
    rw [rootName_ofReduced last, lastElement_ofReduced (last.no_slash c (List.mem_singleton_self c))]

theorem Tree.formedNamed (tree : Tree s) : FormedNamed s where
  keys := by
    intro k e stored
    rcases tree.keys k e stored with rfl | ⟨name, valid, -, rfl⟩
    · exact .inl rfl
    · exact .inr ⟨name, valid, rfl⟩
  linked := tree.linked
  named := fun k e stored proper => (tree.named k e stored).trans (rootName_eq (tree.keys k e stored) proper)

/-- The keys below the root of a view of a well-formed tree name their entries, unless `/.` is one of them. -/
theorem FormedNamed.under (formed : FormedNamed s) (ha : Names as)
    (spelled : (s.get? "/.".text).isSome = true → as ≠ []) : LabelledUnder s (ofReduced true as) := by
  have keys (k : Text) (e : Entry) (stored : s.get? k = some e) (under : Store.Under (ofReduced true as) k) :
      IsKey k := by
    refine formed.isKey stored ?_
    rintro rfl
    have deep := spelled (by rw [stored, Option.isSome_some])
    -- A key of two characters is below none but the first.
    have short := under.2.length_le
    have longer := List.length_pos_of_ne_nil (joined_ne_nil ha.pieces deep)
    have two : "/.".text.length = 2 := rfl
    rw [branch_ofReduced ha deep, ofReduced_rooted] at short
    simp only [List.length_append, List.length_cons, List.length_nil] at short
    omega
  refine ⟨keys, fun k e stored under => ?_⟩
  have isKey := keys k e stored under
  have proper : k ≠ [.char '/'] := by
    rintro rfl
    obtain ⟨cs, hne, row⟩ := (under_iff ha names_nil).1 under
    exact hne (List.append_eq_nil_iff.1 row.symm).2
  rw [formed.named k e stored proper, rootName_eq isKey proper]

/-- **Searching finds what matching finds**, each name once: on a view of a well-formed tree with its root
stored, on what can only open what the view has, and on what forwards to that. The key `/.` is below `/` for
matching, but looking up takes it for `/`, so where it is stored the view is to be of another directory. -/
theorem searchesOut_glob {w : World} {view : View} (sound : (w.volume view.volume).store.Sound)
    (formed : FormedNamed (w.volume view.volume).store)
    (there : ((w.volume view.volume).store.get? view.root).isSome = true)
    (spelled : ((w.volume view.volume).store.get? "/.".text).isSome = true →
      view.root ≠ [.char '/'] ∧ view.root ≠ "/.".text)
    (each : ∀ e ∈ elements pattern, Glob.IsElement e) (id opening forwarding : Nat) :
    ∃ found, ((filesystem id view).glob pattern w).1 = .ok found ∧
      SearchesOut (filesystem id view) pattern w found ∧
      SearchesOut (.opener opening (some (filesystem id view).openFile)) pattern w found ∧
      SearchesOut (.ofFunctions forwarding (Filesystem.delegate (.opener opening (some (filesystem id view).openFile))))
        pattern w found := by
  obtain ⟨n, root⟩ := view
  have proper : root ≠ "/.".text := by
    rintro rfl
    exact (spelled there).2 rfl
  obtain ⟨d, stored⟩ := Option.isSome_iff_exists.1 there
  obtain ⟨as, ha, rfl⟩ := isKey_iff.1 (formed.isKey stored proper)
  have labelled : LabelledUnder (w.volume n).store (ofReduced true as) := by
    refine formed.under ha fun dotted => ?_
    rintro rfl
    exact (spelled dotted).1 rfl
  have hne := elements_ne_nil pattern
  have plain (e : Text) (member : e ∈ elements pattern) : Glob.IsElement e ∧ .char '/' ∉ e :=
    ⟨each e member, no_slash_of_mem_elements member⟩
  have scans := Glob.scan_joined each
  rw [joined_elements] at scans
  obtain ⟨found, globbed, -, members⟩ := glob_spec sound labelled ha there scans
  have searched {stat : Text → Action Info} {list : Text → Action (List Info)}
      (shows : Shows w ⟨n, ofReduced true as⟩ stat list) :
      ∃ names, (Vfs.search stat list pattern w).1 = .ok names ∧ names.Nodup ∧ ∀ n, n ∈ names ↔ n ∈ found := by
    obtain ⟨names, answers, nodup, inside⟩ := search_spec sound labelled formed.linked ha shows plain hne
    rw [joined_elements] at answers inside
    exact ⟨names, answers.answer w rfl, nodup, fun name => (inside name).trans (members name).symm⟩
  have sorted (dir : Text) (entries : List Info) (listed : listing ⟨n, ofReduced true as⟩ dir w = .ok entries) :
      entries.Pairwise fun e e' => e.name < e'.name := by
    rcases listing_cases w n ha dir with ⟨bs, hb, rfl, isDir⟩ | ⟨fault, refused, -⟩
    · have names := names_append.2 ⟨ha, hb⟩
      obtain ⟨entries', told, sorted, -⟩ := listing_spec sound (labelled.down names) names isDir
      rw [listed] at told
      cases told
      exact sorted
    · rw [refused] at listed
      cases listed
  exact ⟨found, globbed, searched (shows_filesystem id w _), searched (shows_opener opening sorted),
    searched (shows_opener opening sorted)⟩

theorem searchesOut_nested :
    nested.store.Sound ∧ FormedNamed nested.store ∧ (nested.store.get? [.char '/']).isSome = true ∧
      ¬(nested.store.get? "/.".text).isSome = true ∧ (∀ e ∈ elements "[a-c]/*".text, Glob.IsElement e) ∧
      ∃ found, ((filesystem 0 ⟨0, [.char '/']⟩).glob "[a-c]/*".text nested.world).1 = .ok found ∧
        SearchesOut (filesystem 0 ⟨0, [.char '/']⟩) "[a-c]/*".text nested.world found ∧
        SearchesOut (.opener 1 (some (filesystem 0 ⟨0, [.char '/']⟩).openFile)) "[a-c]/*".text nested.world found ∧
        SearchesOut (.ofFunctions 2 (Filesystem.delegate (.opener 1 (some (filesystem 0 ⟨0, [.char '/']⟩).openFile))))
          "[a-c]/*".text nested.world found := by
  obtain ⟨-, sound, tree⟩ := invariant_reached reached_nested
  have there : (nested.store.get? [.char '/']).isSome = true := by decide +kernel
  have plain : ¬(nested.store.get? "/.".text).isSome = true := by decide +kernel
  have each : ∀ e ∈ elements "[a-c]/*".text, Glob.IsElement e := by
    have row : elements "[a-c]/*".text = ["[a-c]".text, "*".text] := by decide
    simp only [row, List.forall_mem_cons]
    refine ⟨⟨by decide, by decide, [.oneOf false [(.char 'a', .char 'c')]], by decide +kernel, ?_⟩,
      ⟨by decide, by decide, [.star], by decide +kernel, ?_⟩, fun _ member => absurd member List.not_mem_nil⟩
    · intro negated ranges member
      cases List.mem_singleton.1 member
      decide
    · intro negated ranges member
      cases List.mem_singleton.1 member
  refine ⟨sound, tree.formedNamed, there, plain, each, ?_⟩
  have spelled (stored : (nested.store.get? "/.".text).isSome = true) :
      (⟨0, [.char '/']⟩ : View).root ≠ [.char '/'] ∧ (⟨0, [.char '/']⟩ : View).root ≠ "/.".text := absurd stored plain
  exact @searchesOut_glob _ nested.world ⟨0, [.char '/']⟩ sound tree.formedNamed there spelled each 0 1 2

/-- Where `/.` is stored, a search of `/` that passes through it comes out in `/` again. -/
theorem not_searchesOut_dotted :
    ¬∀ (w : World) (view : View) (pattern : Text), (w.volume view.volume).store.Sound →
      FormedNamed (w.volume view.volume).store →
      ((w.volume view.volume).store.get? view.root).isSome = true →
      (∀ e ∈ elements pattern, Glob.IsElement e) →
      ∃ found, ((filesystem 0 view).glob pattern w).1 = .ok found ∧
        SearchesOut (filesystem 0 view) pattern w found := by
  intro finds
  have formed : FormedNamed (dotted.volume 0).store := by
    have named : ∀ k ∈ ["/".text, "/.".text, "/a".text, "/a/d".text], k ≠ [.char '/'] →
        ((dotted.volume 0).store.get? k).all (fun e => e.name = lastElement k) = true := by decide +kernel
    refine ⟨formed_dotted, fun k e stored proper => ?_⟩
    simpa [stored] using named k (dotted_keys stored) proper
  have each : ∀ e ∈ elements "*/a".text, Glob.IsElement e := by
    have row : elements "*/a".text = ["*".text, "a".text] := by decide
    simp only [row, List.forall_mem_cons]
    refine ⟨⟨by decide, by decide, [.star], by decide +kernel, ?_⟩,
      ⟨by decide, by decide, [.literal (.char 'a')], by decide +kernel, ?_⟩,
      fun _ member => absurd member List.not_mem_nil⟩
    all_goals
      intro negated ranges member
      cases List.mem_singleton.1 member
  obtain ⟨found, globbed, names, searched, -, same⟩ :=
    finds dotted ⟨0, [.char '/']⟩ "*/a".text sound_dotted formed (by decide +kernel) each
  have unmatched : ((filesystem 0 ⟨0, [.char '/']⟩).glob "*/a".text dotted).1.toOption = some [] := by decide +kernel
  have one : ((filesystem 0 ⟨0, [.char '/']⟩).search "*/a".text dotted).1.toOption = some ["a".text] := by
    decide +kernel
  rw [globbed] at unmatched
  rw [searched] at one
  cases unmatched
  cases one
  exact absurd ((same _).1 (List.mem_singleton_self _)) List.not_mem_nil

end Vfs.Memory
