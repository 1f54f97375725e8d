import Vfs.Proofs.Host.Demand

/-!
# Trees that a host can have

In the tree of a host every name stands for bytes, none of them NUL, and the mode word of every directory fits into 32
bits (`Tree.Natural`). Every change leaves it so. What a host then refuses about a path that it can be told is an error
of the host, and listing a directory either answers or fails as an operation on its path (`list_cases`).
-/

namespace Vfs

/-- What is found in a map is one of its pairs. -/
theorem Assoc.mem_of_get? {κ α : Type} [BEq κ] [LawfulBEq κ] {m : Assoc κ α} {k : κ} {a : α}
    (found : m.get? k = some a) : (k, a) ∈ m.pairs := by
  rw [Assoc.get?] at found
  generalize m.pairs = pairs at found ⊢
  induction pairs with
  | nil => cases found
  | cons p rest ih =>
    obtain ⟨j, b⟩ := p
    rw [Assoc.lookup] at found
    split at found
    · next same =>
      obtain rfl := eq_of_beq same
      obtain rfl := Option.some.inj found
      exact List.mem_cons_self ..
    · exact List.mem_cons_of_mem _ (ih found)

end Vfs

namespace Vfs.Host
set_option autoImplicit false
open Vfs.Path

namespace Tree

/-- A tree that a host can have. -/
structure Natural (t : Tree) : Prop where
  plain : ∀ n ∈ t.nodes.pairs, ∀ e ∈ n.1.2, Plain e
  small : ∀ n ∈ t.nodes.pairs, ∀ word, n.2 = .directory word → word < 0x100000000

variable {t t' : Tree} {r : Route} {row row' es : List Text} {e : Text} {node : Node} {fault : Fault}

namespace Natural

theorem part (natural : t.Natural) (part : t'.nodes.pairs.Sublist t.nodes.pairs) : t'.Natural where
  plain := fun n member => natural.plain n (part.subset member)
  small := fun n member => natural.small n (part.subset member)

theorem put (natural : t.Natural) (plain : ∀ e ∈ row, Plain e)
    (small : ∀ word, node = .directory word → word < 0x100000000) : (t.put row node).Natural where
  plain := by
    intro n member
    rcases List.mem_cons.1 member with rfl | kept
    · exact plain
    · exact natural.plain n (List.mem_filter.1 kept).1
  small := by
    intro n member
    rcases List.mem_cons.1 member with rfl | kept
    · exact small
    · exact natural.small n (List.mem_filter.1 kept).1

theorem erase (natural : t.Natural) (row : List Text) : (t.erase row).Natural := natural.part List.filter_sublist

theorem node?_small (natural : t.Natural) {word : Nat} (there : t.node? row = some (.directory word)) :
    word < 0x100000000 := by
  by_cases top : row = []
  · subst top
    cases there
    decide
  · rw [node?_of_ne_nil top] at there
    exact natural.small _ (Assoc.mem_of_get? there) word rfl

theorem names_plain (natural : t.Natural) (row : List Text) : ∀ e ∈ t.names row, Plain e := by
  intro e member
  rw [names, List.mem_filterMap] at member
  obtain ⟨n, there, told⟩ := member
  split at told
  · exact natural.plain n there e (List.mem_of_getLast? told)
  · cases told

end Natural

/-! ## Following a route -/

theorem plain_step (plain : ∀ e ∈ row, Plain e) (own : Plain e) (stepped : t.step row e = .ok row') :
    ∀ e ∈ row', Plain e := by
  unfold Tree.step at stepped
  cases entered : t.enter row with
  | error fault =>
    rw [entered] at stepped
    cases stepped
  | ok done =>
    simp only [entered] at stepped
    split at stepped
    · cases stepped
      exact plain
    · split at stepped
      · cases stepped
        exact fun e member => plain e ((List.dropLast_sublist _).subset member)
      · split at stepped
        · cases stepped
        · cases stepped
          exact List.forall_mem_append.2 ⟨plain, List.forall_mem_singleton.2 own⟩

theorem plain_follow (plain : ∀ e ∈ row, Plain e) (own : ∀ e ∈ es, Plain e) (followed : t.follow row es = .ok row') :
    ∀ e ∈ row', Plain e := by
  induction es generalizing row with
  | nil =>
    cases followed
    exact plain
  | cons e es ih =>
    obtain ⟨first, later⟩ := List.forall_mem_cons.1 own
    rw [Tree.follow] at followed
    cases stepped : t.step row e with
    | error fault =>
      rw [stepped] at followed
      cases followed
    | ok next =>
      rw [stepped] at followed
      exact ih (plain_step plain first stepped) later followed

/-- A new entry gets a name that the host can be told. -/
theorem plain_slot (free : t.slot r = .ok (.free row)) : ∀ e ∈ row, Plain e := by
  unfold Tree.slot at free
  split at free
  · cases free
  · next checked =>
    have plain := Route.plain_names (Route.check_eq_ok.1 checked).1
    split at free
    · cases free
    · next e last =>
      split at free
      · cases free
      · next front followed =>
        split at free
        · cases free
        · split at free
          · cases free
          · split at free
            · cases free
            · split at free
              · cases free
                have above : ∀ e ∈ r.above.names, Plain e := by
                  intro e member
                  rw [Route.above, Route.names, List.map_dropLast] at member
                  exact plain e ((List.dropLast_sublist _).subset member)
                have top : ∀ e ∈ [], Plain e := fun _ member => absurd member List.not_mem_nil
                exact List.forall_mem_append.2 ⟨plain_follow top above followed,
                  List.forall_mem_singleton.2 (plain e (List.mem_of_getLast? last))⟩
              · cases free

/-! ## Changes -/

namespace Natural

variable (natural : t.Natural)
include natural

theorem add (plain : ∀ e ∈ row, Plain e) (small : ∀ word, node = .directory word → word < 0x100000000)
    (added : t.add row node = .ok t') : t'.Natural := by
  unfold Tree.add at added
  split at added
  · cases added
    exact natural.put plain small
  · cases added

theorem mkdir (r : Route) (mode : Nat) : (t.mkdir r mode).2.Natural := by
  unfold Tree.mkdir
  split
  · exact natural
  · exact natural
  · exact natural
  · next row free =>
    split
    · exact natural
    · next made =>
      refine natural.add (plain_slot free) (fun word same => ?_) made
      obtain rfl := Node.directory.inj same
      exact directoryWord_lt mode

theorem mkdirOr (r : Route) (mode : Nat) : (t.mkdirOr r mode).2.Natural := by
  have made := natural.mkdir r mode
  unfold Tree.mkdirOr
  split
  · next fault left ran =>
    rw [ran] at made
    split
    · exact made
    · exact made
  · next left ran =>
    rw [ran] at made
    exact made

theorem mkdirsUp (mode closing : Nat) (up : List Step) : (Tree.mkdirsUp mode closing up t).2.Natural := by
  induction up generalizing mode closing with
  | nil => exact natural.mkdirOr _ mode
  | cons last up ih =>
    have above := ih Mode.standard 0
    unfold Tree.mkdirsUp
    dsimp only
    split
    · exact natural.mkdirOr _ mode
    · split
      · next left ran =>
        rw [ran] at above
        split
        · exact above
        · exact above.mkdirOr _ mode
      · next fault left ran =>
        rw [ran] at above
        split
        · split
          · exact above
          · exact above.mkdirOr _ mode
        · exact above

theorem mkdirs (r : Route) (mode : Nat) : (t.mkdirs r mode).2.Natural := natural.mkdirsUp mode r.closing _

theorem truncate (r : Route) : (t.truncate r).2.Natural := by
  unfold Tree.truncate
  split
  · exact natural
  · exact natural
  · exact natural
  · split
    · exact natural
    · exact natural.part (List.Sublist.refl _)
  · next row free =>
    split
    · exact natural
    · split
      · exact natural
      · next left made =>
        have added := natural.add (plain_slot free) (fun word same => by cases same) made
        exact added.part (List.Sublist.refl _)

theorem overwrite (number position : Nat) (data : Bytes) : (t.overwrite number position data).Natural :=
  natural.part (List.Sublist.refl _)

theorem write (st : Stream) (data : Bytes) : (st.write t data).2.1.Natural := by
  cases st with
  | reading number position pending closed => exact natural
  | writing number position pending closed =>
    cases closed with
    | true => exact natural
    | false =>
      simp only [Stream.write, Stream.give]
      split
      · exact natural
      · have first := natural.overwrite number position pending
        split
        · exact first
        · exact first.overwrite ..
  | sink closed => cases closed <;> exact natural

theorem close (st : Stream) : (st.close t).1.Natural := by
  cases st with
  | reading number position pending closed => exact natural
  | writing number position pending closed =>
    cases closed with
    | true => exact natural
    | false => exact natural.overwrite number position pending
  | sink closed => exact natural

theorem drop (row : List Text) : (t.drop row).2.Natural := by
  unfold Tree.drop
  split
  · exact natural.erase row
  · exact natural

theorem unlink (r : Route) : (t.unlink r).2.Natural := by
  unfold Tree.unlink
  split
  · exact natural
  · exact natural
  · exact natural
  · exact natural
  · next row number found =>
    split
    · exact natural
    · exact natural.drop row

theorem rmdir (r : Route) : (t.rmdir r).2.Natural := by
  unfold Tree.rmdir
  split
  · exact natural
  · exact natural
  · exact natural
  · exact natural
  · next row word found =>
    split
    · exact natural.drop row
    · exact natural

theorem foldl_erase (gone : List (List Text)) : (gone.foldl Tree.erase t).Natural := by
  induction gone generalizing t with
  | nil => exact natural
  | cons row gone ih => exact ih (natural.erase row)

theorem removeAll (r : Route) : (t.removeAll r).2.Natural := by
  unfold Tree.removeAll
  split
  · exact natural
  · exact natural.unlink r
  · next row word found =>
    split
    · have emptied : (t.emptied row).Natural := natural.part List.filter_sublist
      exact emptied.rmdir r
    · exact natural.foldl_erase _

end Natural

/-! ## Refusals -/

/-- What is refused about a path that the host can be told is refused by the host. -/
theorem find_system (plain : Plain r.path) (refused : t.find r = .error fault) : fault.kind.isSystem = true := by
  unfold Tree.find at refused
  split at refused
  · next checked =>
    cases refused
    obtain ⟨encodable, null⟩ := plain_iff.1 plain
    rw [Route.check, encodable, if_neg (by decide), if_neg fun found => null (List.contains_iff_mem.1 found)] at checked
    split at checked
    · cases checked
      decide
    · cases checked
  · split at refused
    · next followed =>
      cases refused
      exact follow_system followed
    · split at refused
      · cases refused
        decide
      · split at refused
        · cases refused
          decide
        · cases refused
      · cases refused

/-- What is found stands under a row. -/
theorem node?_of_find (there : t.find r = .ok (row, node)) : t.node? row = some node := by
  unfold Tree.find at there
  split at there
  · cases there
  · split at there
    · cases there
    · split at there
      · cases there
      · next found =>
        split at there
        · cases there
        · cases there
          exact found
      · next found =>
        cases there
        exact found

/-- Something is found only under a path that the host can be told. -/
theorem plain_of_find {found : List Text × Node} (there : t.find r = .ok found) : Plain r.path := by
  unfold Tree.find at there
  split at there
  · cases there
  · next checked => exact (Route.check_eq_ok.1 checked).1

end Tree

/-! ## Listing -/

variable {w : World} {path : Text}

theorem plain_attach {base name : Text} (plain : Plain base) (own : Plain name) : Plain (attach base name) := by
  intro c inside
  unfold attach at inside
  split at inside
  · exact own c inside
  · split at inside
    · exact (List.mem_append.1 inside).elim (plain c) (own c)
    · rcases List.mem_append.1 inside with before | behind
      · exact plain c before
      · rcases List.mem_cons.1 behind with rfl | behind
        · decide
        · exact own c behind

/-- A description answers, or fails as the host refuses; only numbers are used up. -/
theorem describe_cases (natural : w.tree.Natural) (plain : Plain path) (name : Text) :
    (∃ info k, describe path name w = (.ok info, { w with serial := k })) ∨
      ∃ e, describe path name w = (.error e, w) ∧ e.isSystem = true := by
  have route : Plain (Route.ofPath path).path := by rwa [Route.path_ofPath]
  have told (word size : Nat) (stated : w.tree.stat (.ofPath path) = .ok (word, size)) (small : word < 0x100000000) :
      ∃ info k, describe path name w = (.ok info, { w with serial := k }) := by
    rw [describe_run, stated]
    dsimp only
    rw [HostStat.make_eq name size small]
    exact ⟨_, _, rfl⟩
  cases found : w.tree.find (.ofPath path) with
  | error fault =>
    have refused : w.tree.stat (.ofPath path) = .error fault := by rw [Tree.stat, found]
    refine .inr ⟨fault.error, ?_, Tree.find_system route found⟩
    rw [describe_run, refused]
  | ok there =>
    obtain ⟨row, node⟩ := there
    refine .inl ?_
    cases node with
    | file number => exact told standardFile _ (by rw [Tree.stat, found]) (by decide)
    | directory word => exact told word 0 (by rw [Tree.stat, found]) (natural.node?_small (Tree.node?_of_find found))

/-- One description after the other. -/
theorem mapM_describe_cases (natural : w.tree.Natural) (plain : Plain path) {cs : List Text}
    (names : ∀ c ∈ cs, Plain c) :
    ∃ r k, (cs.mapM fun c => describe (attach path c) c) w = (r, { w with serial := k }) ∧
      ∀ e, r = .error e → e.isSystem = true := by
  induction cs generalizing w with
  | nil => exact ⟨.ok [], w.serial, rfl, fun e failed => by cases failed⟩
  | cons c cs ih =>
    obtain ⟨first, later⟩ := List.forall_mem_cons.1 names
    have own := plain_attach plain first
    rw [List.mapM_cons, Action.bind_eq]
    rcases describe_cases natural own c with ⟨info, k, ran⟩ | ⟨e, ran, system⟩
    · obtain ⟨r, k', rest, system⟩ := ih (w := { w with serial := k }) natural later
      rw [ran]
      dsimp only
      rw [Action.bind_eq, rest]
      cases r with
      | error e => exact ⟨.error e, k', rfl, fun e' failed => by cases failed; exact system e rfl⟩
      | ok infos => exact ⟨.ok (info :: infos), k', rfl, fun e failed => by cases failed⟩
    · rw [ran]
      exact ⟨.error e, w.serial, rfl, fun e' failed => by cases failed; exact system⟩

/-- A directory under a path is listed, or the host refuses. -/
theorem entries_cases (natural : w.tree.Natural) (plain : Plain path) :
    ∃ r k, (do
        let names ← ask fun t => t.list (.ofPath path)
        names.mapM fun child => describe (attach path child) child : Action (List Info)) w =
          (r, { w with serial := k }) ∧ ∀ e, r = .error e → e.isSystem = true := by
  have route : Plain (Route.ofPath path).path := by rwa [Route.path_ofPath]
  have refuses {fault : Fault} (refused : w.tree.list (.ofPath path) = .error fault)
      (system : fault.kind.isSystem = true) : ∃ r k, (do
        let names ← ask fun t => t.list (.ofPath path)
        names.mapM fun child => describe (attach path child) child : Action (List Info)) w =
          (r, { w with serial := k }) ∧ ∀ e, r = .error e → e.isSystem = true := by
    refine ⟨.error fault.error, w.serial, ?_, fun e failed => by cases failed; exact system⟩
    rw [Action.bind_eq, ask_fault refused]
  cases found : w.tree.find (.ofPath path) with
  | error fault => exact refuses (by rw [Tree.list, found]) (Tree.find_system route found)
  | ok there =>
    obtain ⟨row, node⟩ := there
    cases node with
    | file number => exact refuses (by rw [Tree.list, found]) (by decide)
    | directory word =>
      by_cases allowed : w.tree.allows .listing word = true
      · have listed : w.tree.list (.ofPath path) = .ok ((w.tree.names row).mergeSort Text.le) := by
          rw [Tree.list, found]
          exact if_pos allowed
        have names : ∀ e ∈ (w.tree.names row).mergeSort Text.le, Plain e := fun e member =>
          natural.names_plain row e (List.mem_mergeSort.1 member)
        rw [Action.bind_eq, ask_ok listed]
        exact mapM_describe_cases natural plain names
      · have refused : w.tree.list (.ofPath path) = .error denied := by
          rw [Tree.list, found]
          exact if_neg allowed
        exact refuses refused (by decide)

/-- A directory is listed, or the listing fails as an operation on its path; only numbers are used up. -/
theorem list_cases {dir name operation : Text} (natural : w.tree.Natural)
    (told : hostPath dir operation name = .ok path) (plain : Plain path) :
    ∃ r k, list dir name w = (r, { w with serial := k }) ∧ ∀ e, r = .error e → e.isPath = true := by
  obtain ⟨es, names, rfl, rfl⟩ := hostPath_eq_ok.1 told
  obtain ⟨r, k, ran, system⟩ := entries_cases natural plain
  refine ⟨r.mapError fun e => e.at "ReadDir".text (ofReduced false es), k, ?_, ?_⟩
  · rw [list, within_eq names, Action.retell_eq, ran]
    cases r with
    | error e => simp only [Except.mapError, system e rfl, if_true]
    | ok infos => rfl
  · intro e failed
    cases r with
    | error e' =>
      cases failed
      rfl
    | ok infos => cases failed

end Vfs.Host
