import Vfs.Proofs.Filesystem.Search

/-!
# The order that a search comes out in

Matching finds names by code point. A search finds the same names, but in the order of their elements, since it lists
one directory after the other (`search_order`). The two lists are the same just where no two of the names cross:
`a/x` and `a-1/x` do, and a search for `*/x` tells them in the other order (`not_search_sorted`).
-/

namespace Vfs.Memory
set_option autoImplicit false
open Vfs.Path Session

variable {fs : Filesystem} {pattern : Text} {w : World} {found names : List Text}

/-- A search tells the names that matching finds, in the order of their elements; that is the order matching finds
them in if no two of them cross, and only then. -/
structure SearchesInOrder (fs : Filesystem) (pattern : Text) (w : World) (found names : List Text) : Prop where
  glob : (fs.glob pattern w).1 = .ok found
  search : (fs.search pattern w).1 = .ok names
  sorted : found.Pairwise (· < ·)
  perm : names.Perm found
  inOrder : InOrder names
  eq_iff : names = found ↔ names.Pairwise (· < ·)
  sorted_iff : names.Pairwise (· < ·) ↔ ∀ x ∈ names, ∀ y ∈ names, ¬Crosses x y

/-- Two lists of the same names, one sorted and one in the order of the elements, fit together so. -/
theorem searchesInOrder (glob : (fs.glob pattern w).1 = .ok found) (search : (fs.search pattern w).1 = .ok names)
    (sorted : found.Pairwise (· < ·)) (inOrder : InOrder names) (same : ∀ name, name ∈ names ↔ name ∈ found) :
    SearchesInOrder fs pattern w found names := by
  have perm : names.Perm found := (List.perm_ext_iff_of_nodup inOrder.nodup (Text.nodup_of_sorted sorted)).2 same
  refine ⟨glob, search, sorted, perm, inOrder, ⟨fun same => same ▸ sorted, fun sorted' => ?_⟩, inOrder.sorted_iff⟩
  exact perm.eq_of_pairwise (fun a b _ _ before after => absurd after (List.lt_asymm before)) sorted' sorted

/-- **A search comes out in the order of the elements**: on every view whose root is stored, after any calls that leave
each entry in a stored directory, and for every pattern whose elements stand on their own. -/
theorem search_order {calls : List Call} {v : Nat} (linked : Linked (start.after calls).store)
    (there : ((start.after calls).store.get? ((start.after calls).root v)).isSome = true)
    (each : ∀ e ∈ elements pattern, Glob.IsElement e) (id : Nat) :
    ∃ found names, SearchesInOrder (filesystem id ⟨0, (start.after calls).root v⟩) pattern (start.after calls).world
      found names := by
  obtain ⟨wired, sound, labelled⟩ := labelled_after calls
  generalize start.after calls = s at linked there wired sound labelled ⊢
  obtain ⟨as, ha, root⟩ := (wired.root v).names
  rw [root] at there ⊢
  have plain (e : Text) (member : e ∈ elements pattern) : Glob.IsElement e ∧ .char '/' ∉ e :=
    ⟨each e member, no_slash_of_mem_elements member⟩
  have scans := Glob.scan_joined each
  rw [joined_elements] at scans
  obtain ⟨found, globbed, sorted, members⟩ := glob_spec sound (labelled.under _) ha there scans
  have shows := shows_filesystem id s.world ⟨0, ofReduced true as⟩
  obtain ⟨names, answers, inOrder, inside⟩ :=
    search_inOrder (n := 0) sound (labelled.under _) linked ha shows plain (elements_ne_nil pattern)
  rw [joined_elements] at answers inside
  exact ⟨found, names, searchesInOrder globbed (answers.answer _ rfl) sorted inOrder
    fun name => (inside name).trans (members name).symm⟩

/-- The calls of a session that makes two directories with names that cross, and a file in each. -/
def crossedCalls : List Call := [.on 0 (.write "a/x".text [] 0o777), .on 0 (.write "a-1/x".text [] 0o777)]

theorem linked_crossed : Linked (start.after crossedCalls).store := by
  have first := Reached.call (.on 0 (.write "a/x".text [] 0o777)) .start (.inl rfl)
  obtain ⟨-, -, tree⟩ := invariant_reached (.call (.on 0 (.write "a-1/x".text [] 0o777)) first (.inl rfl))
  exact tree.linked

theorem isElement_crossed : ∀ e ∈ elements "*/x".text, Glob.IsElement e := by decide +kernel

theorem search_order_crossed :
    Linked (start.after crossedCalls).store ∧
      ((start.after crossedCalls).store.get? ((start.after crossedCalls).root 0)).isSome = true ∧
      (∀ e ∈ elements "*/x".text, Glob.IsElement e) ∧
      ∃ found names, SearchesInOrder (filesystem 0 ⟨0, (start.after crossedCalls).root 0⟩) "*/x".text
        (start.after crossedCalls).world found names := by
  have there : ((start.after crossedCalls).store.get? ((start.after crossedCalls).root 0)).isSome = true := by
    decide +kernel
  exact ⟨linked_crossed, there, isElement_crossed, search_order linked_crossed there isElement_crossed 0⟩

/-- The names do not come out sorted: `a` comes before `a-1`, but `a-1/x` before `a/x`. -/
theorem not_search_sorted :
    ¬∀ (calls : List Call) (v : Nat) (pattern : Text), Linked (start.after calls).store →
      ((start.after calls).store.get? ((start.after calls).root v)).isSome = true →
      (∀ e ∈ elements pattern, Glob.IsElement e) →
      ∃ names, ((filesystem 0 ⟨0, (start.after calls).root v⟩).search pattern (start.after calls).world).1 = .ok names ∧
        names.Pairwise (· < ·) := by
  intro sorts
  have there : ((start.after crossedCalls).store.get? ((start.after crossedCalls).root 0)).isSome = true := by
    decide +kernel
  obtain ⟨names, searched, sorted⟩ := sorts crossedCalls 0 "*/x".text linked_crossed there isElement_crossed
  have told : ((filesystem 0 ⟨0, (start.after crossedCalls).root 0⟩).search "*/x".text
      (start.after crossedCalls).world).1.toOption = some ["a/x".text, "a-1/x".text] := by decide +kernel
  rw [searched] at told
  cases told
  have first := (List.pairwise_cons.1 sorted).1 _ (List.mem_singleton_self _)
  exact absurd first (by decide)

end Vfs.Memory
