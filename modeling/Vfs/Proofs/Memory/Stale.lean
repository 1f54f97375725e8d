import Vfs.Proofs.Memory.Tree

/-!
# Views whose root is gone

A view knows the key of its root and nothing above it. When a call makes entries through a view whose root
was taken out, it makes the root again, but not the directories that led there. Such a root is the only kind
of entry that a session without single removals leaves without its directory (`linkedBut_revived`): what hangs
below it hangs together, and the tree of a session in which no root is made again is whole.
-/

namespace Vfs.Memory
set_option autoImplicit false
open Vfs.Path Session

theorem after_snoc (s : Session) (calls : List Call) (c : Call) :
    s.after (calls ++ [c]) = ((s.after calls).perform c).2 := by
  rw [Session.after, List.foldl_append]
  rfl

/-- Whatever is called, the store stays sound and its entries stay labelled. -/
theorem labelled_after (calls : List Call) :
    (start.after calls).Wired ∧ (start.after calls).store.Sound ∧ Labelled (start.after calls).store := by
  induction calls using List.reverseRecOn with
  | nil => exact ⟨wired_start, sound_start, tree_start.labelled⟩
  | append_singleton calls c ih =>
    obtain ⟨wired, sound, labelled⟩ := ih
    rw [after_snoc]
    refine ⟨wired.perform c, sound_perform wired sound c, ?_⟩
    rw [store_perform wired]
    exact labelled_effect wired sound labelled c

/-- One of some calls on a new filesystem makes `k` again, the root of its view. -/
def Revived (calls : List Call) (k : Text) : Prop :=
  ∃ before c rest, calls = before ++ c :: rest ∧ c.Revives (start.after before) k

theorem Revived.snoc {calls : List Call} {k : Text} (revived : Revived calls k) (c : Call) :
    Revived (calls ++ [c]) k := by
  obtain ⟨before, c', rest, rfl, revives⟩ := revived
  exact ⟨before, c', rest ++ [c], by simp, revives⟩

/-- **Only a root made again stands without its directory**, as long as no entry is taken out alone. -/
theorem linkedBut_revived {calls : List Call} (whole : ∀ c ∈ calls, ∀ v name, c ≠ .on v (.remove name)) :
    LinkedBut (Revived calls) (start.after calls).store := by
  induction calls using List.reverseRecOn with
  | nil =>
    have linked := linked_iff.1 tree_start.linked
    exact fun k e stored proper => (linked k e stored proper).imp_right False.elim
  | append_singleton calls c ih =>
    obtain ⟨wired, sound, labelled⟩ := labelled_after calls
    have linked := ih fun c' member => whole c' (List.mem_append_left _ member)
    have last := whole c (List.mem_append_right _ (List.mem_singleton_self c))
    have step : LinkedBut (fun k => Revived calls k ∨ c.Revives (start.after calls) k)
        (c.effect (start.after calls)) :=
      linkedBut_effect wired sound labelled linked fun v name same => absurd same (last v name)
    rw [after_snoc, store_perform wired]
    intro k e stored proper
    refine (step k e stored proper).imp_right ?_
    rintro (before | revives)
    · exact before.snoc c
    · exact ⟨calls, c, [], rfl, revives⟩

/-- The calls of a session that takes a directory out under a view of it, and then writes through the view. -/
def staleWrite : List Call :=
  [.on 0 (.mkdirAll "a/b".text 0o777), .on 0 (.sub "a/b".text), .on 0 (.removeAll "a".text),
    .on 1 (.mkdirAll "x".text 0o777)]

theorem linkedBut_staleWrite :
    (∀ c ∈ staleWrite, ∀ v name, c ≠ .on v (.remove name)) ∧
      LinkedBut (Revived staleWrite) (start.after staleWrite).store := by
  have whole : ∀ c ∈ staleWrite, ∀ v name, c ≠ .on v (.remove name) := by simp [staleWrite]
  exact ⟨whole, linkedBut_revived whole⟩

/-- The root of the view is made again, and the directory above it is not. -/
theorem not_linked_staleWrite :
    ¬∀ calls : List Call, (∀ c ∈ calls, ∀ v name, c ≠ .on v (.remove name)) →
      Linked (start.after calls).store := by
  intro linked
  have whole : ∀ c ∈ staleWrite, ∀ v name, c ≠ .on v (.remove name) := by simp [staleWrite]
  have there : ((start.after staleWrite).store.get? "/a/b".text).isSome = true := by decide +kernel
  obtain ⟨e, stored⟩ := Option.isSome_iff_exists.1 there
  have up := linked staleWrite whole _ e stored (by decide)
  revert up
  decide +kernel

end Vfs.Memory
