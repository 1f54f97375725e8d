import Mathlib.Data.List.Perm.Subperm
import Vfs.Proofs.Store.Contents

/-!
# Stores that agree on some keys

Two stores agree on a set of keys when they hold the same under each. What the store selects below a key depends on
the entries there alone, however many foreign keys stand around them in the row (`select_congr`). A change that only
adds or only takes out moves the size of the row one way (`OneWay`), and the entries it takes out are those that are
told of afterwards (`filter_toList`).
-/

namespace Vfs.Store
set_option autoImplicit false

variable {α : Type} {s t : Store α} {inside : Text → Prop} {key k : Text}

/-- Two stores hold the same under some keys. -/
def SameOn (inside : Text → Prop) (s t : Store α) : Prop := ∀ k, inside k → s.get? k = t.get? k

/-- Stores that hold the same have the same row of keys. -/
theorem Sound.keys_eq (sound : s.Sound) (sound' : t.Sound) (same : ∀ k, s.get? k = t.get? k) : s.keys = t.keys := by
  have perm : s.keys.toList.Perm t.keys.toList := by
    refine (List.perm_ext_iff_of_nodup sound.nodup sound'.nodup).2 fun k => ?_
    rw [sound.agree, sound'.agree, same k]
  exact Array.toList_inj.1 (perm.eq_of_pairwise (fun j k _ _ before after => absurd after (List.lt_asymm before))
    (increasing_iff.1 sound.increasing) (increasing_iff.1 sound'.increasing))

/-- What is selected below a key is what stands there, whatever stands elsewhere. -/
theorem select_congr (sound : s.Sound) (sound' : t.Sound) (above : s.get? key = t.get? key)
    (below : ∀ k, Under key k → s.get? k = t.get? k) (test : Text → Bool) : s.select key test = t.select key test := by
  obtain ⟨sorted, members⟩ := select_spec sound key test
  obtain ⟨sorted', members'⟩ := select_spec sound' key test
  have same : (s.select key test).Perm (t.select key test) := by
    refine (List.perm_ext_iff_of_nodup (Text.nodup_of_sorted sorted) (Text.nodup_of_sorted sorted')).2 fun k => ?_
    rw [members, members', above]
    by_cases under : Under key k
    · rw [below k under]
    · simp [under]
  exact same.eq_of_pairwise (fun j k _ _ before after => absurd after (List.lt_asymm before)) sorted sorted'

/-! ## What a change takes out -/

/-- A change that only adds keys, or only takes keys out. -/
def OneWay (s t : Store α) : Prop :=
  (∀ k, (s.get? k).isSome = true → (t.get? k).isSome = true) ∨
    ∀ k, (t.get? k).isSome = true → (s.get? k).isSome = true

/-- A change that only adds keys leaves no fewer. -/
theorem size_le_of_more (sound : s.Sound) (sound' : t.Sound)
    (more : ∀ k, (s.get? k).isSome = true → (t.get? k).isSome = true) : s.keys.size ≤ t.keys.size := by
  have contained : s.keys.toList ⊆ t.keys.toList := fun k member =>
    (sound'.agree k).2 (more k ((sound.agree k).1 member))
  exact (sound.nodup.subperm contained).length_le

/-- A change that takes keys out and leaves their number has taken none. -/
theorem kept_of_size_le (sound : s.Sound) (sound' : t.Sound)
    (fewer : ∀ k, (t.get? k).isSome = true → (s.get? k).isSome = true) (size : s.keys.size ≤ t.keys.size)
    (stored : (s.get? k).isSome = true) : (t.get? k).isSome = true := by
  have contained : t.keys.toList ⊆ s.keys.toList := fun k member =>
    (sound.agree k).2 (fewer k ((sound'.agree k).1 member))
  have perm := (sound'.nodup.subperm contained).perm_of_length_le size
  exact (sound'.agree k).1 (perm.mem_iff.2 ((sound.agree k).2 stored))

/-- The entry under a key that is there no more. -/
def lost (s t : Store α) (k : Text) : List α :=
  match s.get? k, t.get? k with
  | some a, none => [a]
  | _, _ => []

theorem lost_congr {s' t' : Store α} (before : s.get? k = s'.get? k) (after : t.get? k = t'.get? k) :
    lost s t k = lost s' t' k := by
  rw [lost, lost, before, after]

/-- The row of entries has one for a stored key and none for another. -/
theorem filter_toList (sound : s.Sound) (k : Text) :
    s.toList.filter (fun r => r.1 = k) = ((s.get? k).map (k, ·)).toList := by
  have row (ks : List Text) (nodup : ks.Nodup) :
      (ks.filterMap fun j => (s.get? j).map (j, ·)).filter (fun r => r.1 = k) =
        if k ∈ ks then ((s.get? k).map (k, ·)).toList else [] := by
    induction ks with
    | nil => rfl
    | cons j ks ih =>
      obtain ⟨fresh, nodup⟩ := List.nodup_cons.1 nodup
      have rest := ih nodup
      by_cases same : j = k
      · subst same
        rw [if_neg fresh] at rest
        rw [if_pos (List.mem_cons_self ..), List.filterMap_cons]
        cases s.get? j with
        | none => exact rest
        | some a =>
          rw [Option.map_some]
          simpa using rest
      · have first : k ∈ j :: ks ↔ k ∈ ks := by simp [Ne.symm same]
        simp only [first, List.filterMap_cons]
        cases s.get? j with
        | none => exact rest
        | some a =>
          rw [Option.map_some]
          simpa [same] using rest
  rw [toList, row s.keys.toList sound.nodup]
  split
  · rfl
  · next absent => rw [sound.not_mem_iff.1 absent]; rfl

end Vfs.Store
