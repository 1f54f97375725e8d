import Mathlib.Data.List.Nodup
import Vfs.Proofs.Store.Row

/-!
# What a store holds

A store is `Sound` when its row of keys is increasing and names just the keys of its map. Every
operation keeps a store sound, and on sound stores it changes look-ups as the same operation on a
plain map would (`get?_put`, `get?_remove`, `get?_removeAll`).
-/

namespace Vfs.Assoc
set_option autoImplicit false

variable {κ α β : Type} [BEq κ]

theorem foldl_erase_sublist (code : β → κ) (gone : List β) (m : Assoc κ α) :
    (gone.foldl (fun m j => m.erase (code j)) m).pairs.Sublist m.pairs := by
  induction gone generalizing m with
  | nil => exact List.Sublist.refl _
  | cons j gone ih => exact (ih _).trans List.filter_sublist

variable [LawfulBEq κ]

theorem isSome_get?_iff {m : Assoc κ α} {k : κ} : (m.get? k).isSome ↔ k ∈ m.pairs.map (·.1) := by
  unfold get?
  induction m.pairs with
  | nil => simp [lookup]
  | cons p rest ih =>
    obtain ⟨j, a⟩ := p
    by_cases same : j = k
    · simp [lookup, same]
    · simp only [lookup, beq_iff_eq, same, if_false, List.map_cons, List.mem_cons, ih]
      exact ⟨Or.inr, fun h => h.resolve_left (Ne.symm same)⟩

theorem nodup_insert {m : Assoc κ α} (distinct : (m.pairs.map (·.1)).Nodup) (k : κ) (a : α) :
    ((m.insert k a).pairs.map (·.1)).Nodup := by
  refine List.nodup_cons.2 ⟨?_, distinct.sublist (List.filter_sublist.map _)⟩
  rw [← isSome_get?_iff, get?_erase]
  simp

theorem get?_foldl_erase {code : β → κ} (inj : ∀ i j, code i = code j → i = j) (gone : List β)
    (m : Assoc κ α) (k : β) :
    (k ∈ gone → (gone.foldl (fun m j => m.erase (code j)) m).get? (code k) = none) ∧
      (k ∉ gone → (gone.foldl (fun m j => m.erase (code j)) m).get? (code k) = m.get? (code k)) := by
  induction gone generalizing m with
  | nil => simp
  | cons j gone ih =>
    obtain ⟨without, kept⟩ := ih (m.erase (code j))
    simp only [List.foldl_cons, List.mem_cons]
    by_cases later : k ∈ gone
    · exact ⟨fun _ => without later, fun h => absurd (Or.inr later) h⟩
    · rw [kept later, get?_erase]
      refine ⟨fun h => ?_, fun h => ?_⟩
      · simp [h.resolve_right later]
      · have apart : (code k == code j) = false := by simpa using fun same => h (Or.inl (inj k j same))
        simp [apart]

end Vfs.Assoc

namespace Vfs.Store
set_option autoImplicit false

variable {α : Type} {s : Store α}

/-- The row is increasing, and the map holds a value just under the keys of the row. -/
structure Sound (s : Store α) : Prop where
  increasing : Increasing s.keys
  distinct : (s.values.pairs.map (·.1)).Nodup
  stamps : ∀ p ∈ s.values.pairs, stamped p.1.2 = p.1
  agree : ∀ k, k ∈ s.keys.toList ↔ (s.get? k).isSome

theorem Sound.not_mem_iff (sound : s.Sound) {k : Text} : k ∉ s.keys.toList ↔ s.get? k = none := by
  rw [sound.agree, Option.not_isSome_iff_eq_none]

theorem Sound.nodup (sound : s.Sound) : s.keys.toList.Nodup := Text.nodup_of_sorted (increasing_iff.1 sound.increasing)

/-- The map holds the keys of the row, each one once and no others. -/
theorem Sound.perm (sound : s.Sound) :
    (s.values.pairs.map (·.1)).Perm (s.keys.toList.map stamped) := by
  refine (List.perm_ext_iff_of_nodup sound.distinct ?_).2 fun j => ⟨fun h => ?_, fun h => ?_⟩
  · exact sound.nodup.map fun _ _ h => stamped_inj.1 h
  · obtain ⟨p, hp, rfl⟩ := List.mem_map.1 h
    refine List.mem_map.2 ⟨p.1.2, ?_, sound.stamps p hp⟩
    rw [sound.agree, Store.get?, sound.stamps p hp, Assoc.isSome_get?_iff]
    exact h
  · obtain ⟨k, hk, rfl⟩ := List.mem_map.1 h
    exact Assoc.isSome_get?_iff.1 ((sound.agree k).1 hk)

theorem sound_empty : (empty : Store α).Sound where
  increasing := fun _ _ hj => absurd hj (Nat.not_lt_zero _)
  distinct := List.nodup_nil
  stamps := fun _ h => absurd h List.not_mem_nil
  agree := fun k => by simp [empty, Store.get?, Assoc.get?, Assoc.lookup]

theorem contains_iff {key : Text} : s.contains key = true ↔ (s.get? key).isSome := Iff.rfl

theorem get?_put (s : Store α) (key : Text) (a : α) (k : Text) :
    (s.put key a).get? k = if k = key then some a else s.get? k := by
  rw [Store.get?, put, Assoc.get?_insert]
  by_cases same : k = key
  · simp [same]
  · have apart : (stamped key == stamped k) = false := by
      simpa [stamped_inj] using fun h : key = k => same h.symm
    simp [same, apart, Store.get?]

theorem Sound.put (sound : s.Sound) (key : Text) (a : α) : (s.put key a).Sound where
  increasing := by
    simp only [Store.put]
    split
    · exact sound.increasing
    · next absent => exact increasing_insertIdx sound.increasing (by rwa [sound.agree, ← contains_iff])
  distinct := Assoc.nodup_insert sound.distinct _ _
  stamps := by
    intro p hp
    rcases List.mem_cons.1 hp with rfl | hp
    · rfl
    · exact sound.stamps p (List.mem_of_mem_filter hp)
  agree := by
    intro k
    have row : k ∈ (s.put key a).keys.toList ↔ k = key ∨ k ∈ s.keys.toList := by
      simp only [Store.put]
      split
      · next present =>
        have member := (sound.agree key).2 (contains_iff.1 present)
        exact ⟨Or.inr, fun h => h.elim (fun same => same ▸ member) id⟩
      · rw [insertIdx_lowerBound, List.mem_append, List.mem_cons, or_left_comm, ← List.mem_append,
          List.take_append_drop]
    rw [row, get?_put, sound.agree]
    by_cases same : k = key
    · simp [same]
    · simp [same]

/-- A part of a sound store is sound: its row is the keys with a property, and its map is the map on
them. -/
theorem Sound.part (sound : s.Sound) {t : Store α} {p : Text → Prop} [DecidablePred p]
    (row : t.keys.toList = s.keys.toList.filter fun k => p k)
    (map : t.values.pairs.Sublist s.values.pairs)
    (look : ∀ k, t.get? k = if p k then s.get? k else none) : t.Sound where
  increasing := by
    rw [increasing_iff, row]
    exact (increasing_iff.1 sound.increasing).sublist List.filter_sublist
  distinct := sound.distinct.sublist (map.map _)
  stamps := fun q hq => sound.stamps q (map.mem hq)
  agree := by
    intro k
    rw [row, List.mem_filter, decide_eq_true_iff, sound.agree, look]
    by_cases holds : p k
    · simp [holds]
    · simp [holds]

theorem get?_remove (sound : s.Sound) (key k : Text) :
    (s.remove key).get? k = if k = key then none else s.get? k := by
  simp only [remove, take]
  split
  · next missing =>
    have absent := (index?_eq_none_iff sound.increasing).1 missing
    split
    · next same => rw [same]; exact sound.not_mem_iff.1 absent
    · rfl
  · simp only [Store.get?, Assoc.get?_erase, beq_iff_eq, stamped_inj]

theorem keys_remove (sound : s.Sound) (key : Text) :
    (s.remove key).keys.toList = s.keys.toList.filter fun k => k ≠ key := by
  simp only [remove, take]
  split
  · next missing =>
    have absent := (index?_eq_none_iff sound.increasing).1 missing
    refine (List.filter_eq_self.2 fun k hk => ?_).symm
    exact decide_eq_true fun same => absent (same ▸ hk)
  · next i found =>
    obtain ⟨member, rfl⟩ := (index?_eq_some_iff sound.increasing).1 found
    exact eraseIdx_lowerBound sound.increasing member

theorem values_remove_sublist (s : Store α) (key : Text) :
    (s.remove key).values.pairs.Sublist s.values.pairs := by
  simp only [remove, take]
  split
  · exact List.Sublist.refl _
  · exact List.filter_sublist

theorem Sound.remove (sound : s.Sound) (key : Text) : (s.remove key).Sound := by
  refine sound.part (keys_remove sound key) (values_remove_sublist s key) fun k => ?_
  rw [get?_remove sound, ite_not]

/-- Taking a key out answers what stood under it. -/
theorem fst_take (sound : s.Sound) (key : Text) : (s.take key).1 = s.get? key := by
  simp only [take]
  split
  · next missing =>
    exact (sound.not_mem_iff.1 ((index?_eq_none_iff sound.increasing).1 missing)).symm
  · rfl

theorem get?_removeAll (sound : s.Sound) (key k : Text) :
    (s.removeAll key).get? k = if k = key ∨ Under key k then none else s.get? k := by
  have rest := sound.remove key
  have inside : k ∈ keysBelow (s.remove key).keys key ↔ (s.remove key).get? k ≠ none ∧ Under key k := by
    rw [keysBelow_eq_filter rest.increasing, List.mem_filter, decide_eq_true_iff, rest.agree,
      Option.isSome_iff_ne_none]
  obtain ⟨without, kept⟩ := Assoc.get?_foldl_erase (fun _ _ => stamped_inj.1)
    (keysBelow (s.remove key).keys key) (s.remove key).values k
  have left : k ∉ keysBelow (s.remove key).keys key → (s.removeAll key).get? k = (s.remove key).get? k := kept
  by_cases member : k ∈ keysBelow (s.remove key).keys key
  · rw [if_pos (Or.inr (inside.1 member).2)]
    exact without member
  · rw [left member, get?_remove sound]
    rw [inside, get?_remove sound] at member
    by_cases same : k = key
    · simp [same]
    · by_cases under : Under key k
      · simp only [same, if_false, under, and_true, not_not] at member
        simp [member]
      · simp [same, under]

theorem Sound.removeAll (sound : s.Sound) (key : Text) : (s.removeAll key).Sound := by
  have rest := sound.remove key
  have row : (s.removeAll key).keys.toList = s.keys.toList.filter fun k => ¬(k = key ∨ Under key k) := by
    refine (cut_eq_filter rest.increasing key).trans ?_
    rw [keys_remove sound, List.filter_filter]
    congr 1
    funext k
    by_cases same : k = key
    · simp [same]
    · simp [same]
  have map : (s.removeAll key).values.pairs.Sublist s.values.pairs :=
    (Assoc.foldl_erase_sublist stamped _ _).trans (values_remove_sublist s key)
  refine sound.part row map fun k => ?_
  rw [get?_removeAll sound, ite_not]

/-- The keys that a listing selects, in order: those under a stored key whose remainder passes. -/
theorem select_eq_filter (sound : s.Sound) (key : Text) (test : Text → Bool) :
    s.select key test =
      if (s.get? key).isSome then
        s.keys.toList.filter fun k => Under key k ∧ test (k.drop (branch key).length)
      else [] := by
  simp only [select]
  split
  · next missing =>
    have absent := sound.not_mem_iff.1 ((index?_eq_none_iff sound.increasing).1 missing)
    simp [absent]
  · next i found =>
    have stored := (sound.agree key).1 ((index?_eq_some_iff sound.increasing).1 found).1
    rw [if_pos stored, keysBelow_eq_filter sound.increasing, List.filter_filter]
    congr 1
    funext k
    simp [Bool.and_comm]

/-- What a listing selects: an increasing row of just the stored keys under the key that pass. -/
theorem select_spec (sound : s.Sound) (key : Text) (test : Text → Bool) :
    (s.select key test).Pairwise (· < ·) ∧
      ∀ k, k ∈ s.select key test ↔ (s.get? key).isSome ∧ (s.get? k).isSome ∧ Under key k ∧
        test (k.drop (branch key).length) := by
  rw [select_eq_filter sound]
  split
  · next stored =>
    refine ⟨(increasing_iff.1 sound.increasing).sublist List.filter_sublist, fun k => ?_⟩
    rw [List.mem_filter, decide_eq_true_iff, sound.agree]
    simp [stored]
  · next missing =>
    refine ⟨List.Pairwise.nil, fun k => ?_⟩
    simp [missing]

end Vfs.Store
