import Vfs.Host.Stream

/-!
# What a stream that writes has taken

What a stream takes is in its file or pending, as the size of a block has it. Pieces that are written one behind the
other are written as a whole (`overwrite_overwrite`), so where the line is drawn between the two does not matter:
what the stream took by then (`Took`) is in the file when it is closed (`Took.close`).
-/

namespace Vfs.Host
set_option autoImplicit false

variable {t t₀ : Tree} {st : Stream} {n m : Nat} {data : Bytes}

namespace Tree

/-- What is written to the beginning has the rest of the old content behind it. -/
theorem patch_zero (content data : Bytes) : patch content 0 data = data ++ content.drop data.length := by
  unfold patch
  split
  · next empty =>
    rw [empty]
    rfl
  · rw [List.take_zero, Nat.zero_sub, List.replicate_zero, List.nil_append, List.nil_append, Nat.zero_add]

/-- What is written behind what was written to the beginning is written as one piece with it. -/
theorem patch_patch (content front data : Bytes) :
    patch (patch content 0 front) front.length data = patch content 0 (front ++ data) := by
  by_cases empty : data = []
  · rw [empty, List.append_nil, patch, if_pos rfl]
  · have whole : front.length - (front ++ content.drop front.length).length = 0 := by
      rw [List.length_append]
      omega
    rw [patch_zero, patch_zero, patch, if_neg empty, whole, List.take_left, List.replicate_zero, List.append_nil,
      List.drop_append, List.drop_eq_nil_of_le (Nat.le_add_right ..), Nat.add_sub_cancel_left, List.nil_append,
      List.drop_drop, List.length_append]

theorem content_overwrite (there : n < t.contents.size) (data : Bytes) :
    (t.overwrite n 0 data).content n = data ++ (t.content n).drop data.length := by
  rw [← patch_zero]
  simp [overwrite, content, there]

theorem content_overwrite_of_ne (other : m ≠ n) (data : Bytes) : (t.overwrite n 0 data).content m = t.content m := by
  simp [overwrite, content, Ne.symm other]

theorem size_overwrite (t : Tree) (n : Nat) (data : Bytes) :
    (t.overwrite n 0 data).contents.size = t.contents.size := by
  simp [overwrite]

/-- Writing nothing changes nothing. -/
theorem overwrite_nil (t : Tree) (n : Nat) : t.overwrite n 0 [] = t := by
  have same : t.contents.setIfInBounds n (t.content n) = t.contents := by
    by_cases there : n < t.contents.size
    · have found : t.content n = t.contents[n] := by simp [content, there]
      rw [found, Array.setIfInBounds, dif_pos there, Array.set_getElem_self]
    · rw [Array.setIfInBounds_eq_of_size_le (Nat.le_of_not_lt there)]
  rw [overwrite, patch, if_pos rfl, same]

/-- Two pieces that are written one behind the other are written as a whole. -/
theorem overwrite_overwrite (t : Tree) (n : Nat) (front data : Bytes) :
    (t.overwrite n 0 front).overwrite n front.length data = t.overwrite n 0 (front ++ data) := by
  by_cases there : n < t.contents.size
  · have written : (t.overwrite n 0 front).content n = patch (t.content n) 0 front := by
      simp [overwrite, content, there]
    rw [overwrite, written, patch_patch]
    simp [overwrite]
  · have outside : t.contents.size ≤ n := Nat.le_of_not_lt there
    simp [overwrite, Array.setIfInBounds_eq_of_size_le outside]

end Tree

namespace Stream

/-- A stream has taken some bytes since its file was opened in the tree `t₀`: the first of them are in the file, the
others pending, not more than a block. -/
def Took (t₀ : Tree) (n : Nat) (data : Bytes) (t : Tree) (st : Stream) : Prop :=
  ∃ front pending, data = front ++ pending ∧ pending.length ≤ blockSize ∧ t = t₀.overwrite n 0 front ∧
    st = .writing n front.length pending false

theorem took_writer (t : Tree) (n : Nat) : Took t n [] t (.writer n) :=
  ⟨[], [], rfl, Nat.zero_le _, (t.overwrite_nil n).symm, rfl⟩

/-- A stream takes all it is given. -/
theorem Took.write (took : Took t₀ n data t st) (more : Bytes) :
    ∃ t' st', st.write t more = (.ok more.length, t', st') ∧ Took t₀ n (data ++ more) t' st' := by
  obtain ⟨front, pending, rfl, -, rfl, rfl⟩ := took
  have answered : (Stream.writing n front.length pending false).write (t₀.overwrite n 0 front) more =
      (.ok more.length, give (t₀.overwrite n 0 front) n front.length pending more) := rfl
  have size : front.length + pending.length = (front ++ pending).length := List.length_append.symm
  rw [answered, give]
  dsimp only
  rw [size, Tree.overwrite_overwrite]
  split
  · next room => exact ⟨_, _, rfl, front, pending ++ more, List.append_assoc .., by rwa [List.length_append], rfl, rfl⟩
  · split
    · next room => exact ⟨_, _, rfl, front ++ pending, more, rfl, room, rfl, rfl⟩
    · rw [Tree.overwrite_overwrite, ← List.length_append]
      exact ⟨_, _, rfl, front ++ pending ++ more, [], (List.append_nil _).symm, Nat.zero_le _, rfl, rfl⟩

/-- **What a stream took is in its file when it is closed.** -/
theorem Took.close (took : Took t₀ n data t st) : (st.close t).1 = t₀.overwrite n 0 data := by
  obtain ⟨front, pending, rfl, -, rfl, rfl⟩ := took
  exact Tree.overwrite_overwrite t₀ n front pending

end Stream

end Vfs.Host
