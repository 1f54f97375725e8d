import Vfs.Proofs.Path.Names
import Vfs.Proofs.Text.Encoding

/-!
# Paths told to a host

A host cuts the bytes of a path at its slashes, and a slash is no part of another character. So the path is read as its
elements are, and is handed back as it is only if each of them is (`kept_of_mem_elements`).
-/

namespace Vfs.Path
set_option autoImplicit false

variable {p e : Text}

/-- A path is read element by element. -/
theorem decode_joined (es : List Text) :
    Text.decode (Text.bytes (joined es)) = joined (es.map fun e => Text.decode e.bytes) := by
  induction es with
  | nil => rfl
  | cons e es ih =>
    by_cases last : es = []
    · rw [last]
      rfl
    · have slash : Text.bytes (joined (e :: es)) = e.bytes ++ 0x2f :: Text.bytes (joined es) := by
        rw [joined_cons_of_ne_nil e last, Text.bytes_append, Text.bytes_cons]
        rfl
      have behind : Text.decode (0x2f :: Text.bytes (joined es)) = .char '/' :: Text.decode (Text.bytes (joined es)) :=
        Text.decode_append '/' _
      rw [slash, Text.decode_append_cons (by decide), behind, ih, List.map_cons,
        joined_cons_of_ne_nil _ (by simpa using last)]

/-- The elements of a path are handed back as they are if the path is. -/
theorem kept_of_mem_elements (kept : p.Kept) (member : e ∈ elements p) : e.Kept := by
  have each (e : Text) (member : e ∈ elements p) : e.isEncodable = true := by
    rw [Text.isEncodable, List.all_eq_true]
    intro c inside
    have there := mem_joined member inside
    rw [joined_elements] at there
    exact List.all_eq_true.1 kept.1 c there
  have back : (elements p).map (fun e => Text.decode e.bytes) = elements p := by
    have whole := (decode_joined (elements p)).symm
    rw [joined_elements, ← Text.received_eq kept.1, kept.2] at whole
    refine (elements_joined (by simpa using elements_ne_nil p) ?_).symm.trans (congrArg elements whole)
    intro d there
    obtain ⟨e, member, rfl⟩ := List.mem_map.1 there
    rw [← Text.received_eq (each e member), Text.mem_received_iff (b := 0x2f) rfl (by decide)]
    exact no_slash_of_mem_elements member
  refine ⟨each e member, (Text.received_eq (each e member)).trans ?_⟩
  exact List.map_inj_left.1 (back.trans (List.map_id _).symm) e member

end Vfs.Path
