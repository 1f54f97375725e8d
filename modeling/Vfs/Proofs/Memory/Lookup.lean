import Vfs.Memory.Lookup

/-!
# What a question finds

A question about a name succeeds only on an entry stored under the name's key, and the lemmas say on
which: `locate` on any, `content` on a file, `sub` on a directory.
-/

namespace Vfs.Memory
set_option autoImplicit false

variable {root name dir k : Text} {s : Store Entry} {e : Entry}

/-- A directory is stored under the key. -/
def IsDirectory (s : Store Entry) (k : Text) : Prop := ∃ e, s.get? k = some e ∧ e.directory = true

theorem isDirectory_iff : IsDirectory s k ↔ (s.get? k).map (·.directory) = some true :=
  Option.map_eq_some_iff.symm

instance : Decidable (IsDirectory s k) := decidable_of_iff _ isDirectory_iff.symm

theorem locate_eq_ok :
    locate root s name = .ok (k, e) ↔
      Path.isValid name = true ∧ key root name = k ∧ s.get? (key root name) = some e := by
  unfold locate
  split
  · next valid =>
    cases found : s.get? (key root name) with
    | none => simp
    | some there => simp [valid]
  · next invalid => simp [invalid]

theorem content_eq_ok {data : Bytes} :
    content root s name = .ok data ↔
      ∃ e, locate root s name = .ok (key root name, e) ∧ e.directory = false ∧ e.data = data := by
  unfold content
  cases found : locate root s name with
  | error fault => simp
  | ok there =>
    obtain ⟨k, e⟩ := there
    obtain ⟨-, rfl, -⟩ := locate_eq_ok.1 found
    cases kind : e.directory with
    | true => simp [kind]
    | false => simp [kind]

theorem sub_eq_ok :
    sub root s dir = .ok k ↔ Path.isValid dir = true ∧ key root dir = k ∧ IsDirectory s k := by
  unfold sub
  by_cases valid : Path.isValid dir = true
  · rw [if_pos valid, locate, if_pos valid]
    cases found : s.get? (key root dir) with
    | none =>
      constructor
      · intro h
        cases h
      · rintro ⟨-, rfl, e, stored, -⟩
        rw [found] at stored
        cases stored
    | some e =>
      constructor
      · intro h
        cases kind : e.directory with
        | true =>
          simp only [kind, if_true, Except.ok.injEq] at h
          exact ⟨valid, h, e, h ▸ found, kind⟩
        | false => simp [kind] at h
      · rintro ⟨-, rfl, e', stored, kind⟩
        obtain rfl : e = e' := Option.some.inj (found.symm.trans stored)
        simp [kind]
  · simp [valid]

end Vfs.Memory
