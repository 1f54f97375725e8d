import Vfs.World

/-!
# Running an action

What an action made of others answers, and the world it leaves. Two results agree that succeed with the same or fail
alike (`Agree`).
-/

namespace Vfs
set_option autoImplicit false

/-- A failure of an operation on a path. -/
def Failure.isPath {ι : Type} : Failure ι → Bool
  | .plain _ _ => false
  | .path _ _ _ _ => true

/-- A path failure counts as an error of the host. -/
theorem Failure.isSystem_path {ι : Type} (mark : ι) (operation target : Text) (cause : Failure ι) :
    (Failure.path mark operation target cause).isSystem = true := by
  rw [Failure.isSystem, Failure.kind]
  cases cause.wrapKind with
  | _ => rfl

theorem Fault.isSystem_at (fault : Fault) (operation target : Text) : (fault.at operation target).isSystem = true :=
  Failure.isSystem_path () operation target fault.error

/-- The operation that a path failure tells. -/
def Failure.operation? {ι : Type} : Failure ι → Option Text
  | .plain _ _ => none
  | .path _ operation _ _ => some operation

/-- Two errors of the same class, in the same operation if one is told. -/
structure Failure.Alike (e f : Error) : Prop where
  name : e.name = f.name
  operation : e.operation? = f.operation?

theorem Failure.Alike.refl (e : Error) : e.Alike e := ⟨rfl, rfl⟩

/-- A fault at two targets. -/
theorem Failure.alike_at (fault : Fault) (operation target target' : Text) :
    (fault.at operation target).Alike (fault.at operation target') := ⟨rfl, rfl⟩

/-- Two results that succeed with the same, or fail alike. -/
inductive Agree {α : Type} (same : α → α → Prop) : Except Error α → Except Error α → Prop where
  | ok {a b : α} : same a b → Agree same (.ok a) (.ok b)
  | error {e f : Error} : e.Alike f → Agree same (.error e) (.error f)

theorem Agree.map {α β : Type} {same : α → α → Prop} {same' : β → β → Prop} {r r' : Except Error α}
    (agree : Agree same r r') {f g : α → β} (maps : ∀ a b, same a b → same' (f a) (g b)) :
    Agree same' (r.map f) (r'.map g) := by
  cases agree with
  | ok h => exact .ok (maps _ _ h)
  | error h => exact .error h

namespace Action

variable {α β : Type}

theorem bind_eq (action : Action α) (next : α → Action β) (w : World) :
    (action >>= next) w = match action w with
      | (.ok a, w') => next a w'
      | (.error e, w') => (.error e, w') := by
  show (ExceptT.bindCont next (action w).1) (action w).2 = _
  rcases action w with ⟨r, w'⟩
  cases r with
  | ok a => rfl
  | error e => rfl

/-- Putting an answer in other words. -/
theorem bind_pure_eq (action : Action α) (f : α → β) (w : World) :
    (action >>= fun a => pure (f a)) w = ((action w).1.map f, (action w).2) := by
  rw [bind_eq]
  rcases action w with ⟨r, w'⟩
  cases r with
  | ok a => rfl
  | error e => rfl

theorem map_eq (f : α → β) (action : Action α) (w : World) :
    (f <$> action) w = ((action w).1.map f, (action w).2) :=
  bind_pure_eq action f w

theorem retell_eq (action : Action α) (tell : Error → Error) (w : World) :
    action.retell tell w = ((action w).1.mapError fun e => if e.isSystem then tell e else e, (action w).2) := by
  rw [retell, rescue]
  rcases action w with ⟨r, w'⟩
  cases r with
  | ok a => rfl
  | error e =>
    dsimp only [Except.mapError]
    split
    · rfl
    · rfl

theorem retell_eq_ok {action : Action α} {tell : Error → Error} {a : α} {w w' : World} :
    action.retell tell w = (.ok a, w') ↔ action w = (.ok a, w') := by
  rw [retell_eq]
  rcases action w with ⟨r, w₁⟩
  cases r with
  | ok b => rfl
  | error e => exact iff_of_false (fun same => by cases same) fun same => by cases same

theorem ensuring_eq (body : Action α) (last : Action Unit) (w : World) :
    body.ensuring last w = ((last (body w).2).1.bind fun _ => (body w).1, (last (body w).2).2) := by
  rw [ensuring]
  rcases body w with ⟨r, w'⟩
  dsimp only
  rcases last w' with ⟨r', w''⟩
  cases r' with
  | ok a => rfl
  | error e => rfl

end Action

end Vfs
