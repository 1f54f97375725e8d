import Vfs.Proofs.Action

/-!
# The class of a path failure and the fault at its bottom

Which class a path failure has is read off its immediate cause, whereas the predicates look at the fault at the
bottom. Two things of a cause are read: the class of faults it belongs to, which three of the classes of path
failures hand on, and its number, which all of them hand on. So the two agree at every depth, but for a missing
capability: it has no number, and the class made for it belongs to no class of faults but the host's, so that the
second wrapping takes it for a failure of no particular class.
-/

namespace Vfs
set_option autoImplicit false

namespace Fault

variable {fault : Fault}

/-- The class of a path failure whose cause is the fault. -/
def pathKind (fault : Fault) : PathKind := fault.error.wrapKind

/-- The class of the fault has no class of path failures of its own. -/
def Common (fault : Fault) : Prop :=
  fault.kind ∉ [.notFound, .notDirectory, .isDirectory, .notImplemented]

/-- How the class of a path failure is found for a fault. -/
inductive Classed (fault : Fault) : Prop where
  | notExist (kind : fault.kind = .notFound) (made : fault.pathKind = .notExist)
  | notDirectory (kind : fault.kind = .notDirectory) (made : fault.pathKind = .notDirectory)
  | isDirectory (kind : fault.kind = .isDirectory) (made : fault.pathKind = .isDirectory)
  | notImplemented (kind : fault.kind = .notImplemented) (made : fault.pathKind = .notImplemented)
  | invalid (common : fault.Common) (number : fault.number = some invalidNumber) (made : fault.pathKind = .invalid)
  | general (common : fault.Common) (number : fault.number ≠ some invalidNumber) (made : fault.pathKind = .general)

theorem classed (fault : Fault) : fault.Classed := by
  by_cases notFound : fault.kind = .notFound
  · exact .notExist notFound (if_pos notFound)
  by_cases notDirectory : fault.kind = .notDirectory
  · exact .notDirectory notDirectory (by simp [pathKind, error, Failure.wrapKind, notDirectory])
  by_cases isDirectory : fault.kind = .isDirectory
  · exact .isDirectory isDirectory (by simp [pathKind, error, Failure.wrapKind, isDirectory])
  by_cases notImplemented : fault.kind = .notImplemented
  · exact .notImplemented notImplemented (by simp [pathKind, error, Failure.wrapKind, notImplemented])
  have common : fault.Common := by simp [Common, notFound, notDirectory, isDirectory, notImplemented]
  have made : fault.pathKind = if fault.number = some invalidNumber then .invalid else .general := by
    simp [pathKind, error, Failure.wrapKind, notFound, notDirectory, isDirectory, notImplemented]
  by_cases number : fault.number = some invalidNumber
  · exact .invalid common number (made.trans (if_pos number))
  · exact .general common number (made.trans (if_neg number))

theorem pathKind_notExist : fault.pathKind = .notExist ↔ fault.kind = .notFound := by
  cases fault.classed <;> simp_all [Common]

theorem pathKind_notImplemented : fault.pathKind = .notImplemented ↔ fault.kind = .notImplemented := by
  cases fault.classed <;> simp_all [Common]

end Fault

namespace Failure

variable {ι : Type} {e : Failure ι}

/-- The number of a path failure is the number of the fault at its bottom. -/
theorem number_eq (e : Failure ι) : e.number = e.root.number := by
  induction e with
  | plain mark fault => rfl
  | path mark operation target cause ih => exact ih

/-- The class that a path failure has if nothing is read of its cause but the number. -/
def numberKind (e : Failure ι) : PathKind := if e.isInvalid then .invalid else .general

theorem numberKind_not_handed (e : Failure ι) : e.numberKind ∉ [.notExist, .notDirectory, .isDirectory] := by
  rw [numberKind]
  split <;> simp

/-- What one more wrapping reads of a path failure: its class, where that is a class of faults as well, and the
number of the fault at the bottom. -/
theorem wrapKind_path (mark : ι) (operation target : Text) (cause : Failure ι) :
    (path mark operation target cause).wrapKind =
      if cause.wrapKind ∈ [.notExist, .notDirectory, .isDirectory] then cause.wrapKind else cause.numberKind := by
  rw [wrapKind, number_eq, numberKind, isInvalid]
  cases cause.wrapKind with
  | notExist | notDirectory | isDirectory => rfl
  | general | invalid | notImplemented => simp

/-- Any number of wrappings: the class of a path failure is the one that the fault at the bottom has at once, unless
that is a missing capability and was wrapped before. -/
theorem wrapKind_eq (e : Failure ι) :
    e.wrapKind = if e.isPath ∧ e.isNotImplemented then e.numberKind else e.root.pathKind := by
  induction e with
  | plain mark fault => rw [if_neg (by simp [isPath])]; rfl
  | path mark operation target cause ih =>
    have wrapped := wrapKind_path mark operation target cause
    rw [ih] at wrapped
    cases cause.root.classed with
    | notImplemented kind made =>
      -- Neither the class of the first wrapping nor that of a later one is handed on.
      have missing : cause.isNotImplemented := by simpa [isNotImplemented] using kind
      rw [if_pos ⟨rfl, missing⟩, wrapped, if_neg]
      · rfl
      · split
        · exact numberKind_not_handed cause
        · simp [made]
    | notExist kind made | notDirectory kind made | isDirectory kind made =>
      simpa [isNotImplemented, root, kind, made] using wrapped
    | invalid common number made | general common number made =>
      simpa [isNotImplemented, root, numberKind, isInvalid, number, made,
        show cause.root.kind ≠ .notImplemented by simp_all [Fault.Common]] using wrapped

/-- How the class of a path failure agrees with what the predicates say of its cause. -/
structure Agrees (e : Failure ι) : Prop where
  /-- Unless a capability is missing, the class is the one that the fault at the bottom has at once. -/
  bottom : e.isNotImplemented = false → e.wrapKind = e.root.pathKind
  notExist : e.wrapKind = .notExist ↔ e.isNotExist
  /-- Only a missing capability that was not wrapped before is told by the class. -/
  notImplemented : e.wrapKind = .notImplemented ↔ e.isNotImplemented ∧ e.isPath = false
  forgotten : e.isNotImplemented → e.isPath → e.wrapKind = e.numberKind
  invalid : e.isInvalid → e.root.Common → e.wrapKind = .invalid

/-- **Class and predicates agree at every depth.** Of every failure, however often it is wrapped, the class says
the same as the predicates, but that a missing capability is forgotten by the second wrapping. -/
theorem class_agrees (e : Failure ι) : e.Agrees := by
  have once (told : ¬ (e.isPath ∧ e.isNotImplemented)) : e.wrapKind = e.root.pathKind := by
    rw [wrapKind_eq, if_neg told]
  have again (forgotten : e.isPath ∧ e.isNotImplemented) : e.wrapKind = e.numberKind := by
    rw [wrapKind_eq, if_pos forgotten]
  have missing : e.isNotImplemented ↔ e.root.kind = .notImplemented := by simp [isNotImplemented]
  constructor
  case bottom =>
    intro implemented
    exact once (by simp [implemented])
  case notExist =>
    rw [isNotExist, decide_eq_true_iff]
    by_cases forgotten : e.isPath ∧ e.isNotImplemented
    · have kind := missing.mp forgotten.2
      rw [again forgotten, kind, numberKind]
      split <;> simp
    · rw [once forgotten, Fault.pathKind_notExist]
  case notImplemented =>
    by_cases forgotten : e.isPath ∧ e.isNotImplemented
    · rw [again forgotten, forgotten.1, numberKind]
      split <;> simp
    · rw [once forgotten, Fault.pathKind_notImplemented, ← missing]
      constructor
      · intro told
        exact ⟨told, by simpa [told] using forgotten⟩
      · exact And.left
  case forgotten =>
    intro told wrapped
    exact again ⟨wrapped, told⟩
  case invalid =>
    intro number common
    have implemented : ¬ e.isNotImplemented := fun told => common (by simp [missing.mp told])
    rw [once fun forgotten => implemented forgotten.2]
    cases e.root.classed with
    | invalid _ _ made => exact made
    | general _ other made => exact absurd (by simpa [isInvalid] using number) other
    | notExist kind | notDirectory kind | isDirectory kind | notImplemented kind => exact absurd (by simp [kind]) common

/-- A missing capability that is wrapped twice: the predicate finds it, and the class says nothing of it, though it
does when the fault is wrapped once, and though every other class outlives the second wrapping. -/
theorem not_class_agrees :
    let inner := Fault.notImplemented.at "Open".text "inner".text
    inner.isNotImplemented = true ∧ inner.root.pathKind = .notImplemented ∧
      inner.wrapKind = .general ∧ ¬ (inner.wrapKind = .notImplemented ↔ inner.isNotImplemented = true) := by
  decide

end Failure

end Vfs
