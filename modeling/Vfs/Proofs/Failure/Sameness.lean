import Vfs.Failure.Identity
import Vfs.Proofs.Action

/-!
# Equal failures and what they are hashed by

Equality goes down the causes of two path failures to the faults at their bottom, each of which is equal only to
itself, so that it compares outlines: the operations and paths on the way down, and the mark at its end. The key a
failure is hashed by goes one step down and holds the mark it finds there. So equal failures have equal keys where
their causes are faults, or are one and the same path failure; failures that are built apart from each other over
path failures can be equal and have different keys.
-/

namespace Vfs
set_option autoImplicit false

namespace Failure

variable {ι : Type} {e f g : Failure ι}

/-- The operations and paths of a failure, outermost first, and the mark of the fault at its bottom. -/
def outline : Failure ι → List (Text × Text) × ι
  | .plain mark _ => ([], mark)
  | .path _ operation target cause => ((operation, target) :: cause.outline.1, cause.outline.2)

/-- The mark of the cause of a path failure. -/
def causeMark : Failure ι → Option ι
  | .plain _ _ => none
  | .path _ _ _ cause => some cause.identity

/-- A path failure whose cause is a path failure too. -/
def isNested : Failure ι → Bool
  | .plain _ _ => false
  | .path _ _ _ cause => cause.isPath

/-- A key tells which failure the cause is. -/
theorem causeMark_of_hashKey (keys : e.hashKey = f.hashKey) : e.causeMark = f.causeMark := by
  cases e with
  | plain mark fault =>
    cases f with
    | plain mark' fault' => rfl
    | path => simp [hashKey] at keys
  | path mark operation target cause =>
    cases f with
    | plain => simp [hashKey] at keys
    | path mark' operation' target' cause' => exact congrArg some (congrArg Prod.snd keys)

variable [DecidableEq ι]

/-- Failures are equal just if their outlines are. -/
theorem same_iff : e.same f ↔ e.outline = f.outline := by
  induction e generalizing f with
  | plain mark fault =>
    cases f with
    | plain mark' fault' => simp [same, outline]
    | path mark' operation' target' cause' => simp [same, outline]
  | path mark operation target cause ih =>
    cases f with
    | plain mark' fault' => simp [same, outline]
    | path mark' operation' target' cause' =>
      rw [same, Bool.and_eq_true, ih]
      simp [outline, Prod.ext_iff, and_assoc]

theorem same_equivalence : Equivalence fun e f : Failure ι => e.same f = true where
  refl _ := same_iff.mpr rfl
  symm alike := same_iff.mpr (same_iff.mp alike).symm
  trans first second := same_iff.mpr ((same_iff.mp first).trans (same_iff.mp second))

/-- The keys of equal failures differ in nothing but the marks of the causes. -/
theorem hashKey_eq_iff (alike : e.same f) : e.hashKey = f.hashKey ↔ e.causeMark = f.causeMark := by
  refine ⟨causeMark_of_hashKey, fun causes => ?_⟩
  cases e with
  | plain mark fault =>
    cases f with
    | plain mark' fault' => simpa [hashKey, same] using alike
    | path => simp [same] at alike
  | path mark operation target cause =>
    cases f with
    | plain => simp [same] at alike
    | path mark' operation' target' cause' =>
      obtain ⟨⟨rfl, rfl⟩, -⟩ : (operation = operation' ∧ target = target') ∧ cause.same cause' := by
        simpa [same] using alike
      exact congrArg (Prod.mk _) (Option.some.inj causes)

/-- The cause of a path failure that is not nested is a fault, which is equal only to itself. -/
theorem causeMark_of_same (alike : e.same f) (flat : e.isNested = false) : e.causeMark = f.causeMark := by
  cases e with
  | plain mark fault =>
    cases f with
    | plain => rfl
    | path => simp [same] at alike
  | path mark operation target cause =>
    cases f with
    | plain => simp [same] at alike
    | path mark' operation' target' cause' =>
      have causes : cause.same cause' := by simp_all [same]
      cases cause with
      | path => simp [isNested, isPath] at flat
      | plain bottom fault =>
        cases cause' with
        | path => simp [same] at causes
        | plain bottom' fault' => simpa [same, causeMark, identity] using causes

end Failure

namespace Plan

open Failure

variable {plan : Plan} {n k : Nat}

/-- The operations and paths of the planned failure, outermost first. -/
def wrappings : Plan → List (Text × Text)
  | .sentinel _ | .fault _ => []
  | .path operation target cause => (operation, target) :: cause.wrappings

/-- The mark of the fault at the bottom; it is the first thing that is built. -/
def bottom (n : Nat) : Plan → Mark
  | .sentinel s => .sentinel s
  | .fault _ => .built n
  | .path _ _ cause => cause.bottom n

/-- The fault at the bottom is one that the library shares. -/
def isShared : Plan → Bool
  | .sentinel _ => true
  | .fault _ => false
  | .path _ _ cause => cause.isShared

theorem outline_build (plan : Plan) (n : Nat) : (plan.build n).1.outline = (plan.wrappings, plan.bottom n) := by
  induction plan with
  | sentinel s => rfl
  | fault f => rfl
  | path operation target cause ih => rw [build, outline, ih, wrappings, bottom]

/-- What is not shared is another fault each time that it is built. -/
theorem bottom_eq_iff (later : (plan.build n).2 ≤ k) : plan.bottom n = plan.bottom k ↔ plan.isShared := by
  induction plan with
  | sentinel s => simp [bottom, isShared]
  | fault f => simpa [bottom, isShared] using Nat.ne_of_lt later
  | path operation target cause ih => exact ih (Nat.le_of_succ_le later)

theorem same_build (later : (plan.build n).2 ≤ k) : (plan.build n).1.same (plan.build k).1 ↔ plan.isShared := by
  rw [same_iff, outline_build, outline_build, Prod.mk.injEq, eq_self, true_and, bottom_eq_iff later]

/-- The marks that are given go up. -/
theorem le_build (plan : Plan) (n : Nat) : n ≤ (plan.build n).2 := by
  induction plan with
  | sentinel s => exact Nat.le_refl n
  | fault f => exact Nat.le_succ n
  | path operation target cause ih => exact Nat.le_succ_of_le ih

/-- A planned path failure is given the last of the marks that its building uses. -/
theorem identity_build (plan : Plan) (path : (plan.build n).1.isPath) :
    ∃ i, n ≤ i ∧ i < (plan.build n).2 ∧ (plan.build n).1.identity = .built i := by
  cases plan with
  | sentinel s => cases path
  | fault f => cases path
  | path operation target cause => exact ⟨(cause.build n).2, le_build cause n, Nat.lt_succ_self _, rfl⟩

/-- Whether a path failure is planned does not depend on the marks. -/
theorem isPath_build (plan : Plan) (n k : Nat) : (plan.build n).1.isPath = (plan.build k).1.isPath := by
  cases plan with
  | _ => rfl

/-- A nested failure that is built again has another path failure for its cause. -/
theorem causeMark_build (later : (plan.build n).2 ≤ k) (nested : (plan.build n).1.isNested) :
    (plan.build n).1.causeMark ≠ (plan.build k).1.causeMark := by
  cases plan with
  | sentinel s => cases nested
  | fault f => cases nested
  | path operation target cause =>
    obtain ⟨i, -, before, first⟩ := identity_build cause nested
    obtain ⟨j, after, -, second⟩ := identity_build cause (n := k) (by rwa [isPath_build cause k n])
    have order : (cause.build n).2 < k := later
    show some (cause.build n).1.identity ≠ some (cause.build k).1.identity
    rw [first, second]
    simp
    omega

end Plan

namespace Failure

/-- **Equality and hashing of failures.** Equality is an equivalence. The keys of equal failures are equal if and
only if their causes bear the same mark, and they do where the causes are faults. What is built twice from one plan
is equal just if the fault at the bottom is a shared one, and if its cause is a path failure, the keys differ. -/
theorem equality_and_keys (e f : Failure Mark) :
    Equivalence (fun e f : Failure Mark => e.same f = true) ∧
    (e.same f → (e.hashKey = f.hashKey ↔ e.causeMark = f.causeMark) ∧
      (e.isNested = false → e.hashKey = f.hashKey)) ∧
    ∀ (plan : Plan) (n k : Nat), (plan.build n).2 ≤ k →
      ((plan.build n).1.same (plan.build k).1 ↔ plan.isShared) ∧
      ((plan.build n).1.isNested → (plan.build n).1.hashKey ≠ (plan.build k).1.hashKey) := by
  refine ⟨same_equivalence, fun alike => ⟨hashKey_eq_iff alike, fun flat => ?_⟩, fun plan n k later => ?_⟩
  · exact (hashKey_eq_iff alike).mpr (causeMark_of_same alike flat)
  · exact ⟨Plan.same_build later, fun nested keys => Plan.causeMark_build later nested (causeMark_of_hashKey keys)⟩

/-- The failure that opening a missing file leaves, told by another operation: it is built twice, and the two are
equal and have different keys. -/
theorem not_equality_and_keys :
    let plan : Plan := .path "Sub".text "x".text (.path "Open".text "x".text (.sentinel .notExist))
    let first := plan.build 0
    let second := plan.build first.2
    first.1.same second.1 = true ∧ first.1.hashKey ≠ second.1.hashKey := by
  decide

end Failure

end Vfs
