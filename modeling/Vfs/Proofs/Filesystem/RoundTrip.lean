import Vfs.Proofs.Filesystem.Backends
import Vfs.Proofs.Host.Transfer
import Vfs.Proofs.Memory.Copy
import Vfs.Proofs.Memory.Transfer

/-!
# From memory to a host and back

A view that is copied to an empty directory of a host, and from there to a new filesystem in memory, is all there
again: the same names, each with its kind, and the files with their contents (`copy_there_and_back`). The names have to
be ones that the host hands back as they are: of two names that are one on the host, one is lost
(`not_copy_there_and_back`).
-/

namespace Vfs.Host
set_option autoImplicit false
open Vfs.Path

variable {dir : Text} {t : Tree}

/-- An empty directory is one for someone privileged too. -/
theorem Fresh.privileged (fresh : Fresh dir t) : Fresh dir { t with privileged := true } where
  proper := fresh.proper
  taken := fresh.taken
  tidy := fresh.tidy.part (.refl _)
  way := by
    intro row behind
    obtain ⟨word, there, free⟩ := fresh.way row behind
    exact ⟨word, there, fun _ => rfl, free.kind, free.small⟩
  empty := fresh.empty

end Vfs.Host

namespace Vfs.Memory
set_option autoImplicit false
open Vfs.Path Session

variable {w w' : World} {n m : Nat} {as : List Text} {src dest : View} {dir name : Text} {S : Scene}

/-- A view has in one world what another one had: under every name nothing, a directory, or a file with the same
content; and its volume has nothing else. -/
structure Returned (src dest : View) (w w' : World) : Prop where
  same : ∀ name, (dest.stored? w' name).map Entry.item = (src.stored? w name).map Entry.item
  whole : ∀ k e, (w'.volume dest.volume).store.get? k = some e →
    ∃ name, isValid name = true ∧ k = key dest.root name

/-- What stands under a name of a view, by the scene of its store. -/
theorem item_stored? (ha : Names as) {es : List Text} (names : Names es) :
    (View.stored? ⟨n, ofReduced true as⟩ w (ofReduced false es)).map Entry.item =
      sceneOf (w.volume n).store as es := by
  rw [stored?_row (names_append.2 ⟨ha, names⟩), sceneOf_names names]

theorem returned (firm : Firm (w.volume n).store as) (shown : Shown m w' (sceneOf (w.volume n).store as)) :
    Returned ⟨n, ofReduced true as⟩ ⟨m, [.char '/']⟩ w w' where
  same := by
    intro name
    by_cases valid : isValid name = true
    · obtain ⟨es, names, rfl⟩ := isValid_iff_names.1 valid
      rw [item_stored? firm.names names, stored?_fresh names]
      exact shown.depicts.shows es names
    · have nowhere (view : View) (w : World) : view.stored? w name = none :=
        Option.eq_none_iff_forall_ne_some.2 fun e stored => valid (isValid_of_stored stored)
      rw [nowhere, nowhere]
  whole := by
    intro k e stored
    obtain ⟨es, names, rfl⟩ := isKey_iff.1 (shown.depicts.labelled.keys k e stored)
    exact ⟨ofReduced false es, isValid_iff_names.2 ⟨es, names, rfl⟩, (key_ofReduced names_nil names).symm⟩

/-- **Copying to a host and back loses nothing.** -/
theorem copy_there_and_back (rooted : Rooted w src) (fresh : Host.Fresh dir w.tree)
    (privileged : w.tree.privileged = true) (plain : ∀ name, (src.stored? w name).isSome = true → .char '\x00' ∉ name)
    (kept : ∀ name, (src.stored? w name).isSome = true → name.Kept)
    (within : ∀ name, (src.stored? w name).isSome = true → Host.Within dir name) (id : Nat) :
    ∃ host w₁ dest w₂, Host.newFilesystem dir (fun _ => .standard) w = (.ok host, w₁) ∧
      (host.copy (filesystem id src) here w₁).1.outcome = .ok () ∧
      newFilesystem [.char '/'] (host.copy (filesystem id src) here w₁).2 = (.ok dest, w₂) ∧
      (dest.copy host here w₂).1.outcome = .ok () ∧
      Returned src ⟨(host.copy (filesystem id src) here w₁).2.volumes.size, [.char '/']⟩ w
        (dest.copy host here w₂).2 := by
  obtain ⟨n, root⟩ := src
  obtain ⟨as, rfl, firm⟩ := rooted.firm
  have linked := firm.linked_sceneOf
  have top := firm.top_sceneOf
  -- What the view has the host takes.
  have fitting (es : List Text) (there : sceneOf (w.volume n).store as es ≠ none) : Host.Fits dir es := by
    have names := linked.names es there
    have stored : (View.stored? ⟨n, ofReduced true as⟩ w (ofReduced false es)).isSome = true := by
      rw [← Option.isSome_map (f := Entry.item), item_stored? firm.names names]
      exact Option.isSome_iff_ne_none.2 there
    have takes := fresh.takes (d := .stat (ofReduced false es)) (plain _ stored) (fun _ => kept _ stored)
      (within _ stored)
    exact takes es names rfl
  let w₁ : World := { w with records := w.records.push [], serial := w.serial + 1 }
  have out := copied_scene (w := w₁) (gives_view id firm) (Host.accepts_directory w.serial w.records.size) linked
    fitting top rfl ⟨fresh.depicts, privileged⟩
  refine ⟨_, w₁, _, _, rfl, out.1, rfl, ?_⟩
  obtain ⟨-, -, shown, -⟩ := out
  generalize ((Host.filesystem w.serial ⟨dir, .standard, w.records.size⟩).copy _ here w₁).2 = home at shown ⊢
  have begun : Shown home.volumes.size (newFilesystem [.char '/'] home).2 .empty := by
    refine ⟨by simp [newFilesystem], ?_⟩
    have new : (newFilesystem [.char '/'] home).2.volume home.volumes.size = .fresh [.char '/'] := by
      simp [newFilesystem, World.volume]
    rw [new]
    exact depicts_fresh
  have back := copied_scene (Host.gives_directory w.serial w.records.size linked top)
    (accepts_volume home.serial home.volumes.size fun _ => True) linked (fun _ _ => trivial) top
    (w := (newFilesystem [.char '/'] home).2) shown begun
  exact ⟨back.1, returned firm back.2.2⟩

/-- What has a name in the whole of a volume, by the keys of the volume. -/
theorem mem_of_stored {names : List Text} (sound : (w.volume m).store.Sound)
    (keys : (w.volume m).store.keys.toList = "/".text :: names.map (.char '/' :: ·))
    (stored : (View.stored? ⟨m, [.char '/']⟩ w name).isSome = true) : name ∈ here :: names := by
  obtain ⟨e, found⟩ := Option.isSome_iff_exists.1 stored
  obtain ⟨es, isNames, rfl⟩ := isValid_iff_names.1 (isValid_of_stored found)
  by_cases top : es = []
  · rw [top]
    exact List.mem_cons_self
  · rw [stored?_fresh isNames] at stored
    have member := (sound.agree _).2 stored
    rw [ofReduced_rooted, keys] at member
    rw [ofReduced_relative top]
    rcases List.mem_cons.1 member with root | below
    · exact absurd (List.cons.inj root).2 (joined_ne_nil isNames.pieces top)
    · obtain ⟨name, listed, same⟩ := List.mem_map.1 below
      exact List.mem_cons_of_mem _ ((List.cons.inj same).2 ▸ listed)

/-- A world with what some calls have left, and a host that asks for someone privileged. -/
def worldAfter (calls : List Call) : World :=
  { (start.after calls).world with tree := { Host.scratch with privileged := true } }

def writtenWorld : World := worldAfter writtenCalls

theorem names_written (stored : (View.stored? ⟨0, [.char '/']⟩ writtenWorld name).isSome = true) :
    name ∈ [here, "a".text, "a/d".text, "a/d/e".text, "a/f".text] :=
  mem_of_stored (labelled_after writtenCalls).2.1 (by decide +kernel) stored

theorem copy_there_and_back_written :
    ∃ host w₁ dest w₂, Host.newFilesystem "/t/x".text (fun _ => .standard) writtenWorld = (.ok host, w₁) ∧
      (host.copy (filesystem 0 ⟨0, [.char '/']⟩) here w₁).1.outcome = .ok () ∧
      newFilesystem [.char '/'] (host.copy (filesystem 0 ⟨0, [.char '/']⟩) here w₁).2 = (.ok dest, w₂) ∧
      (dest.copy host here w₂).1.outcome = .ok () ∧
      Returned ⟨0, [.char '/']⟩ ⟨(host.copy (filesystem 0 ⟨0, [.char '/']⟩) here w₁).2.volumes.size, [.char '/']⟩
        writtenWorld (dest.copy host here w₂).2 := by
  have rooted : Rooted writtenWorld ⟨0, [.char '/']⟩ := rooted_top reached_written rfl (by decide +kernel)
  refine copy_there_and_back rooted Host.fresh_scratch.privileged rfl (fun name stored => ?_) (fun name stored => ?_)
    (fun name stored => ?_) 0
  · have each : ∀ name ∈ [here, "a".text, "a/d".text, "a/d/e".text, "a/f".text], .char '\x00' ∉ name := by decide
    exact each name (names_written stored)
  · have each : ∀ name ∈ [here, "a".text, "a/d".text, "a/d/e".text, "a/f".text], name.Kept := by decide
    exact each name (names_written stored)
  · have listed := names_written stored
    simp only [List.mem_cons, List.not_mem_nil, or_false] at listed
    rcases listed with rfl | rfl | rfl | rfl | rfl
    all_goals exact Host.within_of_path rfl (by decide) (by decide)

/-- The calls of a session that writes two files under names that stand for the same bytes. -/
def twinCalls : List Call := [.on 0 (.write "é".text [1] 0o644), .on 0 (.write twin [2] 0o644)]

theorem reached_twin : Reached (start.after twinCalls) := by
  have begun := Reached.call (.on 0 (.write "é".text [1] 0o644)) .start (.inl rfl)
  exact .call (.on 0 (.write twin [2] 0o644)) begun (.inl rfl)

def twinWorld : World := worldAfter twinCalls

theorem names_twin (stored : (View.stored? ⟨0, [.char '/']⟩ twinWorld name).isSome = true) :
    name ∈ [here, "é".text, twin] :=
  mem_of_stored (labelled_after twinCalls).2.1 (by decide +kernel) stored

/-- Of two files under names that stand for the same bytes, one is lost on a host. -/
theorem not_copy_there_and_back :
    ¬∀ (w : World) (src : View) (dir : Text) (id : Nat), Rooted w src → Host.Fresh dir w.tree →
      w.tree.privileged = true → (∀ name, (src.stored? w name).isSome = true → .char '\x00' ∉ name) →
      (∀ name, (src.stored? w name).isSome = true → Host.Within dir name) →
      ∃ host w₁ dest w₂, Host.newFilesystem dir (fun _ => .standard) w = (.ok host, w₁) ∧
        (host.copy (filesystem id src) here w₁).1.outcome = .ok () ∧
        newFilesystem [.char '/'] (host.copy (filesystem id src) here w₁).2 = (.ok dest, w₂) ∧
        (dest.copy host here w₂).1.outcome = .ok () ∧
        Returned src ⟨(host.copy (filesystem id src) here w₁).2.volumes.size, [.char '/']⟩ w
          (dest.copy host here w₂).2 := by
  intro returns
  have rooted : Rooted twinWorld ⟨0, [.char '/']⟩ := rooted_top reached_twin rfl (by decide +kernel)
  have plain (name : Text) (stored : (View.stored? ⟨0, [.char '/']⟩ twinWorld name).isSome = true) :
      .char '\x00' ∉ name := by
    have each : ∀ name ∈ [here, "é".text, twin], .char '\x00' ∉ name := by decide
    exact each name (names_twin stored)
  have within (name : Text) (stored : (View.stored? ⟨0, [.char '/']⟩ twinWorld name).isSome = true) :
      Host.Within "/t/x".text name := by
    have listed := names_twin stored
    simp only [List.mem_cons, List.not_mem_nil, or_false] at listed
    rcases listed with rfl | rfl | rfl
    all_goals exact Host.within_of_path rfl (by decide) (by decide)
  obtain ⟨host, w₁, dest, w₂, made, -, made', -, returned⟩ :=
    returns twinWorld ⟨0, [.char '/']⟩ "/t/x".text 0 rooted Host.fresh_scratch.privileged rfl plain within
  have first := returned.same "é".text
  cases made
  cases made'
  have before : ((View.stored? ⟨0, [.char '/']⟩ twinWorld "é".text).map Entry.item) = some (.file [1]) := by
    decide +kernel
  rw [before] at first
  revert first
  decide +kernel

end Vfs.Memory
