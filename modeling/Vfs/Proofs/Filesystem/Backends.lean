import Vfs.Proofs.Host.Demand
import Vfs.Proofs.Memory.Demand

/-!
# Memory and host cannot be told apart

A new memory filesystem and a filesystem over a fresh directory of a host both show an empty directory, and both
keep to what a scene says. So they answer alike whatever is demanded (`alike_backends`), as long as the host takes
the paths of the names and hands the names back as they are. Where it does not, two names of the memory can be one
name of the host (`not_alike_backends`).
-/

namespace Vfs.Host
set_option autoImplicit false
open Vfs.Path

variable {dir : Text} {t : Tree}

/-- An empty directory of a host. Its path is spelled by the names that lead to it, every directory on the way is
open, and it is not the root. -/
structure Fresh (dir : Text) (t : Tree) : Prop where
  proper : rowOf dir ≠ []
  taken : Fits dir []
  tidy : t.Tidy
  way : ∀ row, row <+: rowOf dir → t.Open row
  empty : ∀ es, es ≠ [] → t.node? (rowOf dir ++ es) = none

/-- A fresh directory shows an empty scene. -/
theorem Fresh.depicts (fresh : Fresh dir t) : Depicts dir t .empty where
  proper := fresh.proper
  tidy := fresh.tidy
  ground := fun row behind _ => fresh.way row behind
  shows := by
    intro es
    by_cases top : es = []
    · obtain ⟨word, there, free⟩ := fresh.way (rowOf dir) (List.prefix_refl _)
      rw [top, List.append_nil, there]
      exact free
    · rw [fresh.empty es top, Scene.empty, if_neg top]
      trivial
  apart := by
    intro es es' number file
    by_cases top : es = []
    · obtain ⟨word, there, -⟩ := fresh.way (rowOf dir) (List.prefix_refl _)
      rw [top, List.append_nil, there] at file
      cases file
    · rw [fresh.empty es top] at file
      cases file
  fits := by
    intro es there
    rw [Scene.empty] at there
    split at there
    · next top => exact top ▸ fresh.taken
    · exact absurd rfl there

/-- The host path of a name, if it has one, is within the limits of the host. -/
def Within (dir name : Text) : Prop := ∀ operation path, hostPath dir operation name = .ok path →
  (∀ e ∈ steps path, Text.byteLength e ≤ longestElement) ∧ Text.byteLength path ≤ longestPath

theorem within_of_path {name path : Text} (told : hostPath dir [] name = .ok path)
    (short : ∀ e ∈ steps path, Text.byteLength e ≤ longestElement) (length : Text.byteLength path ≤ longestPath) :
    Within dir name := by
  intro operation path' told'
  obtain ⟨es, names, same, rfl⟩ := hostPath_eq_ok.1 told
  have own : hostPath dir operation name = .ok (es.foldl attach dir) := hostPath_eq_ok.2 ⟨es, names, same, rfl⟩
  obtain rfl := Except.ok.inj (own.symm.trans told')
  exact ⟨short, length⟩

/-- The host takes the path of a name without NUL that is within its limits, if it hands the name back as it is. -/
theorem Fresh.takes (fresh : Fresh dir t) {d : Demand} (plain : .char '\x00' ∉ d.name)
    (kept : isValid d.name = true → d.name.Kept) (within : Within dir d.name) : Takes dir d := by
  intro es names same
  replace kept := kept (isValid_iff_names.2 ⟨es, names, same⟩)
  obtain ⟨short, length⟩ := within [] _ (hostPath_eq_ok.2 ⟨es, names, same, rfl⟩)
  have own (e : Text) (member : e ∈ es) : e.Kept ∧ Plain e := by
    have hne := List.ne_nil_of_mem member
    rw [same, ofReduced_relative hne] at plain kept
    have back : e.Kept := kept_of_mem_elements kept (by rwa [elements_joined hne names.no_slash])
    exact ⟨back, plain_iff.2 ⟨back.1, fun null => plain (mem_joined member null)⟩⟩
  obtain ⟨namesDir, shortDir, -, checkDir⟩ := fresh.taken
  rw [List.append_nil] at namesDir shortDir
  have plainDir := (Route.check_eq_ok.1 checkDir).1
  rw [Route.path_ofPath, List.foldl_nil, plain_iff_steps] at plainDir
  rw [steps_foldl_attach names.pieces] at short
  refine ⟨names_append.2 ⟨namesDir, names⟩, List.forall_mem_append.2 ⟨shortDir, (List.forall_mem_append.1 short).2⟩,
    fun e member => (own e member).1, Route.check_eq_ok.2 ?_⟩
  rw [Route.path_ofPath, plain_iff_steps, steps_foldl_attach names.pieces]
  exact ⟨List.forall_mem_append.2 ⟨plainDir, fun e member => (own e member).2⟩, length⟩

end Vfs.Host

namespace Vfs
set_option autoImplicit false
open Vfs.Path

/-- A memory filesystem and a filesystem over a fresh directory of a host answer alike, one demand after the
other. -/
theorem alike_backends {dir : Text} {w w' : World} (fresh : Host.Fresh dir w'.tree) {ds : List Demand}
    (plain : ∀ d ∈ ds, .char '\x00' ∉ d.name) (kept : ∀ d ∈ ds, isValid d.name = true → d.name.Kept)
    (within : ∀ d ∈ ds, Host.Within dir d.name)
    (file : ∀ data, .write here data ∉ ds) :
    ∃ memory host w₁ w₂, Memory.newFilesystem [.char '/'] w = (.ok memory, w₁) ∧
      Host.newFilesystem dir (fun _ => .standard) w' = (.ok host, w₂) ∧
      List.Forall₂ Alike (answers memory ds w₁) (answers host ds w₂) := by
  let allowed (d : Demand) : Prop := Host.Takes dir d ∧ ∀ data, d ≠ .write here data
  have each (d : Demand) (member : d ∈ ds) : allowed d :=
    ⟨fresh.takes (plain d member) (kept d member) (within d member), fun data same => file data (same ▸ member)⟩
  have memory : Keeps (Memory.Shown w.volumes.size) allowed
      (Memory.filesystem w.serial ⟨w.volumes.size, [.char '/']⟩) :=
    Memory.keeps_filesystem _ _ allowed
  have host : Keeps (Host.Shown dir) allowed (Host.filesystem w'.serial ⟨dir, .standard, w'.records.size⟩) :=
    fun w S d said S' shown linked both => Host.keeps_filesystem _ _ w S d said S' shown linked both.1
  refine ⟨_, _, _, _, rfl, rfl, alike_answers memory host ?_ each Scene.linked_empty ?_ fresh.depicts⟩
  · exact fun w S d shown linked both => Memory.Shown.does shown linked both.2
  · refine ⟨by simp, ?_⟩
    have new : ({ w with volumes := w.volumes.push (.fresh [.char '/']), serial := w.serial + 1 } : World).volume
        w.volumes.size = .fresh [.char '/'] := by simp [World.volume]
    rw [new]
    exact Memory.depicts_fresh

namespace Host

/-- A host with one directory in another. -/
def scratch : Tree :=
  (({} : Tree).put ["t".text] (.directory standardDirectory)).put ["t".text, "x".text] (.directory standardDirectory)

theorem node?_scratch (row : List Text) :
    scratch.node? row = if row <+: ["t".text, "x".text] then some (.directory standardDirectory) else none := by
  have last : row <+: ["t".text] ++ ["x".text] ↔ row = ["t".text] ++ ["x".text] ∨ row <+: ["t".text] :=
    List.prefix_concat_iff
  have first : row <+: [] ++ ["t".text] ↔ row = [] ++ ["t".text] ∨ row <+: [] := List.prefix_concat_iff
  have ways : row <+: ["t".text, "x".text] ↔ row = ["t".text, "x".text] ∨ row = ["t".text] ∨ row = [] :=
    last.trans (or_congr_right (first.trans (or_congr_right List.prefix_nil)))
  rw [scratch, Tree.node?_put (by simp), Tree.node?_put (by simp)]
  by_cases inner : row = ["t".text, "x".text]
  · rw [if_pos inner, if_pos (ways.2 (.inl inner))]
  · rw [if_neg inner]
    by_cases outer : row = ["t".text]
    · rw [if_pos outer, if_pos (ways.2 (.inr (.inl outer)))]
    · rw [if_neg outer, Tree.node?]
      simp only [ways, inner, outer, false_or]
      rfl

theorem fresh_scratch : Fresh "/t/x".text scratch where
  proper := by decide
  taken := ⟨by unfold Names; decide, by unfold Tree.Short; decide, by decide, by decide⟩
  tidy := by
    constructor
    · decide
    · decide
  way := fun row behind => ⟨standardDirectory, (node?_scratch row).trans (if_pos behind), scratch.free_standard⟩
  empty := by
    intro es proper
    apply (node?_scratch _).trans (if_neg _)
    intro behind
    have short := behind.length_le
    have longer : rowOf "/t/x".text = ["t".text, "x".text] := by decide
    rw [longer, List.length_append] at short
    have nothing : es.length = 0 := by omega
    exact proper (List.eq_nil_of_length_eq_zero nothing)

end Host

/-- A directory is taken out as a whole, and a file made in its place. -/
def replaced : List Demand :=
  [.mkdirAll "a/b".text, .write "a/b/f".text [1, 2], .list "a".text, .removeAll here,
    .stat here, .write "a".text [3], .mkdirAll "a/b".text, .read "a".text]

theorem alike_replaced : ∃ memory host w₁ w₂, Memory.newFilesystem [.char '/'] {} = (.ok memory, w₁) ∧
    Host.newFilesystem "/t/x".text (fun _ => .standard) { tree := Host.scratch } = (.ok host, w₂) ∧
    List.Forall₂ Alike (answers memory replaced w₁) (answers host replaced w₂) := by
  apply alike_backends Host.fresh_scratch
  · decide
  · decide
  · intro d member
    simp only [replaced, List.mem_cons, List.not_mem_nil, or_false] at member
    rcases member with rfl | rfl | rfl | rfl | rfl | rfl | rfl | rfl
    all_goals exact Host.within_of_path rfl (by decide) (by decide)
  · intro data member
    simp [replaced, here, String.text] at member

/-- Two surrogates that stand for the bytes of `é`. -/
def twin : Text := [.ofByte 0xc3, .ofByte 0xa9]

/-- Two files are written under names that stand for the same bytes, and the first is read. -/
def twins : List Demand := [.write "é".text [1], .write twin [2], .read "é".text]

/-- Where names stand for the same bytes, a memory filesystem keeps two files and a host one. -/
theorem not_alike_backends :
    ¬∀ (dir : Text) (w w' : World) (ds : List Demand), Host.Fresh dir w'.tree →
      (∀ d ∈ ds, .char '\x00' ∉ d.name) → (∀ d ∈ ds, Host.Within dir d.name) → (∀ data, .write here data ∉ ds) →
      ∃ memory host w₁ w₂, Memory.newFilesystem [.char '/'] w = (.ok memory, w₁) ∧
        Host.newFilesystem dir (fun _ => .standard) w' = (.ok host, w₂) ∧
        List.Forall₂ Alike (answers memory ds w₁) (answers host ds w₂) := by
  intro agrees
  have within : ∀ d ∈ twins, Host.Within "/t/x".text d.name := by
    intro d member
    simp only [twins, List.mem_cons, List.not_mem_nil, or_false] at member
    rcases member with rfl | rfl | rfl
    all_goals exact Host.within_of_path rfl (by decide) (by decide)
  obtain ⟨memory, host, w₁, w₂, made, made', alike⟩ := agrees "/t/x".text {} { tree := Host.scratch } twins
    Host.fresh_scratch (by decide) within (by simp [twins, twin, here, String.text])
  have own : answers memory twins w₁ = [.ok (.count 1), .ok (.count 1), .ok (.content [1])] := by
    cases made
    decide +kernel
  have other : answers host twins w₂ = [.ok (.count 1), .ok (.count 1), .ok (.content [2])] := by
    cases made'
    decide +kernel
  rw [own, other] at alike
  obtain _ | ⟨-, _ | ⟨-, _ | ⟨last, -⟩⟩⟩ := alike
  cases last

end Vfs
