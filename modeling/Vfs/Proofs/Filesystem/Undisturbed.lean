import Vfs.Filesystem.Dispatch
import Vfs.Proofs.Host.Natural

/-!
# What changes leave alone

Changes through a filesystem, in memory or over a directory of the host, make handles of their own and leave every
handle that was there before; and they leave the host a tree that it can have. `Undisturbed` says so of two worlds.
`Backend.undisturbed` says it of every change, over a host as far as the operations that the directory is mounted
with are gentle, as those of the host itself are (`gentle_standard`).
-/

namespace Vfs
set_option autoImplicit false

/-! ## Actions that keep to a property -/

/-- An action that leads from worlds with a property to such worlds, and answers something good. -/
def Action.Maintains {α : Type} (P : World → Prop) (action : Action α) (good : α → Prop) : Prop :=
  ∀ w, P w → P (action w).2 ∧ ∀ a, (action w).1 = .ok a → good a

namespace Action.Maintains

variable {α β : Type} {P : World → Prop} {action : Action α} {next : α → Action β} {last : Action Unit}
  {good : α → Prop} {good' : β → Prop}

theorem bind (first : Maintains P action good) (later : ∀ a, good a → Maintains P (next a) good') :
    Maintains P (action >>= next) good' := by
  intro w holds
  obtain ⟨left, answer⟩ := first w holds
  rw [Action.bind_eq]
  generalize action w = x at left answer
  obtain ⟨r, w'⟩ := x
  cases r with
  | ok a => exact later a (answer a rfl) w' left
  | error e => exact ⟨left, fun b told => by cases told⟩

theorem ensuring (body : Maintains P action good) (after : Maintains P last fun _ => True) :
    Maintains P (action.ensuring last) good := by
  intro w holds
  obtain ⟨left, answer⟩ := body w holds
  rw [Action.ensuring_eq]
  refine ⟨(after _ left).1, fun a told => ?_⟩
  cases ended : (last (action w).2).1 with
  | error e =>
    rw [ended] at told
    cases told
  | ok done =>
    rw [ended] at told
    exact answer a told

theorem retell (keeps : Maintains P action good) (tell : Error → Error) : Maintains P (action.retell tell) good := by
  intro w holds
  obtain ⟨left, answer⟩ := keeps w holds
  rw [Action.retell_eq]
  refine ⟨left, fun a told => answer a ?_⟩
  cases r : (action w).1 with
  | error e =>
    rw [r] at told
    cases told
  | ok b =>
    rw [r] at told
    cases told
    rfl

/-- What answers or fails as given is good for any action that follows. -/
theorem given (r : Except Error α) (later : ∀ a, Maintains P (next a) good') :
    Maintains P (Action.ofExcept r >>= next) good' := by
  have kept : Maintains P (Action.ofExcept r) fun _ => True := fun _ holds => ⟨holds, fun _ _ => trivial⟩
  exact kept.bind fun a _ => later a

/-- What comes of an answer is not looked at. -/
theorem ignore (keeps : Maintains P action good) : Maintains P (do let _ ← action) fun _ => True :=
  keeps.bind fun _ _ _ holds => ⟨holds, fun _ _ => trivial⟩

theorem within {dir operation name : Text} {act : Text → Action α} (keeps : ∀ path, Maintains P (act path) good) :
    Maintains P (Host.within dir operation name act) good :=
  given _ fun path => (keeps path).retell _

end Action.Maintains

/-! ## Worlds that keep the handles of another -/

/-- An array begins as another one. -/
structure Begins {α : Type} (before after : Array α) : Prop where
  size : before.size ≤ after.size
  same : ∀ i < before.size, after[i]? = before[i]?

namespace Begins

variable {α : Type} {before after : Array α}

theorem refl (before : Array α) : Begins before before := ⟨Nat.le_refl _, fun _ _ => rfl⟩

theorem push (begins : Begins before after) (a : α) : Begins before (after.push a) where
  size := by
    rw [Array.size_push]
    exact Nat.le_succ_of_le begins.size
  same := by
    intro i there
    rw [Array.getElem?_push, if_neg (by have := begins.size; omega), begins.same i there]

theorem set (begins : Begins before after) {j : Nat} (behind : before.size ≤ j) (a : α) :
    Begins before (after.setIfInBounds j a) where
  size := by
    rw [Array.size_setIfInBounds]
    exact begins.size
  same := by
    intro i there
    rw [Array.getElem?_setIfInBounds_ne (by omega), begins.same i there]

end Begins

/-- Every handle of a world is there as it was, and the host has a tree that it can have if it had one before. -/
structure Undisturbed (w w' : World) : Prop where
  memory : Begins w.memoryHandles w'.memoryHandles
  host : Begins w.hostHandles w'.hostHandles
  natural : w.tree.Natural → w'.tree.Natural

namespace Undisturbed

variable {w w₁ w₂ : World}

theorem refl (w : World) : Undisturbed w w := ⟨.refl _, .refl _, id⟩

/-- Nothing happens to the handles. -/
theorem next (undisturbed : Undisturbed w w₁) (memory : w₂.memoryHandles = w₁.memoryHandles)
    (host : w₂.hostHandles = w₁.hostHandles) (natural : w₁.tree.Natural → w₂.tree.Natural) : Undisturbed w w₂ where
  memory := memory ▸ undisturbed.memory
  host := host ▸ undisturbed.host
  natural := fun before => natural (undisturbed.natural before)

theorem memory_handle (undisturbed : Undisturbed w w₁) {i : Nat} (there : i < w.memoryHandles.size) :
    i < w₁.memoryHandles.size ∧ Memory.handle w₁ i = Memory.handle w i := by
  refine ⟨Nat.lt_of_lt_of_le there undisturbed.memory.size, ?_⟩
  rw [Memory.handle, Memory.handle, Array.getD_eq_getD_getElem?, Array.getD_eq_getD_getElem?,
    undisturbed.memory.same i there]

theorem host_handle (undisturbed : Undisturbed w w₁) {i : Nat} (there : i < w.hostHandles.size) :
    i < w₁.hostHandles.size ∧ Host.handle w₁ i = Host.handle w i := by
  refine ⟨Nat.lt_of_lt_of_le there undisturbed.host.size, ?_⟩
  rw [Host.handle, Host.handle, Array.getD_eq_getD_getElem?, Array.getD_eq_getD_getElem?,
    undisturbed.host.same i there]

end Undisturbed

/-- An action that leaves the handles alone that were there before, whatever was done since. -/
def Gentle {α : Type} (action : Action α) (good : α → Prop) : Prop :=
  ∀ w, action.Maintains (Undisturbed w) good

/-! ## Changes in memory -/

namespace Memory

theorem gentle_change {α : Type} (view : View) (f : Text → Store Entry → Except Error α × Store Entry) :
    Gentle (change view f) fun _ => True :=
  fun _ _ undisturbed => ⟨undisturbed.next rfl rfl id, fun _ _ => trivial⟩

theorem gentle_write (view : View) (name : Text) (data : Bytes) (mode : Int) :
    Gentle ((filesystem 0 view).write name data mode) fun _ => True := gentle_change view _

theorem gentle_createFile (view : View) (name : Text) (mode : Int) :
    Gentle (createFile view name mode) fun _ => True := by
  intro w
  apply (gentle_change view _ w).bind
  intro _ _ w₁ undisturbed
  exact ⟨⟨undisturbed.memory.push _, undisturbed.host, undisturbed.natural⟩, fun _ _ => trivial⟩

end Memory

/-! ## Changes of a host -/

namespace Host

/-- A stream that leaves the handles alone. -/
structure ByteStream.Gentle (stream : ByteStream) : Prop where
  write : ∀ data, Vfs.Gentle (stream.write data) fun _ => True
  close : Vfs.Gentle stream.close fun _ => True

/-- Operations that leave the handles alone. -/
structure Operations.Gentle (ops : Operations) : Prop where
  create : ∀ path, Vfs.Gentle (ops.create path) ByteStream.Gentle
  mkdirAll : ∀ path mode, Vfs.Gentle (ops.mkdirAll path mode) fun _ => True
  remove : ∀ path, Vfs.Gentle (ops.remove path) fun _ => True
  removeAll : ∀ path, Vfs.Gentle (ops.removeAll path) fun _ => True

theorem gentle_change {α : Type} {f : Tree → Except Fault α × Tree} (natural : ∀ t, t.Natural → (f t).2.Natural) :
    Gentle (change f) fun _ => True :=
  fun _ w₁ undisturbed => ⟨undisturbed.next rfl rfl (natural w₁.tree), fun _ _ => trivial⟩

theorem gentle_ofNumber (i : Nat) : (ByteStream.ofNumber i).Gentle where
  write := fun data _ _ undisturbed =>
    ⟨undisturbed.next rfl rfl fun natural => natural.write _ data, fun _ _ => trivial⟩
  close := fun _ _ undisturbed => ⟨undisturbed.next rfl rfl fun natural => natural.close _, fun _ _ => trivial⟩

/-- The operations of the host itself leave the handles alone. -/
theorem gentle_standard : Operations.standard.Gentle where
  create := by
    intro path w
    apply (gentle_change (fun t natural => natural.truncate (.ofPath path)) w).bind
    intro number _ w₁ undisturbed
    refine ⟨undisturbed.next rfl rfl id, fun stream made => ?_⟩
    cases made
    exact gentle_ofNumber _
  mkdirAll := fun path mode => gentle_change fun t natural => natural.mkdirs (.ofPath path) mode
  remove := fun path => gentle_change fun t natural => natural.unlink (.ofPath path)
  removeAll := fun path => gentle_change fun t natural => natural.removeAll (.ofPath path)

section
variable {m : Mount} (gentle : m.ops.Gentle)
include gentle

theorem gentle_mkdirAll (name : Text) (mode : Int) : Gentle (mkdirAll m name mode) fun _ => True := by
  intro w
  apply Action.Maintains.within
  intro path
  exact .given _ fun bits => gentle.mkdirAll path bits w

/-- The file that is created can be written and closed and leaves the other handles alone. -/
theorem gentle_createFile (name : Text) (mode : Int) (w : World) :
    (createFile m name mode).Maintains (Undisturbed w) fun f =>
      (∀ data, (f.write data).Maintains (Undisturbed w) fun _ => True) ∧
        f.close.Maintains (Undisturbed w) fun _ => True := by
  have opened : (Host.within m.dir "Create".text name fun path => do
      m.ops.mkdirAll (madeFirst m.dir path) (← permissions mode)
      m.ops.create path).Maintains (Undisturbed w) ByteStream.Gentle := by
    apply Action.Maintains.within
    intro path
    apply Action.Maintains.given
    intro bits
    exact (gentle.mkdirAll _ bits w).bind fun _ _ => gentle.create path w
  apply opened.bind
  intro stream own w₁ undisturbed
  refine ⟨⟨undisturbed.memory, undisturbed.host.push _, undisturbed.natural⟩, fun f made => ?_⟩
  cases made
  have set (h : World → Handle) : Action.Maintains (Undisturbed w)
      (fun w₂ => (.ok (), setHandle w₂ w₁.hostHandles.size (h w₂)) : Action Unit) fun _ => True :=
    fun w₂ next => ⟨⟨next.memory, next.host.set undisturbed.host.size _, next.natural⟩, fun _ _ => trivial⟩
  constructor
  · intro data
    exact (own.write data w).bind fun _ _ _ next => ⟨next, fun _ _ => trivial⟩
  · apply (set _).bind
    intro _ _
    apply (own.close w).bind
    intro _ _
    exact set _

theorem gentle_ask (c : Change) (name : Text) : Gentle (c.ask m name) fun _ => True := by
  intro w
  cases c with
  | mkdirAll mode => exact gentle_mkdirAll gentle name mode w
  | create mode => exact (gentle_createFile gentle name mode w).ignore
  | write data mode =>
    have written : (Host.write m name data mode).Maintains (Undisturbed w) fun _ => True := by
      apply (gentle_createFile gentle name mode w).bind
      intro f own
      exact (own.1 data).ensuring own.2
    exact written.ignore
  | remove => exact .within fun path => gentle.remove path w
  | removeAll => exact .within fun path => gentle.removeAll path w

end

end Host

/-! ## Changes through a filesystem -/

/-- What a filesystem is over: a view of a volume, or a mounted directory of the host. -/
inductive Backend where
  | memory (view : Memory.View)
  | host (m : Host.Mount)

namespace Backend

/-- The filesystem over a backend. -/
def filesystem (id : Nat) : Backend → Filesystem
  | .memory view => Memory.filesystem id view
  | .host m => Host.filesystem id m

/-- Asks the filesystem over a backend for a change under a name. -/
def ask (b : Backend) (c : Host.Change) (name : Text) : Action Unit :=
  let fs := b.filesystem 0
  match c with
  | .mkdirAll mode => fs.mkdirAll name mode
  | .create mode => do let _ ← fs.create name mode
  | .write data mode => do let _ ← fs.write name data mode
  | .remove => fs.remove name
  | .removeAll => fs.removeAll name

/-- The operations of a backend leave the handles alone. -/
def Gentle : Backend → Prop
  | .memory _ => True
  | .host m => m.ops.Gentle

/-- **A change leaves every handle alone** that was there before. -/
theorem undisturbed {b : Backend} (gentle : b.Gentle) (c : Host.Change) (name : Text) (w : World) :
    Undisturbed w (b.ask c name w).2 := by
  have kept : Vfs.Gentle (b.ask c name) fun _ => True := by
    cases b with
    | memory view =>
      cases c with
      | mkdirAll mode => exact Memory.gentle_change view _
      | create mode => exact fun w => (Memory.gentle_createFile view name mode w).ignore
      | write data mode => exact fun w => (Memory.gentle_write view name data mode w).ignore
      | remove => exact Memory.gentle_change view _
      | removeAll => exact Memory.gentle_change view _
    | host m =>
      have same : (host m).ask c name = c.ask m name := by
        cases c with
        | _ => rfl
      rw [same]
      exact Host.gentle_ask gentle c name
  exact (kept w w (.refl w)).1

end Backend

end Vfs
