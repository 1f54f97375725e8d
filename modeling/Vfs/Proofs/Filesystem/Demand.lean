import Vfs.Filesystem.Dispatch
import Vfs.Proofs.Action
import Vfs.Proofs.Scene

/-!
# Demands on a filesystem

A `Demand` asks a filesystem to change something or to tell something, with the mode that is taken where none is
given. What it does to a scene, and what is said then, is `Scene.Does`; where nothing can be said, the demand fails
and the scene stays. Two filesystems that keep to their scenes, and show the same one, cannot be told apart by any
row of demands (`alike_answers`).
-/

namespace Vfs
set_option autoImplicit false
open Vfs.Path

/-! ## Demands and answers -/

inductive Demand where
  | mkdirAll (name : Text)
  | write (name : Text) (data : Bytes)
  | removeAll (name : Text)
  | read (name : Text)
  | list (name : Text)
  | stat (name : Text)
  deriving DecidableEq, Repr

/-- What is said to a demand: of an entry its name, whether it is a directory, and its size. -/
inductive Said where
  | done
  | count (n : Int)
  | content (data : Bytes)
  | facts (facts : List Fact)
  | fact (fact : Fact)
  deriving DecidableEq, Repr

namespace Demand

/-- The name that a demand is about. -/
def name : Demand → Text
  | .mkdirAll name | .write name _ | .removeAll name | .read name | .list name | .stat name => name

/-- A demand made on a filesystem. -/
def on (fs : Filesystem) : Demand → Action Said
  | .mkdirAll name => do fs.mkdirAll name Mode.standard; return .done
  | .write name data => do return .count (← fs.write name data Mode.standard)
  | .removeAll name => do fs.removeAll name; return .done
  | .read name => do return .content (← fs.read name)
  | .list name => do return .facts ((← fs.list name).map Info.fact)
  | .stat name => do return .fact (← fs.stat name).fact

end Demand

/-- The answers to some demands, made one after the other. -/
def answers (fs : Filesystem) : List Demand → World → List (Except Error Said)
  | [], _ => []
  | d :: rest, w => (d.on fs w).1 :: answers fs rest (d.on fs w).2

/-- Two answers that say the same, or are both errors of the host. -/
inductive Alike : Except Error Said → Except Error Said → Prop
  | ok (said : Said) : Alike (.ok said) (.ok said)
  | error {e e' : Error} (system : e.isSystem = true) (system' : e'.isSystem = true) : Alike (.error e) (.error e')

/-- An answer that says this, or is an error of the host if there is nothing to say. -/
inductive Tells : Option Said → Except Error Said → Prop
  | ok (said : Said) : Tells (some said) (.ok said)
  | error {e : Error} (system : e.isSystem = true) : Tells none (.error e)

theorem Tells.alike {said : Option Said} {a a' : Except Error Said} (tells : Tells said a) (tells' : Tells said a') :
    Alike a a' := by
  cases tells with
  | ok said =>
    cases tells'
    exact .ok said
  | error system =>
    cases tells' with
    | error system' => exact .error system system'

/-- What comes of a demand: it says this, and leaves a world of which something holds. -/
structure Ends (said : Option Said) (left : World → Prop) (outcome : Except Error Said × World) : Prop where
  tells : Tells said outcome.1
  left : left outcome.2

/-- What an action answers, put in the words of an answer to a demand. -/
theorem Ends.put {α : Type} {action : Action α} {put : α → Said} {said : Option Said} {r : Except Error α}
    {w w' : World} {left : World → Prop} (ran : action w = (r, w')) (tells : Tells said (r.map put)) (after : left w') :
    Ends said left ((action >>= fun a => pure (put a)) w) := by
  rw [Action.bind_pure_eq, ran]
  exact ⟨tells, after⟩

/-! ## What demands do to a scene -/

namespace Scene

variable {S S' : Scene} {es : List Text} {e : Text} {d : Demand} {said : Option Said}

/-- The name that what stands under a row goes by; the whole goes by `.`. -/
def called (es : List Text) : Text := es.getLastD here

/-- What a demand does to a scene, and what is said then. -/
inductive Does (S : Scene) : Demand → Option Said → Scene → Prop
  | invalid {d : Demand} (invalid : isValid d.name = false) : Does S d none S
  | made {es : List Text} (names : Names es) (free : ¬S.Blocked es) :
    Does S (.mkdirAll (ofReduced false es)) (some .done) (S.filled es)
  | notMade {es : List Text} (names : Names es) (blocked : S.Blocked es) :
    Does S (.mkdirAll (ofReduced false es)) none S
  | written {es : List Text} {e : Text} (data : Bytes) (names : Names (es ++ [e])) (free : ¬S.Blocked es)
    (place : S (es ++ [e]) ≠ some .directory) :
    Does S (.write (ofReduced false (es ++ [e])) data) (some (.count data.length))
      ((S.filled es).put (es ++ [e]) (.file data))
  | notWritten {es : List Text} {e : Text} (data : Bytes) (names : Names (es ++ [e]))
    (refused : S.Blocked es ∨ S (es ++ [e]) = some .directory) :
    Does S (.write (ofReduced false (es ++ [e])) data) none S
  | removed {es : List Text} (names : Names es) : Does S (.removeAll (ofReduced false es)) (some .done) (S.cut es)
  | content {es : List Text} {data : Bytes} (names : Names es) (there : S es = some (.file data)) :
    Does S (.read (ofReduced false es)) (some (.content data)) S
  | noContent {es : List Text} (names : Names es) (noFile : ∀ data, S es ≠ some (.file data)) :
    Does S (.read (ofReduced false es)) none S
  | listed {es : List Text} {facts : List Fact} (names : Names es) (there : S es = some .directory)
    (lists : S.Lists es facts) : Does S (.list (ofReduced false es)) (some (.facts facts)) S
  | notListed {es : List Text} (names : Names es) (noDirectory : S es ≠ some .directory) :
    Does S (.list (ofReduced false es)) none S
  | told {es : List Text} {item : Item} (names : Names es) (there : S es = some item) :
    Does S (.stat (ofReduced false es)) (some (.fact (item.fact (called es)))) S
  | notTold {es : List Text} (names : Names es) (missing : S es = none) : Does S (.stat (ofReduced false es)) none S

/-- Whatever is demanded, nothing comes to stand but in a directory. -/
theorem Does.linked (does : S.Does d said S') (linked : S.Linked) : S'.Linked := by
  cases does with
  | made names free => exact linked.filled names free
  | @written es e data names free place =>
    have filled := linked.filled (names_append.1 names).1 free
    apply filled.put_file names (filled_end free)
    rwa [filled_snoc_end]
  | @removed es names => exact linked.cut es
  | _ => exact linked

/-- In a scene whose directories can be listed every demand does something; a file is not written under the name of
the whole. -/
theorem exists_does (listings : ∀ es, Names es → S es = some .directory → ∃ facts, S.Lists es facts)
    (file : ∀ data, d ≠ .write here data) : ∃ said S', S.Does d said S' := by
  cases valid : isValid d.name with
  | false => exact ⟨_, _, .invalid valid⟩
  | true =>
    obtain ⟨es, names, same⟩ := isValid_iff_names.1 valid
    cases d with
    | mkdirAll name =>
      obtain rfl : name = _ := same
      by_cases blocked : S.Blocked es
      · exact ⟨_, _, .notMade names blocked⟩
      · exact ⟨_, _, .made names blocked⟩
    | write name data =>
      obtain rfl : name = _ := same
      rcases List.eq_nil_or_concat' es with rfl | ⟨front, e, rfl⟩
      · exact absurd rfl (file data)
      · by_cases refused : S.Blocked front ∨ S (front ++ [e]) = some .directory
        · exact ⟨_, _, .notWritten data names refused⟩
        · rw [not_or] at refused
          exact ⟨_, _, .written data names refused.1 refused.2⟩
    | removeAll name =>
      obtain rfl : name = _ := same
      exact ⟨_, _, .removed names⟩
    | read name =>
      obtain rfl : name = _ := same
      by_cases there : ∃ data, S es = some (.file data)
      · obtain ⟨data, there⟩ := there
        exact ⟨_, _, .content names there⟩
      · exact ⟨_, _, .noContent names (not_exists.1 there)⟩
    | list name =>
      obtain rfl : name = _ := same
      by_cases there : S es = some .directory
      · obtain ⟨facts, lists⟩ := listings es names there
        exact ⟨_, _, .listed names there lists⟩
      · exact ⟨_, _, .notListed names there⟩
    | stat name =>
      obtain rfl : name = _ := same
      cases there : S es with
      | none => exact ⟨_, _, .notTold names there⟩
      | some item => exact ⟨_, _, .told names there⟩

end Scene

/-! ## Keeping to a scene -/

/-- A filesystem of which a world shows a scene does what the scene says, as far as demands are allowed. -/
def Keeps (shown : World → Scene → Prop) (allowed : Demand → Prop) (fs : Filesystem) : Prop :=
  ∀ w S d said S', shown w S → S.Linked → allowed d → S.Does d said S' → Ends said (shown · S') (d.on fs w)

/-- Two filesystems that keep to the same scene answer alike, one demand after the other. -/
theorem alike_answers {shown shown' : World → Scene → Prop} {allowed : Demand → Prop} {fs fs' : Filesystem}
    (keeps : Keeps shown allowed fs) (keeps' : Keeps shown' allowed fs')
    (does : ∀ w S d, shown w S → S.Linked → allowed d → ∃ said S', S.Does d said S')
    {ds : List Demand} (each : ∀ d ∈ ds, allowed d) {w w' : World} {S : Scene} (linked : S.Linked)
    (start : shown w S) (start' : shown' w' S) : List.Forall₂ Alike (answers fs ds w) (answers fs' ds w') := by
  induction ds generalizing w w' S with
  | nil => exact .nil
  | cons d rest ih =>
    obtain ⟨first, later⟩ := List.forall_mem_cons.1 each
    obtain ⟨said, S', does⟩ := does w S d start linked first
    obtain ⟨tells, next⟩ := keeps w S d said S' start linked first does
    obtain ⟨tells', next'⟩ := keeps' w' S d said S' start' linked first does
    exact .cons (tells.alike tells') (ih later (does.linked linked) next next')

end Vfs
