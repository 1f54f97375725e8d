import Vfs.Proofs.Memory.Lookup
import Vfs.Proofs.Memory.Session

/-!
# A handle reads a snapshot

A handle that was opened on a file delivers the content that the file had then, piece by piece, whatever becomes
of the file meanwhile. `Unread` is what is left to read. A call on the handle itself takes its answer off the front
of that, and every other call leaves it (`Unread.perform`), so that after any calls what was delivered and what is
left make the content (`Unread.after`). `reads_snapshot` says what follows for whoever goes on reading.
-/

namespace Vfs.Amount
set_option autoImplicit false

/-- The amount fits into a signed word. -/
def Fits (n : Int) : Prop := -largest - 1 ≤ n ∧ n ≤ largest

/-- The refusal of an amount that does not fit. -/
def tooWide : Fault := .plain .overflow "cannot fit 'int' into an index-sized integer".text

theorem check_eq {n : Int} (fits : Fits n) : check n = .ok n := by
  obtain ⟨low, high⟩ := fits
  rw [check, if_neg (by omega)]

theorem check_wide {n : Int} (wide : ¬Fits n) : check n = .error tooWide := by
  have outside : n < -largest - 1 ∨ largest < n := by
    rw [Fits] at wide
    omega
  rw [check, if_pos outside]
  rfl

end Vfs.Amount

namespace Vfs.Memory
set_option autoImplicit false
open Session

/-! ## What is said about reading -/

/-- What a call delivers from a handle. -/
def Call.delivers (i : Nat) : Call → Except Error Answer → Bytes
  | .read j _, .ok (.content data) => if j = i then data else []
  | _, _ => []

/-- Everything that calls delivered from a handle, by their answers. -/
def delivered (i : Nat) (transcript : List (Call × Except Error Answer)) : Bytes :=
  transcript.flatMap fun said => said.1.delivers i said.2

/-- A read of some size answers `piece` of the data, after everything `before` it. -/
structure Piece (size : Int) (data before piece : Bytes) : Prop where
  goesOn : before ++ piece <+: data
  bounded : 0 ≤ size → (piece.length : Int) ≤ size
  dry : 1 ≤ size → piece = [] → before = data
  rest : size < 0 → before ++ piece = data

/-- Through some calls a handle delivers `data` from its beginning on. A size that does not fit into a word is refused,
and nothing changes. -/
structure ReadsOut (s : Session) (i : Nat) (data : Bytes) (calls : List Call) : Prop where
  part : delivered i (s.transcript calls) <+: data
  next : ∀ size, Amount.Fits size → ∃ piece,
    ((s.after calls).perform (.read i size)).1 = .ok (.content piece) ∧
      Piece size data (delivered i (s.transcript calls)) piece
  refused : ∀ size, ¬Amount.Fits size →
    (s.after calls).perform (.read i size) = (.error Amount.tooWide.error, s.after calls)
  whole : ∀ size, Amount.Fits size → size < 0 → .read i size ∈ calls → delivered i (s.transcript calls) = data

/-! ## What is left to read -/

/-- An open handle has this left to read. -/
structure Unread (s : Session) (i : Nat) (left : Bytes) : Prop where
  isOpen : (handle s.world i).closed = false
  left : (handle s.world i).reader = some left

/-- The number of bytes that a read of some size takes, if they are left. -/
def Handle.portion (left : Bytes) (size : Int) : Nat := if size < 0 then left.length else size.toNat

variable {s : Session} {i : Nat} {left data : Bytes}

namespace Unread

theorem there (unread : Unread s i left) : i < s.world.memoryHandles.size := by
  by_contra outside
  have read := unread.left
  rw [handle_of_size_le (Nat.le_of_not_lt outside)] at read
  cases read

/-- A handle in the same state of reading has the same left. -/
theorem congr {s' : Session} (unread : Unread s i left)
    (closed : (handle s'.world i).closed = (handle s.world i).closed)
    (reader : (handle s'.world i).reader = (handle s.world i).reader) : Unread s' i left :=
  ⟨closed.trans unread.isOpen, reader.trans unread.left⟩

theorem read_eq (unread : Unread s i left) {size : Int} (fits : Amount.Fits size) :
    (handle s.world i).read size = (.ok (left.take (Handle.portion left size)),
      { handle s.world i with reader := some (left.drop (Handle.portion left size)) }) := by
  have isOpen : ¬(handle s.world i).closed = true := by simp [unread.isOpen]
  rw [Handle.read, if_neg isOpen, unread.left]
  dsimp only
  rw [Amount.check_eq fits]
  rfl

theorem read_wide (unread : Unread s i left) {size : Int} (wide : ¬Amount.Fits size) :
    (handle s.world i).read size = (.error Amount.tooWide.error, handle s.world i) := by
  have isOpen : ¬(handle s.world i).closed = true := by simp [unread.isOpen]
  rw [Handle.read, if_neg isOpen, unread.left]
  dsimp only
  rw [Amount.check_wide wide]

/-- A read takes its answer off the front of what is left. -/
theorem reads (unread : Unread s i left) {size : Int} (fits : Amount.Fits size) :
    (s.perform (.read i size)).1 = .ok (.content (left.take (Handle.portion left size))) ∧
      Unread (s.perform (.read i size)).2 i (left.drop (Handle.portion left size)) := by
  have turned : handle (s.perform (.read i size)).2.world i = ((handle s.world i).read size).2 :=
    handle_setHandle unread.there _
  have answer := congrArg Prod.fst (perform_read s i size)
  rw [unread.read_eq fits] at turned answer
  exact ⟨answer, by rw [turned]; exact unread.isOpen, by rw [turned]⟩

theorem refuses (unread : Unread s i left) {size : Int} (wide : ¬Amount.Fits size) :
    s.perform (.read i size) = (.error Amount.tooWide.error, s) := by
  rw [perform_read, unread.read_wide wide, setHandle_handle]
  rfl

/-- A call that neither reads from the handle nor closes it leaves what is left. -/
theorem stays (unread : Unread s i left) {c : Call} (apart : ∀ size, c ≠ .read i size) (kept : c ≠ .close i) :
    Unread (s.perform c).2 i left := by
  by_cases own : c.number? = some i
  · cases c with
    | on _ _ | stat _ => cases own
    | read j size =>
      obtain rfl := Option.some.inj own
      exact absurd rfl (apart size)
    | close j =>
      obtain rfl := Option.some.inj own
      exact absurd rfl kept
    | write j data =>
      obtain rfl := Option.some.inj own
      have turned : handle (s.perform (.write j data)).2.world j = ((handle s.world j).write data).2 :=
        handle_setHandle unread.there _
      apply unread.congr
      all_goals
        rw [turned]
        rcases (handle s.world j).write_cases data with ⟨fault, refused⟩ | ⟨collected, -, taken⟩
        · rw [refused]
        · rw [taken]
    | list j n =>
      obtain rfl := Option.some.inj own
      have turned : handle (s.perform (.list j n)).2.world j = ((handle s.world j).list n
          (listing (handle s.world j).view (handle s.world j).name s.world)).2 := handle_setHandle unread.there _
      obtain ⟨listed, listing, cursor, state⟩ := (handle s.world j).list_turned n
        (listing (handle s.world j).view (handle s.world j).name s.world)
      rw [state] at turned
      apply unread.congr
      all_goals rw [turned]
  · have same := handle_perform_ne unread.there own
    exact unread.congr (congrArg Handle.closed same) (congrArg Handle.reader same)

/-- What a call delivers and what is left after it make what was left before. -/
theorem perform (unread : Unread s i left) {c : Call} (kept : c ≠ .close i) :
    ∃ rest, left = c.delivers i (s.perform c).1 ++ rest ∧ Unread (s.perform c).2 i rest := by
  by_cases read : ∃ size, c = .read i size
  · obtain ⟨size, rfl⟩ := read
    by_cases fits : Amount.Fits size
    · obtain ⟨answer, next⟩ := unread.reads fits
      refine ⟨_, ?_, next⟩
      rw [answer, Call.delivers, if_pos rfl, List.take_append_drop]
    · rw [unread.refuses fits]
      exact ⟨left, rfl, unread⟩
  · have apart (size : Int) : c ≠ .read i size := fun same => read ⟨size, same⟩
    refine ⟨left, ?_, unread.stays apart kept⟩
    unfold Call.delivers
    split
    · next j size _ _ =>
      rw [if_neg fun same => apart size (by rw [same])]
      rfl
    · rfl

/-- What was delivered and what is left make what was left at the beginning. -/
theorem after (unread : Unread s i left) {calls : List Call} (kept : .close i ∉ calls) :
    ∃ rest, left = delivered i (s.transcript calls) ++ rest ∧ Unread (s.after calls) i rest := by
  induction calls generalizing s left with
  | nil => exact ⟨left, rfl, unread⟩
  | cons c calls ih =>
    obtain ⟨first, later⟩ := not_or.1 (mt List.mem_cons.2 kept)
    obtain ⟨rest, split, unread⟩ := unread.perform (Ne.symm first)
    obtain ⟨rest', split', unread⟩ := ih unread later
    refine ⟨rest', ?_, unread⟩
    rw [split, split', ← List.append_assoc]
    rfl

/-- After a read of a negative size nothing is left. -/
theorem drained (unread : Unread s i left) {calls : List Call} (kept : .close i ∉ calls) {size : Int}
    (fits : Amount.Fits size) (negative : size < 0) (read : .read i size ∈ calls) :
    delivered i (s.transcript calls) = left := by
  induction calls generalizing s left with
  | nil => exact absurd read List.not_mem_nil
  | cons c calls ih =>
    obtain ⟨first, later⟩ := not_or.1 (mt List.mem_cons.2 kept)
    have unfolded : delivered i (s.transcript (c :: calls)) =
        c.delivers i (s.perform c).1 ++ delivered i ((s.perform c).2.transcript calls) := rfl
    obtain rfl | member := List.mem_cons.1 read
    · obtain ⟨answer, next⟩ := unread.reads fits
      have all : Handle.portion left size = left.length := if_pos negative
      rw [all, List.take_length] at answer
      rw [all, List.drop_length] at next
      obtain ⟨rest, nothing, -⟩ := next.after later
      obtain ⟨unread, -⟩ := List.append_eq_nil_iff.1 nothing.symm
      rw [unfolded, unread, answer, Call.delivers, if_pos rfl, List.append_nil]
    · obtain ⟨rest, split, unread⟩ := unread.perform (Ne.symm first)
      rw [unfolded, ih unread later member, split]

end Unread

/-- What a read answers of what is left is a piece of it. -/
theorem piece_take (before left : Bytes) (size : Int) :
    Piece size (before ++ left) before (left.take (Handle.portion left size)) := by
  constructor
  · exact (List.prefix_append_right_inj before).2 (List.take_prefix _ left)
  · intro positive
    rw [Handle.portion, if_neg (by omega), List.length_take]
    omega
  · intro positive nothing
    rw [Handle.portion, if_neg (by omega), List.take_eq_nil_iff] at nothing
    obtain zero | rfl := nothing
    · omega
    · rw [List.append_nil]
  · intro negative
    rw [Handle.portion, if_pos negative, List.take_length]

/-- A handle that is opened on a file has its content left to read. -/
theorem opens_unread (s : Session) (v : Nat) {name : Text} (stored : content (s.root v) s.store name = .ok data) :
    ∃ i h, (s.perform (.on v (.openFile name))).1 = .ok (.handle i h) ∧
      Unread (s.perform (.on v (.openFile name))).2 i data := by
  obtain ⟨e, located, file, rfl⟩ := content_eq_ok.1 stored
  let h : Handle := .ofContent ⟨0, s.root v⟩ name e.mode e.data
  have opened : opening (openFile ⟨0, s.root v⟩ name) s.world =
      (.ok (.handle s.world.memoryHandles.size h), (newFile h s.world).2) := by
    rw [opening_openFile, ← Session.store, located]
    dsimp only
    rw [file]
    rfl
  have ran : s.perform (.on v (.openFile name)) = (.ok (.handle s.world.memoryHandles.size h),
      ⟨(newFile h s.world).2, s.roots⟩) := by
    rw [perform_on, Request.ask, opened]
    exact congrArg (fun roots => (_, Session.mk _ roots)) (List.append_nil s.roots)
  have fresh : handle (newFile h s.world).2 s.world.memoryHandles.size = h := handle_newFile h s.world
  refine ⟨s.world.memoryHandles.size, h, congrArg Prod.fst ran, ?_⟩
  rw [ran]
  exact ⟨congrArg Handle.closed fresh, congrArg Handle.reader fresh⟩

/-- **A handle opened on a file reads a snapshot** of its content: whatever is called in between, what it delivers is
the content at the time it was opened, from the beginning on, until the handle is closed. -/
theorem reads_snapshot (s : Session) (v : Nat) {name : Text} (stored : content (s.root v) s.store name = .ok data) :
    ∃ i h, (s.perform (.on v (.openFile name))).1 = .ok (.handle i h) ∧
      ∀ calls, .close i ∉ calls → ReadsOut (s.perform (.on v (.openFile name))).2 i data calls := by
  obtain ⟨i, h, opened, unread⟩ := opens_unread s v stored
  refine ⟨i, h, opened, fun calls kept => ?_⟩
  obtain ⟨rest, split, next⟩ := unread.after kept
  refine ⟨⟨rest, split.symm⟩, fun size fits => ⟨_, (next.reads fits).1, ?_⟩, fun size wide => next.refuses wide,
    fun size fits negative read => unread.drained kept fits negative read⟩
  have piece := piece_take (delivered i ((s.perform (.on v (.openFile name))).2.transcript calls)) rest size
  rwa [← split] at piece

/-- A session in which a file was written. -/
def saved : Session := start.after [.on 0 (.write [.char 'f'] [104, 105] 0o644)]

theorem content_saved : content (saved.root 0) saved.store [.char 'f'] = .ok [104, 105] := by decide +kernel

/-- A file is replaced by a directory while it is read. -/
theorem reads_snapshot_replaced :
    ∃ i h, (saved.perform (.on 0 (.openFile [.char 'f']))).1 = .ok (.handle i h) ∧
      ReadsOut (saved.perform (.on 0 (.openFile [.char 'f']))).2 i [104, 105]
        [.read i 1, .on 0 (.removeAll [.char 'f']), .on 0 (.mkdirAll [.char 'f'] 0o777), .read i (-1)] := by
  obtain ⟨i, h, opened, reads⟩ := reads_snapshot saved 0 content_saved
  exact ⟨i, h, opened, reads _ (by simp)⟩

/-- A negative size that does not fit into a word delivers nothing. -/
theorem not_reads_rest :
    ¬∀ (s : Session) (v i : Nat) (name : Text) (h : Handle) (data : Bytes) (size : Int),
      content (s.root v) s.store name = .ok data →
      (s.perform (.on v (.openFile name))).1 = .ok (.handle i h) → size < 0 →
      ((s.perform (.on v (.openFile name))).2.perform (.read i size)).1 = .ok (.content data) := by
  intro rest
  obtain ⟨i, h, opened, unread⟩ := opens_unread saved 0 content_saved
  have answered := rest saved 0 i [.char 'f'] h [104, 105] (-Amount.largest - 2) content_saved opened (by decide)
  rw [unread.refuses (by unfold Amount.Fits; decide)] at answered
  cases answered

end Vfs.Memory
