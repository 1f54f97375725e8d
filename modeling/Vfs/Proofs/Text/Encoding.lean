import Vfs.Text.Encoding

/-!
# Texts there and back

Bytes are found again in the text they are read as (`bytes_decode`), so that a host hands back under a name what it
keeps under it, and two names that stand for the same bytes are one to it (`received_inj`). The other way round a text
that holds no surrogates comes back (`kept_of_characters`).
-/

namespace Vfs
set_option autoImplicit false

variable {c : Char} {b : UInt8} {bs rest : Bytes} {t : Text}

/-- A byte below 0x80 stands for one character alone. -/
theorem eq_singleton_of_mem_utf8EncodeChar (member : b ∈ String.utf8EncodeChar c) (low : b < 0x80) :
    String.utf8EncodeChar c = [b] := by
  have number : b.toNat < 0x80 := UInt8.lt_iff_toNat_lt.1 low
  unfold String.utf8EncodeChar at member ⊢
  dsimp only at member ⊢
  split
  · next one =>
    rw [if_pos one] at member
    rw [List.mem_singleton.1 member]
  · next more =>
    -- Every byte of the longer forms has its highest bit set.
    rw [if_neg more] at member
    split at member
    · simp only [List.mem_cons, List.not_mem_nil, or_false] at member
      rcases member with rfl | rfl
      all_goals simp only [UInt8.toNat_ofNat'] at number
      all_goals omega
    · split at member
      · simp only [List.mem_cons, List.not_mem_nil, or_false] at member
        rcases member with rfl | rfl | rfl
        all_goals simp only [UInt8.toNat_ofNat'] at number
        all_goals omega
      · simp only [List.mem_cons, List.not_mem_nil, or_false] at member
        rcases member with rfl | rfl | rfl | rfl
        all_goals simp only [UInt8.toNat_ofNat'] at number
        all_goals omega

namespace Text

theorem firstChar?_eq_some_iff : firstChar? bs = some c ↔ String.utf8EncodeChar c <+: bs := by
  have short : (String.utf8EncodeChar c).length ≤ 4 := by
    rw [String.length_utf8EncodeChar]
    exact c.utf8Size_le_four
  constructor
  · intro found
    obtain ⟨more, split⟩ := ByteArray.exists_of_utf8DecodeChar?_eq_some found
    have front : bs.take 4 = String.utf8EncodeChar c ++ more.data.toList := by
      have lists := congrArg (·.data.toList) split
      simpa using lists
    exact ⟨more.data.toList ++ bs.drop 4, by rw [← List.append_assoc, ← front, List.take_append_drop]⟩
  · rintro ⟨rest, rfl⟩
    rw [firstChar?, List.take_append, List.take_of_length_le short, List.toByteArray_append]
    exact ByteArray.utf8DecodeChar?_utf8EncodeChar_append

theorem decodeFrom_eq (skip : Nat) (bs : Bytes) : decodeFrom skip bs = decode (bs.drop skip) := by
  induction bs generalizing skip with
  | nil => cases skip <;> simp [decodeFrom, decode]
  | cons b bs ih =>
    cases skip with
    | zero => rfl
    | succ skip => exact ih skip

theorem decode_append (c : Char) (rest : Bytes) :
    decode (String.utf8EncodeChar c ++ rest) = .char c :: decode rest := by
  have begins : firstChar? (String.utf8EncodeChar c ++ rest) = some c :=
    firstChar?_eq_some_iff.2 (List.prefix_append ..)
  have length := String.length_utf8EncodeChar c
  cases bytes : String.utf8EncodeChar c with
  | nil =>
    rw [bytes, List.length_nil] at length
    exact absurd length.symm (Nat.pos_iff_ne_zero.1 c.utf8Size_pos)
  | cons b more =>
    rw [bytes] at begins length
    rw [List.cons_append, decode, decodeFrom]
    rw [List.cons_append] at begins
    simp only [begins]
    rw [decodeFrom_eq, ← length, List.length_cons, Nat.add_sub_cancel, List.drop_left]

theorem utf8EncodeChar_inj {d : Char} (same : String.utf8EncodeChar c = String.utf8EncodeChar d) : c = d := by
  have decoded (e : Char) : decode (String.utf8EncodeChar e) = [.char e] := by
    have whole := decode_append e []
    rwa [List.append_nil] at whole
  have chars := decoded c
  rw [same, decoded d] at chars
  exact (CodePoint.char.inj (List.cons.inj chars).1).symm

theorem decode_cons (stray : firstChar? (b :: rest) = none) : decode (b :: rest) = .ofByte b :: decode rest := by
  rw [decode, decodeFrom, stray]
  rfl

/-- Bytes are read from the front, one character at a time, or one byte where no character begins. -/
theorem decode_induction {P : Bytes → Text → Prop} (nil : P [] [])
    (character : ∀ c rest, P rest (decode rest) → P (String.utf8EncodeChar c ++ rest) (.char c :: decode rest))
    (byte : ∀ b rest, firstChar? (b :: rest) = none → P rest (decode rest) → P (b :: rest) (.ofByte b :: decode rest))
    (bs : Bytes) : P bs (decode bs) := by
  induction size : bs.length using Nat.strongRecOn generalizing bs with
  | _ n ih =>
    cases bs with
    | nil => exact nil
    | cons b rest =>
      cases first : firstChar? (b :: rest) with
      | none =>
        rw [decode_cons first]
        exact byte b rest first (ih rest.length (by rw [← size, List.length_cons]; omega) rest rfl)
      | some c =>
        obtain ⟨more, split⟩ := firstChar?_eq_some_iff.1 first
        have shorter : more.length < n := by
          have positive := c.utf8Size_pos
          rw [← size, ← split, List.length_append, String.length_utf8EncodeChar]
          omega
        rw [← split, decode_append]
        exact character c more (ih more.length shorter more rfl)

/-- A byte with which no character begins is not below 0x80. -/
theorem le_of_stray (stray : firstChar? (b :: rest) = none) : 0x80 ≤ b.toNat := by
  refine Nat.not_lt.1 fun low => ?_
  have valid : b.toNat.isValidChar := .inl (by omega)
  have alone : String.utf8EncodeChar (Char.ofNat b.toNat) = [b] := by
    have number : (Char.ofNat b.toNat).val.toNat = b.toNat := by
      rw [Char.ofNat, dif_pos valid]
      rfl
    rw [String.utf8EncodeChar, number]
    simp only [if_pos (show b.toNat ≤ 0x7f by omega), UInt8.ofNat_toNat]
  have begins : firstChar? (b :: rest) = some (Char.ofNat b.toNat) :=
    firstChar?_eq_some_iff.2 ⟨rest, by rw [alone]; rfl⟩
  rw [stray] at begins
  cases begins

/-- The surrogate that a stray byte is read as stands for the byte. -/
theorem ofByte_encodes (high : 0x80 ≤ b.toNat) :
    (CodePoint.ofByte b).isEncodable = true ∧ (CodePoint.ofByte b).bytes = [b] := by
  have bound := b.toNat_lt
  have encodable : (CodePoint.ofByte b).isEncodable = true := by
    simp only [CodePoint.ofByte, CodePoint.isEncodable, Bool.and_eq_true, decide_eq_true_eq]
    omega
  refine ⟨encodable, ?_⟩
  rw [CodePoint.ofByte] at encodable ⊢
  rw [CodePoint.bytes, if_pos encodable]
  simp

theorem bytes_cons (c : CodePoint) (t : Text) : bytes (c :: t) = c.bytes ++ bytes t := List.flatMap_cons

theorem bytes_append (s t : Text) : bytes (s ++ t) = bytes s ++ bytes t := List.flatMap_append

/-- **Bytes are found again in the text they are read as.** -/
theorem bytes_decode (bs : Bytes) : (decode bs).bytes = bs := by
  induction bs using decode_induction with
  | nil => rfl
  | character c rest ih => rw [bytes_cons, ih]; rfl
  | byte b rest stray ih => rw [bytes_cons, ih, (ofByte_encodes (le_of_stray stray)).2]; rfl

theorem isEncodable_decode (bs : Bytes) : (decode bs).isEncodable = true := by
  rw [isEncodable, List.all_eq_true]
  induction bs using decode_induction with
  | nil => exact fun _ member => absurd member List.not_mem_nil
  | character c rest ih => exact List.forall_mem_cons.2 ⟨rfl, ih⟩
  | byte b rest stray ih => exact List.forall_mem_cons.2 ⟨(ofByte_encodes (le_of_stray stray)).1, ih⟩

/-- A byte that stands for a character alone parts what is read before it from what is read behind. -/
theorem decode_append_cons (low : b < 0x80) (front : Bytes) :
    decode (front ++ b :: rest) = decode front ++ decode (b :: rest) := by
  induction front using decode_induction with
  | nil => rfl
  | character c front ih => rw [List.append_assoc, decode_append, ih]; rfl
  | byte a front stray ih =>
    have straying : firstChar? (a :: (front ++ b :: rest)) = none := by
      refine Option.eq_none_iff_forall_ne_some.2 fun c begins => ?_
      obtain ⟨more, split⟩ := firstChar?_eq_some_iff.1 begins
      rw [← List.cons_append] at split
      rcases List.append_eq_append_iff.1 split with ⟨back, own, -⟩ | ⟨back, whole, other⟩
      · -- The character would begin before the byte already.
        rw [firstChar?_eq_some_iff.2 ⟨back, own.symm⟩] at stray
        cases stray
      · cases back with
        | nil =>
          rw [firstChar?_eq_some_iff.2 ⟨[], by rw [List.append_nil, whole, List.append_nil]⟩] at stray
          cases stray
        | cons b' back =>
          obtain ⟨rfl, -⟩ := List.cons.inj other
          have inside : b ∈ String.utf8EncodeChar c := by simp [whole]
          rw [eq_singleton_of_mem_utf8EncodeChar inside low] at whole
          simp at whole
    rw [List.cons_append, decode_cons straying, ih]
    rfl

/-- A text of characters is handed back as it is. -/
theorem kept_of_characters (characters : ∀ c ∈ t, c.isSurrogate = false) : t.Kept := by
  have encodable : t.isEncodable = true := by
    refine List.all_eq_true.2 fun c member => ?_
    cases c with
    | char c => rfl
    | surrogate offset => cases characters _ member
  refine ⟨encodable, (if_pos encodable).trans ?_⟩
  clear encodable
  induction t with
  | nil => rfl
  | cons c t ih =>
    obtain ⟨first, later⟩ := List.forall_mem_cons.1 characters
    cases c with
    | char c => rw [bytes_cons, CodePoint.bytes, decode_append, ih later]
    | surrogate offset => cases first

/-! ## What a host hands back -/

theorem received_eq (encodable : t.isEncodable = true) : t.received = decode t.bytes := if_pos encodable

theorem bytes_received (t : Text) : t.received.bytes = t.bytes := by
  rw [received]
  split
  · exact bytes_decode _
  · rfl

theorem isEncodable_received (t : Text) : t.received.isEncodable = t.isEncodable := by
  rw [received]
  split
  · next encodable => rw [isEncodable_decode, encodable]
  · rfl

/-- Two texts that stand for the same bytes are handed back alike, and no others. -/
theorem received_inj {s t : Text} (encodable : s.isEncodable = true) (encodable' : t.isEncodable = true) :
    s.received = t.received ↔ s.bytes = t.bytes := by
  refine ⟨fun same => ?_, fun same => ?_⟩
  · rw [← bytes_received s, same, bytes_received]
  · rw [received_eq encodable, received_eq encodable', same]

/-- A character with a single byte is in a text where its byte is among the bytes. -/
theorem mem_bytes_iff (alone : String.utf8EncodeChar c = [b]) (low : b < 0x80) : b ∈ t.bytes ↔ .char c ∈ t := by
  rw [bytes, List.mem_flatMap]
  constructor
  · rintro ⟨d, member, inside⟩
    cases d with
    | char d =>
      have same : String.utf8EncodeChar d = String.utf8EncodeChar c :=
        (eq_singleton_of_mem_utf8EncodeChar inside low).trans alone.symm
      rwa [utf8EncodeChar_inj same] at member
    | surrogate offset =>
      rw [CodePoint.bytes] at inside
      split at inside
      · next high =>
        simp only [CodePoint.isEncodable, Bool.and_eq_true, decide_eq_true_eq] at high
        have number := UInt8.lt_iff_toNat_lt.1 low
        rw [List.mem_singleton.1 inside, UInt8.toNat_ofNat'] at number
        change _ < 0x80 at number
        omega
      · exact absurd inside List.not_mem_nil
  · intro member
    exact ⟨.char c, member, by rw [CodePoint.bytes, alone]; exact List.mem_singleton_self b⟩

theorem mem_received_iff (alone : String.utf8EncodeChar c = [b]) (low : b < 0x80) :
    .char c ∈ t.received ↔ .char c ∈ t := by
  rw [← mem_bytes_iff alone low, bytes_received, mem_bytes_iff alone low]

end Text

end Vfs
