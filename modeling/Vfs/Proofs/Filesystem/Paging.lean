import Mathlib.Data.List.Induction
import Vfs.Entry.Page
import Vfs.Info
import Vfs.Proofs.Action

/-!
# Listing page by page

Calls for pages are told one after the other, each with its size, with what the directory had to list when it was
made, and with its answer (`PageCall`). `Paged` says that they page through one listing. A handle keeps its
`Progress`, and each of its calls is a `Step`: it is refused before there is a listing, or it takes a page at the
cursor. However many steps there are, they page through the listing that was there at the first call that was not
refused (`Steps.paged`).
-/

namespace Vfs
set_option autoImplicit false

/-! ## What is said about calls for pages -/

/-- A call for a page: its size, what listing the directory answers at the time, and what the call answered. -/
structure PageCall where
  size : Int
  current : Except Error (List Info)
  answer : Except Error (List Info)

namespace PageCall

/-- The call failed with a path failure. -/
def refused (c : PageCall) : Bool :=
  match c.answer with
  | .error e => e.isPath
  | .ok _ => false

/-- What the call delivered. -/
def page (c : PageCall) : List Info := c.answer.toOption.getD []

end PageCall

/-- What calls delivered, one page after the other. -/
def pagesOf (calls : List PageCall) : List Info := calls.flatMap PageCall.page

/-- The listing that the directory had at the first call that was not refused. -/
def listingOf : List PageCall → Option (List Info)
  | [] => none
  | c :: rest => if c.refused then listingOf rest else c.current.toOption

/-- The answer to a call for a page of some size where these entries are left. -/
structure PageAnswer (left : List Info) (size : Int) (answer : Except Error (List Info)) : Prop where
  full : 0 < size → left ≠ [] →
    ∃ page, answer = .ok page ∧ page <+: left ∧ page.length = min size.toNat left.length
  dry : 0 < size → left = [] → answer = .error Fault.endOfDirectory.error
  rest : size ≤ 0 → answer = .ok left

/-- Calls that page through one listing. A call is refused only where the directory cannot be listed, and has not
been yet; every other call is answered from what is left of the listing behind the pages before it. -/
structure Paged (calls : List PageCall) : Prop where
  part : pagesOf calls <+: (listingOf calls).getD []
  answered : ∀ before c after, calls = before ++ c :: after → c.refused = false → ∃ left,
    listingOf (before ++ [c]) = some (pagesOf before ++ left) ∧ PageAnswer left c.size c.answer
  refused : ∀ before c after, calls = before ++ c :: after → c.refused = true →
    listingOf before = none ∧ c.answer = c.current

/-! ## One page -/

variable {entries : List Info} {cursor : Nat} {n : Int}

/-- The page at a cursor, and where the cursor is then: an error leaves it. -/
def takePage (entries : List Info) (cursor : Nat) (n : Int) : Except Error (List Info) × Nat :=
  match nextPage entries cursor n with
  | .error fault => (.error fault.error, cursor)
  | .ok (page, cursor) => (.ok page, cursor)

/-- The number of entries on a page of some size, where `left` are left. -/
def pageLength (left : Nat) (n : Int) : Nat := if n ≤ 0 then left else min n.toNat left

theorem takePage_dry (positive : 0 < n) (done : entries.length ≤ cursor) :
    takePage entries cursor n = (.error Fault.endOfDirectory.error, cursor) := by
  have nothing : entries.length - cursor = 0 := by omega
  have asked : ¬n ≤ 0 := by omega
  rw [takePage, nextPage, if_pos nothing, if_neg asked]

theorem takePage_eq (within : 0 < n → cursor < entries.length) :
    takePage entries cursor n = (.ok ((entries.drop cursor).take (pageLength (entries.length - cursor) n)),
      cursor + pageLength (entries.length - cursor) n) := by
  unfold takePage nextPage
  by_cases done : entries.length - cursor = 0
  · have whole : n ≤ 0 := by omega
    rw [if_pos done, if_pos whole, pageLength, if_pos whole, done, List.take_zero]
    rfl
  · have count : (if n ≤ 0 ∨ n > ((entries.length - cursor : Nat) : Int) then entries.length - cursor else n.toNat) =
        pageLength (entries.length - cursor) n := by
      unfold pageLength
      split
      · split
        · rfl
        · omega
      · rw [if_neg (by omega)]
        omega
    simp only [if_neg done, count]

/-- The entries behind the cursor are what is left. -/
theorem pageAnswer_takePage (entries : List Info) (cursor : Nat) (n : Int) :
    PageAnswer (entries.drop cursor) n (takePage entries cursor n).1 where
  full := by
    intro positive more
    have within : cursor < entries.length := by
      by_contra done
      exact more (List.drop_eq_nil_of_le (Nat.le_of_not_lt done))
    refine ⟨_, congrArg Prod.fst (takePage_eq fun _ => within), List.take_prefix _ _, ?_⟩
    rw [List.length_take, List.length_drop, pageLength, if_neg (by omega)]
    omega
  dry := by
    intro positive done
    rw [takePage_dry positive (List.drop_eq_nil_iff.1 done)]
  rest := by
    intro whole
    rw [takePage_eq (by omega), pageLength, if_pos whole, ← List.length_drop, List.take_length]

/-- The cursor goes on by what is delivered. -/
theorem take_takePage (within : cursor ≤ entries.length) :
    (takePage entries cursor n).2 ≤ entries.length ∧
      entries.take (takePage entries cursor n).2 =
        entries.take cursor ++ (takePage entries cursor n).1.toOption.getD [] := by
  by_cases dry : 0 < n ∧ entries.length ≤ cursor
  · rw [takePage_dry dry.1 dry.2]
    exact ⟨within, (List.append_nil _).symm⟩
  · rw [takePage_eq (by omega)]
    refine ⟨?_, List.take_add⟩
    dsimp only [pageLength]
    split
    · omega
    · omega

/-! ## One call -/

/-- How far a handle is: it has no listing yet, or a listing with a cursor. -/
abbrev Progress := Option (List Info × Nat)

/-- What a call for a page makes of the progress. -/
inductive Step : Progress → PageCall → Progress → Prop
  | refused {c : PageCall} {e : Error} (path : e.isPath = true) (current : c.current = .error e)
      (answer : c.answer = .error e) : Step none c none
  | fetched {c : PageCall} {entries : List Info} (current : c.current = .ok entries)
      (answer : c.answer = (takePage entries 0 c.size).1) :
      Step none c (some (entries, (takePage entries 0 c.size).2))
  | again {c : PageCall} {entries : List Info} {cursor : Nat} (answer : c.answer = (takePage entries cursor c.size).1) :
      Step (some (entries, cursor)) c (some (entries, (takePage entries cursor c.size).2))

/-- One step for each of some calls. -/
inductive Steps : Progress → List PageCall → Progress → Prop
  | nil (p : Progress) : Steps p [] p
  | cons {p p' p'' : Progress} {c : PageCall} {calls : List PageCall} (first : Step p c p')
      (later : Steps p' calls p'') : Steps p (c :: calls) p''

variable {p p' p'' : Progress} {c : PageCall} {calls calls' : List PageCall}

/-- An error of a page is no path failure. -/
theorem refused_takePage (answer : c.answer = (takePage entries cursor n).1) : c.refused = false := by
  rw [PageCall.refused, answer]
  by_cases dry : 0 < n ∧ entries.length ≤ cursor
  · rw [takePage_dry dry.1 dry.2]
    rfl
  · rw [takePage_eq (by omega)]

/-! ## One call after the other -/

namespace Steps

theorem append_iff : Steps p (calls ++ calls') p'' ↔ ∃ p', Steps p calls p' ∧ Steps p' calls' p'' := by
  induction calls generalizing p with
  | nil =>
    constructor
    · intro later
      exact ⟨p, .nil p, later⟩
    · rintro ⟨p', stays, later⟩
      cases stays
      exact later
  | cons c calls ih =>
    constructor
    · intro steps
      cases steps with
      | cons first later =>
        obtain ⟨p', before, behind⟩ := ih.1 later
        exact ⟨p', .cons first before, behind⟩
    · rintro ⟨p', before, behind⟩
      cases before with
      | cons first later => exact .cons first (ih.2 ⟨p', later, behind⟩)

theorem cons_iff : Steps p (c :: calls) p'' ↔ ∃ p', Step p c p' ∧ Steps p' calls p'' := by
  constructor
  · intro steps
    cases steps with
    | cons first later => exact ⟨_, first, later⟩
  · rintro ⟨p', first, later⟩
    exact .cons first later

end Steps

theorem listingOf_append_refused (refused : ∀ c ∈ calls, c.refused = true) :
    listingOf (calls ++ calls') = listingOf calls' := by
  induction calls with
  | nil => rfl
  | cons c calls ih =>
    obtain ⟨first, later⟩ := List.forall_mem_cons.1 refused
    rw [List.cons_append, listingOf, if_pos first, ih later]

theorem listingOf_append_answered (answered : ∃ c ∈ calls, c.refused = false) :
    listingOf (calls ++ calls') = listingOf calls := by
  induction calls with
  | nil =>
    obtain ⟨c, member, -⟩ := answered
    exact absurd member List.not_mem_nil
  | cons c calls ih =>
    rw [List.cons_append, listingOf, listingOf]
    by_cases first : c.refused = true
    · obtain ⟨d, member, own⟩ := answered
      rcases List.mem_cons.1 member with rfl | later
      · exact absurd first (by simp [own])
      · rw [if_pos first, if_pos first, ih ⟨d, later, own⟩]
    · rw [if_neg first, if_neg first]

/-- What the calls so far made of a handle: it has the listing of them, and the cursor is behind what they
delivered. -/
def Progress.Tells (calls : List PageCall) : Progress → Prop
  | none => (∀ c ∈ calls, c.refused = true) ∧ pagesOf calls = []
  | some (entries, cursor) => (∃ c ∈ calls, c.refused = false) ∧ listingOf calls = some entries ∧
      cursor ≤ entries.length ∧ pagesOf calls = entries.take cursor

/-- A step goes on from what the calls so far made. -/
theorem Step.tells (step : Step p c p') (told : p.Tells calls) : p'.Tells (calls ++ [c]) := by
  have flat : pagesOf (calls ++ [c]) = pagesOf calls ++ c.page := by simp [pagesOf]
  have last : c ∈ calls ++ [c] := List.mem_append_right _ (List.mem_singleton_self c)
  cases step with
  | @refused _ e path current answer =>
    obtain ⟨refused, delivered⟩ := told
    have own : c.refused = true := by rw [PageCall.refused, answer]; exact path
    refine ⟨List.forall_mem_append.2 ⟨refused, List.forall_mem_singleton.2 own⟩, ?_⟩
    rw [flat, delivered, PageCall.page, answer]
    rfl
  | @fetched _ entries current answer =>
    obtain ⟨refused, delivered⟩ := told
    have own := refused_takePage answer
    obtain ⟨within, taken⟩ := take_takePage (n := c.size) (Nat.zero_le entries.length)
    refine ⟨⟨c, last, own⟩, ?_, within, ?_⟩
    · rw [listingOf_append_refused refused, listingOf, if_neg (by simp [own]), current]
      rfl
    · rw [flat, delivered, taken, PageCall.page, answer]
      rfl
  | @again _ entries cursor answer =>
    obtain ⟨⟨d, member, first⟩, listed, before, delivered⟩ := told
    obtain ⟨within, taken⟩ := take_takePage (n := c.size) before
    refine ⟨⟨c, last, refused_takePage answer⟩, ?_, within, ?_⟩
    · rw [listingOf_append_answered ⟨d, member, first⟩, listed]
    · rw [flat, delivered, taken, PageCall.page, answer]

namespace Steps

theorem tells (steps : Steps p calls' p') (told : p.Tells calls) : p'.Tells (calls ++ calls') := by
  induction steps generalizing calls with
  | nil p => rwa [List.append_nil]
  | @cons p p₁ p₂ c rest first later ih =>
    have next := ih (first.tells told)
    rwa [List.append_assoc] at next

theorem start_tells (steps : Steps none calls p) : p.Tells calls := by
  have start : Progress.Tells [] none := ⟨fun _ member => absurd member List.not_mem_nil, rfl⟩
  exact steps.tells start

/-- Calls from the beginning on page through one listing. -/
theorem paged (steps : Steps none calls p) : Paged calls where
  part := by
    have told := steps.start_tells
    cases p with
    | none =>
      rw [told.2]
      exact List.nil_prefix
    | some progress =>
      obtain ⟨entries, cursor⟩ := progress
      obtain ⟨-, listed, -, delivered⟩ := told
      rw [listed, delivered]
      exact List.take_prefix cursor entries
  answered := by
    rintro before c after rfl own
    obtain ⟨p₁, front, back⟩ := append_iff.1 steps
    obtain ⟨p₂, step, -⟩ := cons_iff.1 back
    have told := front.start_tells
    have told' := step.tells told
    cases step with
    | @refused _ e path current answer =>
      rw [PageCall.refused, answer] at own
      exact absurd path (by simpa using own)
    | @fetched _ entries current answer =>
      refine ⟨entries, ?_, answer ▸ pageAnswer_takePage entries 0 c.size⟩
      rw [told'.2.1, told.2, List.nil_append]
    | @again _ entries cursor answer =>
      refine ⟨entries.drop cursor, ?_, answer ▸ pageAnswer_takePage entries cursor c.size⟩
      rw [told'.2.1, told.2.2.2, List.take_append_drop]
  refused := by
    rintro before c after rfl own
    obtain ⟨p₁, front, back⟩ := append_iff.1 steps
    obtain ⟨p₂, step, -⟩ := cons_iff.1 back
    have told := front.start_tells
    cases step with
    | refused path current answer =>
      refine ⟨?_, answer.trans current.symm⟩
      have none : listingOf (before ++ []) = none := listingOf_append_refused told.1
      rwa [List.append_nil] at none
    | fetched current answer => exact absurd own (by simp [refused_takePage answer])
    | again answer => exact absurd own (by simp [refused_takePage answer])

end Steps

end Vfs
