import Vfs.Proofs.Memory.Laying

/-!
# Laying rows one after the other

`found` tells what stands at each row of a source. When some of its rows were laid in a store, each one behind its
directory, `Spread` says what the store came to: each of those rows has what was laid there onto what stood there
before, the way to the first has directories, and all else is as it was.
-/

namespace Vfs.Memory
set_option autoImplicit false
open Vfs.Path

variable {found found' : List Text → Option Entry} {s t u : Store Entry} {ds rs bs : List Text}
  {done : List (List Text)} {e : Entry} {k root : Text}

theorem Made.trans (first : Made root s t) (second : Made root t u) : Made root s u := by
  induction second with
  | refl => exact first
  | put _ missing fitting place ih => exact ih.put missing fitting place
  | write data _ stored file ih => exact ih.write data stored file

/-- A tree stays one while entries are made, if the root they are seen from is stored. -/
theorem Linked.made (linked : Linked s) (there : IsDirectory s root) (made : Made root s t) : Linked t := by
  intro k e stored proper
  rcases (linked_iff.1 linked).made made k e stored proper with up | ⟨⟨⟩⟩ | ⟨-, missing⟩
  · exact up
  · obtain ⟨d, stored, -⟩ := there
    rw [missing] at stored
    cases stored

/-- Some rows of a source were laid in the store `s`, seen from the root of `ds`. -/
structure Spread (found : List Text → Option Entry) (s : Store Entry) (ds rs : List Text)
    (done : List (List Text)) (t : Store Entry) : Prop where
  rows : ∀ bs ∈ done, Names bs ∧ rs <+: bs
  sound : t.Sound
  made : Made (ofReduced true ds) s t
  laid : ∀ bs ∈ done, ∃ e, found bs = some e ∧
    (∀ o, s.get? (ofReduced true (ds ++ bs)) = some o → o.directory = e.directory) ∧
    t.get? (ofReduced true (ds ++ bs)) =
      some (e.onto (rootName (ofReduced true (ds ++ bs))) (s.get? (ofReduced true (ds ++ bs))))
  kept : ∀ k o, s.get? k = some o → (∀ bs ∈ done, k ≠ ofReduced true (ds ++ bs)) → t.get? k = some o
  new : ∀ k, s.get? k = none → (t.get? k).isSome = true → (∃ bs ∈ done, k = ofReduced true (ds ++ bs)) ∨
    done ≠ [] ∧ ∃ front, front <+: rs ∧ k = ofReduced true (ds ++ front)

/-- A row that comes next: it was not laid before, and its directory was, unless it is the first row. -/
structure Next (rs : List Text) (done : List (List Text)) (bs : List Text) : Prop where
  fresh : bs ∉ done
  place : done = [] ∧ bs = rs ∨ ∃ p c, bs = p ++ [c] ∧ p ∈ done

/-- Nothing stands where the rows of a source go but entries of their kind, and directories on the way. -/
structure Clear (found : List Text → Option Entry) (s : Store Entry) (ds rs : List Text) : Prop where
  way : ∀ front, front <+: rs → front ≠ rs → ∀ o, s.get? (ofReduced true (ds ++ front)) = some o →
    o.directory = true
  kind : ∀ bs e o, Names bs → rs <+: bs → found bs = some e → s.get? (ofReduced true (ds ++ bs)) = some o →
    o.directory = e.directory

theorem spread_nil (sound : s.Sound) : Spread found s ds rs [] s where
  rows := fun bs member => absurd member List.not_mem_nil
  sound := sound
  made := .refl
  laid := fun bs member => absurd member List.not_mem_nil
  kept := fun k o stored _ => stored
  new := by
    intro k missing stored
    rw [missing] at stored
    cases stored

namespace Spread

variable (spread : Spread found s ds rs done t)
include spread

/-- Only what is found at the rows that were laid matters. -/
theorem congr (same : ∀ bs ∈ done, found' bs = found bs) : Spread found' s ds rs done t where
  rows := spread.rows
  sound := spread.sound
  made := spread.made
  laid := by
    intro bs member
    rw [same bs member]
    exact spread.laid bs member
  kept := spread.kept
  new := spread.new

theorem stored (member : bs ∈ done) : (t.get? (ofReduced true (ds ++ bs))).isSome = true := by
  obtain ⟨e, -, -, there⟩ := spread.laid bs member
  rw [there, Option.isSome_some]

/-- All rows that come are at or below the first. -/
theorem below (next : Next rs done bs) : rs <+: bs := by
  rcases next.place with ⟨-, rfl⟩ | ⟨p, c, rfl, above⟩
  · exact List.prefix_refl _
  · exact (spread.rows p above).2.trans (List.prefix_append p [c])

variable (hd : Names ds)
include hd

theorem key_ne (names : Names bs) (fresh : bs ∉ done) :
    ∀ row ∈ done, ofReduced true (ds ++ bs) ≠ ofReduced true (ds ++ row) := by
  intro row member same
  exact fresh (ofReduced_append_inj hd names (spread.rows row member).1 same ▸ member)

/-- Where the next row goes stands what stood there in the beginning. -/
theorem before (names : Names bs) (next : Next rs done bs) :
    t.get? (ofReduced true (ds ++ bs)) = s.get? (ofReduced true (ds ++ bs)) := by
  have apart := spread.key_ne hd names next.fresh
  cases stood : s.get? (ofReduced true (ds ++ bs)) with
  | some o => exact spread.kept _ o stood apart
  | none =>
    by_contra present
    rcases spread.new _ stood (Option.isSome_iff_ne_none.2 present) with
      ⟨row, member, same⟩ | ⟨begun, front, behind, same⟩
    · exact apart row member same
    · -- All rows are longer than the way to the first.
      rcases next.place with ⟨unbegun, -⟩ | ⟨p, c, rfl, member⟩
      · exact begun unbegun
      · obtain ⟨hp, first⟩ := spread.rows p member
        have row := ofReduced_append_inj hd names (hp.ahead (behind.trans first)) same
        have short := behind.length_le
        have long := first.length_le
        rw [← row, List.length_append, List.length_singleton] at short
        omega

variable (linked : Linked s) (there : IsDirectory s (ofReduced true ds))
include linked there

/-- One row more. -/
theorem step (names : Names bs) (next : Next rs done bs) (here : found bs = some e) (sane : Sane e)
    (laid : (lay (ofReduced true ds) (ofReduced false bs) e t).1 = .ok ()) :
    Spread found s ds rs (done ++ [bs]) (lay (ofReduced true ds) (ofReduced false bs) e t).2 := by
  have apart := spread.key_ne hd names next.fresh
  have key : key (ofReduced true ds) (ofReduced false bs) = ofReduced true (ds ++ bs) := key_ofReduced hd names
  have stood := spread.before hd names next
  constructor
  · intro row member
    rcases List.mem_append.1 member with before | last
    · exact spread.rows row before
    · obtain rfl := List.mem_singleton.1 last
      exact ⟨names, spread.below next⟩
  · exact sound_lay spread.sound _ _ e
  · exact spread.made.trans (made_lay (isRoot_ofReduced hd) _ e t)
  · intro row member
    rcases List.mem_append.1 member with before | last
    · obtain ⟨e', here', kind, stored⟩ := spread.laid row before
      exact ⟨e', here', kind, lay_kept (fun same => apart row before (key ▸ same).symm) stored⟩
    · obtain rfl := List.mem_singleton.1 last
      have kind := lay_ok hd names laid
      have stored := lay_end hd names sane laid
      rw [stood] at kind stored
      exact ⟨e, here, kind, stored⟩
  · intro k o stored beside
    have other : k ≠ ofReduced true (ds ++ bs) :=
      beside bs (List.mem_append_right _ (List.mem_singleton_self bs))
    refine lay_kept (by rwa [key]) (spread.kept k o stored fun row before => ?_)
    exact beside row (List.mem_append_left _ before)
  · intro k missing stored
    by_cases before : (t.get? k).isSome = true
    · rcases spread.new k missing before with ⟨row, member, same⟩ | ⟨begun, way⟩
      · exact .inl ⟨row, List.mem_append_left _ member, same⟩
      · exact .inr ⟨by simp, way⟩
    · have onWay : ∃ front, front <+: bs ∧ k = ofReduced true (ds ++ front) := by
        by_contra beside
        rw [lay_apart hd names fun front ahead same => beside ⟨front, ahead, same⟩] at stored
        exact before stored
      obtain ⟨front, ahead, rfl⟩ := onWay
      rcases next.place with ⟨-, rfl⟩ | ⟨p, c, rfl, above⟩
      · exact .inr ⟨by simp, front, ahead, rfl⟩
      · rcases List.prefix_concat_iff.1 ahead with rfl | ahead
        · exact .inl ⟨_, List.mem_append_right _ (List.mem_singleton_self _), rfl⟩
        · -- The directory of the row is stored, and so all above it is.
          obtain ⟨rest, rfl⟩ := ahead
          have whole := names_append.2 ⟨hd, (names_append.1 names).1⟩
          rw [← List.append_assoc] at whole
          have bare := (linked.made there spread.made).bare (Option.not_isSome_iff_eq_none.1 before) whole
          have present := spread.stored above
          rw [← List.append_assoc, bare] at present
          cases present

/-- Where nothing is in the way, the next row can be laid. -/
theorem lays (clear : Clear found s ds rs) (names : Names bs) (next : Next rs done bs) (here : found bs = some e)
    (above : ∀ p c, bs = p ++ [c] → ∃ d, found p = some d ∧ d.directory = true) :
    (lay (ofReduced true ds) (ofReduced false bs) e t).1 = .ok () := by
  refine lay_free hd names (spread.made.isDirectory there) (fun front ahead proper o stored => ?_) fun o stored => ?_
  · rcases next.place with ⟨rfl, rfl⟩ | ⟨p, c, rfl, member⟩
    · refine clear.way front ahead proper o ?_
      cases stood : s.get? (ofReduced true (ds ++ front)) with
      | some o' =>
        have kept := spread.kept _ o' stood fun row member => absurd member List.not_mem_nil
        rw [← kept, stored]
      | none =>
        rcases spread.new _ stood (by rw [stored, Option.isSome_some]) with ⟨row, member, -⟩ | ⟨begun, -⟩
        · exact absurd member List.not_mem_nil
        · exact absurd rfl begun
    · obtain ⟨d, here', directory⟩ := above p c rfl
      obtain ⟨d', found', kind, laid⟩ := spread.laid p member
      obtain rfl := Option.some.inj (here'.symm.trans found')
      have up : IsDirectory t (ofReduced true (ds ++ p)) := ⟨_, laid, (Entry.directory_onto kind).trans directory⟩
      obtain ⟨rest, rfl⟩ : front <+: p := by
        rcases List.prefix_concat_iff.1 ahead with whole | ahead
        · exact absurd whole proper
        · exact ahead
      have whole := names_append.2 ⟨hd, (names_append.1 names).1⟩
      rw [← List.append_assoc] at whole up
      obtain ⟨o', stored', directory'⟩ := (linked.made there spread.made).onWay whole up
      rw [stored] at stored'
      obtain rfl := Option.some.inj stored'
      exact directory'
  · rw [spread.before hd names next] at stored
    exact clear.kind bs e o names (spread.below next) here stored

omit hd linked there in
/-- What is laid once more changes nothing. -/
theorem again (whole : Linked t) (first : rs ∈ done) (hd : Names ds) (twice : Spread found t ds rs done u)
    (k : Text) : u.get? k = t.get? k := by
  by_cases row : ∃ bs ∈ done, k = ofReduced true (ds ++ bs)
  · obtain ⟨bs, member, rfl⟩ := row
    obtain ⟨e, here, -, stood⟩ := spread.laid bs member
    obtain ⟨e', here', -, stored⟩ := twice.laid bs member
    obtain rfl := Option.some.inj (here.symm.trans here')
    rw [stored, stood, Entry.onto_again]
  · have beside : ∀ bs ∈ done, k ≠ ofReduced true (ds ++ bs) := fun bs member same => row ⟨bs, member, same⟩
    cases stood : t.get? k with
    | some o => exact twice.kept k o stood beside
    | none =>
      by_contra present
      rcases twice.new k stood (Option.isSome_iff_ne_none.2 present) with ⟨bs, member, same⟩ | ⟨-, front, ahead, rfl⟩
      · exact beside bs member same
      · -- The way to the first row is stored, since the row is.
        obtain ⟨back, rfl⟩ := ahead
        have names := names_append.2 ⟨hd, (spread.rows _ first).1⟩
        have there := spread.stored first
        rw [← List.append_assoc] at names there
        rw [whole.bare stood names] at there
        cases there

end Spread

end Vfs.Memory
