import Vfs.Proofs.Memory.Stale
import Vfs.Proofs.Memory.SubView
import Vfs.Proofs.Memory.Walk

/-!
# One entry taken out

Taking out one entry asks neither what it is nor what stands below it. A tree stays one exactly where nothing
did; whatever stood below stays stored, and a walk that would come through the entry no longer reaches it
(`takesOut_remove`).
-/

namespace Vfs.Memory
set_option autoImplicit false
open Vfs.Path Session

variable {s : Store Entry} {as es ks : List Text} {name : Text}

/-- One session comes of another by the entry under a key being taken out, and nothing else. -/
structure TakesOut (s t : Session) (k : Text) : Prop where
  others : ∀ k', t.store.get? k' = if k' = k then none else s.store.get? k'
  /-- The tree is one still where nothing stood below the key. -/
  linked : Linked t.store ↔ ∀ k', Store.Under k k' → s.store.get? k' = none
  /-- A view walks to what is left, unless the key stood between. -/
  walked : ∀ u id name, isValid name = true → (t.store.get? (key (t.root u) name)).isSome = true →
    (name ∈ ((filesystem id ⟨0, t.root u⟩).walk here t.world).1.names ↔
      ¬(Store.Under k (key (t.root u) name) ∧ ¬Store.Under k (t.root u)))

/-- What stands below an entry keeps the tree from being one without it. -/
theorem linked_remove_iff (sound : s.Sound) (labelled : Labelled s) (linked : Linked s) (hk : Names ks) :
    Linked (s.remove (ofReduced true ks)) ↔
      ∀ k', Store.Under (ofReduced true ks) k' → s.get? k' = none := by
  constructor
  · intro still k' under
    by_contra present
    obtain ⟨e, stored⟩ := Option.ne_none_iff_exists'.1 present
    obtain ⟨es, he, rfl⟩ := isKey_iff.1 (labelled.keys k' e stored)
    have left : (s.remove (ofReduced true ks)).get? (ofReduced true es) = some e := by
      rw [Store.get?_remove sound, if_neg under.1, stored]
    obtain ⟨cs, hne, rfl⟩ := (under_iff hk he).1 under
    obtain ⟨d, there, -⟩ := still.above he hne left
    rw [Store.get?_remove sound, if_pos rfl] at there
    cases there
  · intro free
    exact linked_iff.2 ((linked_iff.1 linked).remove labelled sound free)

/-- The way down to what is left leads through no entry that was taken out. -/
theorem down_remove_iff (sound : s.Sound) (linked : Linked s) (hk : Names ks) (names : Names (as ++ es))
    (stored : ((s.remove (ofReduced true ks)).get? (ofReduced true (as ++ es))).isSome = true) :
    Down (s.remove (ofReduced true ks)) as es ↔
      ¬(Store.Under (ofReduced true ks) (ofReduced true (as ++ es)) ∧
        ¬Store.Under (ofReduced true ks) (ofReduced true as)) := by
  have ha := (names_append.1 names).1
  have gone : (s.remove (ofReduced true ks)).get? (ofReduced true ks) = none := by
    rw [Store.get?_remove sound, if_pos rfl]
  rw [down_iff, under_iff hk names, under_iff hk ha]
  constructor
  · rintro ⟨-, way⟩ ⟨⟨cs, hne, row⟩, above⟩
    have missed : ∀ front, ks = as ++ front → es = front ++ cs → False := by
      rintro front rfl rest
      obtain ⟨d, there, -⟩ := way front cs rest hne
      rw [gone] at there
      cases there
    rcases List.append_eq_append_iff.1 row with ⟨front, through, rest⟩ | ⟨ds, before, rest⟩
    · exact missed front through rest
    · by_cases top : ds = []
      · subst top
        exact missed [] (by rw [before, List.append_nil, List.append_nil]) rest.symm
      · exact above ⟨ds, top, before⟩
  · intro apart
    refine ⟨stored, fun front back row proper => ?_⟩
    subst row
    rw [← List.append_assoc] at names stored
    have other : ofReduced true (as ++ front) ≠ ofReduced true ks := by
      intro same
      obtain rfl := ofReduced_inj (names_append.1 names).1 hk same
      refine apart ⟨⟨back, proper, (List.append_assoc ..).symm⟩, ?_⟩
      rintro ⟨ds, hne, longer⟩
      rw [List.append_assoc] at longer
      exact hne (List.append_eq_nil_iff.1 (List.self_eq_append_right.1 longer)).2
    obtain ⟨e, there⟩ := Option.isSome_iff_exists.1 stored
    have before : s.get? (ofReduced true (as ++ front ++ back)) = some e := by
      rw [Store.get?_remove sound] at there
      split at there
      · cases there
      · exact there
    obtain ⟨d, found, kind⟩ := linked.above names proper before
    exact ⟨d, by rw [Store.get?_remove sound, if_neg other, found], kind⟩

/-- **Taking out an entry takes out nothing else**, and leaves a tree, and everything that is left in reach,
where nothing stood below. -/
theorem takesOut_remove {calls : List Call} (v : Nat) (linked : Linked (start.after calls).store)
    (valid : isValid name = true) :
    ((start.after calls).perform (.on v (.remove name))).1 = .ok .done ∧
      TakesOut (start.after calls) ((start.after calls).perform (.on v (.remove name))).2
        (key ((start.after calls).root v) name) := by
  obtain ⟨wired, sound, labelled⟩ := labelled_after calls
  have after := labelled_after (calls ++ [.on v (.remove name)])
  rw [after_snoc] at after
  generalize start.after calls = s at wired sound labelled linked after ⊢
  obtain ⟨wired', sound', labelled'⟩ := after
  obtain ⟨rs, hr, root⟩ := (wired.root v).names
  obtain ⟨ns, hn, rfl⟩ := isValid_iff_names.1 valid
  have hk := names_append.2 ⟨hr, hn⟩
  have left := store_perform wired (.on v (.remove (ofReduced false ns)))
  simp only [Call.effect, Request.effect, Memory.remove, valid, if_true] at left
  rw [root, key_ofReduced hr hn] at left ⊢
  have answer : (s.perform (.on v (.remove (ofReduced false ns)))).1 = .ok .done := by
    simp only [perform_on, Request.ask, telling_eq, change_eq, Memory.remove, valid, if_true]
    rfl
  generalize s.perform (.on v (.remove (ofReduced false ns))) = p at wired' sound' labelled' left answer ⊢
  refine ⟨answer, fun k' => by rw [left, Store.get?_remove sound], ?_, fun u id name valid' present => ?_⟩
  · rw [left]
    exact linked_remove_iff sound labelled linked hk
  · obtain ⟨as, ha, own⟩ := (wired'.root u).names
    obtain ⟨es, he, rfl⟩ := isValid_iff_names.1 valid'
    rw [own, key_ofReduced ha he] at present ⊢
    rw [left] at present
    have reached : ofReduced false es ∈
        ((filesystem id ⟨0, ofReduced true as⟩).walk here p.2.world).1.names ↔ Down p.2.store as es :=
      mem_walk sound' labelled' ha id he
    rw [reached, left]
    exact down_remove_iff sound linked hk (names_append.2 ⟨ha, he⟩) present

/-- The call of a session that makes one directory in another. -/
def nestedCalls : List Call := [.on 0 (.mkdirAll "a/d".text 0o777)]

theorem takesOut_nested :
    Linked (start.after nestedCalls).store ∧ isValid "a".text = true ∧
      ((start.after nestedCalls).perform (.on 0 (.remove "a".text))).1 = .ok .done ∧
      TakesOut (start.after nestedCalls) ((start.after nestedCalls).perform (.on 0 (.remove "a".text))).2
        (key ((start.after nestedCalls).root 0) "a".text) := by
  obtain ⟨-, -, tree⟩ := invariant_reached reached_nested
  have linked : Linked (start.after nestedCalls).store := tree.linked
  have valid : isValid "a".text = true := by decide
  exact ⟨linked, valid, takesOut_remove 0 linked valid⟩

/-- What stood below is left without the directory it stood in. -/
theorem not_linked_remove :
    ¬∀ (calls : List Call) (v : Nat) (name : Text), isValid name = true → Linked (start.after calls).store →
      Linked ((start.after calls).perform (.on v (.remove name))).2.store := by
  intro linked
  obtain ⟨-, -, tree⟩ := invariant_reached reached_nested
  have before : Linked (start.after nestedCalls).store := tree.linked
  have after := linked nestedCalls 0 "a".text (by decide) before
  have there : (((start.after nestedCalls).perform (.on 0 (.remove "a".text))).2.store.get?
      "/a/d".text).isSome = true := by decide +kernel
  obtain ⟨e, stored⟩ := Option.isSome_iff_exists.1 there
  have up := after _ e stored (by decide)
  revert up
  decide +kernel

end Vfs.Memory
