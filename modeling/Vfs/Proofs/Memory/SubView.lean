import Vfs.Proofs.Action
import Vfs.Proofs.Glob.Literal
import Vfs.Proofs.Memory.Tree

/-!
# A view is the filesystem at a longer path

What a view of a directory is asked under a name, the filesystem it was taken of can be asked under the
name that leads through the directory. Both names have one key, so looking and taking out agree at once;
making directories starts at different roots, but the levels above the view's root are stored already
(`makeLevels_deeper`). Patterns agree behind the directory's escaped name (`glob_below`).
-/

namespace Vfs.Memory
set_option autoImplicit false
open Vfs.Path

/-! ## What is said about views -/

/-- A name that leads through a directory. -/
def below (dir name : Text) : Text :=
  if name = here then dir else if dir = here then name else dir ++ .char '/' :: name

/-- A request about a name. -/
inductive Operation where
  | openFile | stat | read | list | sub
  | mkdirAll (mode : Int) | create (mode : Int) | write (data : Bytes) (mode : Int)
  | remove | removeAll

/-- The request for a name. -/
def Operation.on (name : Text) : Operation → Request
  | .openFile => .openFile name
  | .stat => .stat name
  | .read => .read name
  | .list => .list name
  | .sub => .sub name
  | .mkdirAll mode => .mkdirAll name mode
  | .create mode => .create name mode
  | .write data mode => .write name data mode
  | .remove => .remove name
  | .removeAll => .removeAll name

/-- Two handles of one file, in the same state, whatever names they have for it. -/
structure Handle.Twin (h h' : Handle) : Prop where
  volume : h.view.volume = h'.view.volume
  key : key h.view.root h.name = key h'.view.root h'.name
  state : { h with view := h'.view, name := h'.name } = h'

/-- Two answers that say the same; of handles, up to the name. -/
inductive Answer.Same : Answer → Answer → Prop where
  | refl (a : Answer) : Same a a
  | handle (number : Nat) {h h' : Handle} : h.Twin h' → Same (.handle number h) (.handle number h')

/-- Two outcomes that answer the same or fail alike, and leave the same stores. -/
structure SameOutcome (x y : Except Error Answer × World) : Prop where
  answer : Agree Answer.Same x.1 y.1
  volumes : x.2.volumes = y.2.volumes

/-- A view says and does under every name what the filesystem it was taken of does under the name below
the directory, and finds by every pattern what that one finds behind the directory's name. -/
structure IsViewBelow (vol : Nat) (root dir root' : Text) (w : World) : Prop where
  same : ∀ (o : Operation) name, isValid name = true →
    SameOutcome ((o.on name).ask ⟨vol, root'⟩ w) ((o.on (below dir name)).ask ⟨vol, root⟩ w)
  glob : dir ≠ here → ∀ pattern,
    Memory.glob root (w.volume vol).store (Glob.escape dir ++ .char '/' :: pattern) =
      (Memory.glob root' (w.volume vol).store pattern).map fun names => names.map fun x => dir ++ .char '/' :: x

/-! ## Names and keys below a directory -/

variable {s : Store Entry} {as bs cs ds es : List Text} {root root' dir name name' : Text}

theorem below_ofReduced (hd : Names ds) (he : Names es) :
    below (ofReduced false ds) (ofReduced false es) = ofReduced false (ds ++ es) := by
  unfold below
  by_cases direct : es = []
  · rw [direct, if_pos ofReduced_nil, List.append_nil]
  · rw [if_neg (ofReduced_ne_here he direct)]
    by_cases top : ds = []
    · rw [top, if_pos ofReduced_nil, List.nil_append]
    · rw [if_neg (ofReduced_ne_here hd top), ofReduced_append direct top, ofReduced_relative direct]

/-! ## Directories on the way -/

/-- The way from a root to a stored directory is stored. -/
theorem Linked.onWay (linked : Linked s) (names : Names (as ++ bs))
    (there : IsDirectory s (ofReduced true (as ++ bs))) : IsDirectory s (ofReduced true as) := by
  by_cases direct : bs = []
  · rwa [direct, List.append_nil] at there
  · obtain ⟨e, stored, -⟩ := there
    exact linked.above names direct stored

/-- Going down through a stored directory begins there. -/
theorem makeLevels_deeper (linked : Linked s) (names : Names (as ++ bs))
    (there : IsDirectory s (ofReduced true (as ++ bs))) (dir : Text) (mode : Int) (es : List Text) :
    makeLevels dir mode (deeper (ofReduced true as) (bs ++ es)) s =
      makeLevels dir mode (deeper (ofReduced true (as ++ bs)) es) s := by
  induction bs generalizing as with
  | nil => rw [List.nil_append, List.append_nil]
  | cons b bs ih =>
    have row : as ++ b :: bs = (as ++ [b]) ++ bs := by rw [List.append_assoc]; rfl
    rw [row] at names there ⊢
    have down := (names_append.1 names).1
    rw [List.cons_append, deeper_cons (names_append.1 down).1.pieces (names_append.1 down).2.pieces,
      makeLevels_stored (linked.onWay names there), ih names there]

/-- Two steps of a store that answer the same or fail alike, and leave the same. -/
structure SameStep {α : Type} (x y : Except Error α × Store Entry) : Prop where
  left : x.2 = y.2
  answer : Agree Eq x.1 y.1

/-- Levels are made alike, whatever directory the errors tell. -/
theorem makeLevels_alike (dir dir' : Text) (mode : Int) (levels : List Level) (s : Store Entry) :
    SameStep (makeLevels dir mode levels s) (makeLevels dir' mode levels s) := by
  induction levels generalizing s with
  | nil => exact ⟨rfl, .ok rfl⟩
  | cons level rest ih =>
    simp only [makeLevels]
    cases s.get? level.key with
    | some e =>
      dsimp only
      split
      · exact ih s
      · exact ⟨rfl, .error (Failure.alike_at ..)⟩
    | none =>
      cases Mode.permissions mode with
      | error fault => exact ⟨rfl, .error (.refl _)⟩
      | ok bits => exact ih _

theorem mkdirAll_ofReduced (hb : Names bs) (root : Text) (mode : Int) (s : Store Entry) :
    mkdirAll root (ofReduced false bs) mode s =
      makeLevels (ofReduced false bs) mode (⟨root, rootName root⟩ :: deeper root bs) s := by
  rw [mkdirAll, if_pos (isValid_iff_names.2 ⟨bs, hb, rfl⟩), levels_ofReduced hb]

/-- From above or from a stored directory on the way: the same directories are made. -/
theorem mkdirAll_below (linked : Linked s) (ha : Names as) (hd : Names ds) (he : Names es)
    (there : IsDirectory s (ofReduced true (as ++ ds))) (mode : Int) :
    SameStep (mkdirAll (ofReduced true (as ++ ds)) (ofReduced false es) mode s)
      (mkdirAll (ofReduced true as) (ofReduced false (ds ++ es)) mode s) := by
  have names := names_append.2 ⟨ha, hd⟩
  rw [mkdirAll_ofReduced he, mkdirAll_ofReduced (names_append.2 ⟨hd, he⟩), makeLevels_stored there,
    makeLevels_stored (linked.onWay names there), makeLevels_deeper linked names there]
  exact makeLevels_alike ..

/-- Nothing is made where everything is. -/
theorem mkdirAll_stored (linked : Linked s) (names : Names (as ++ bs))
    (there : IsDirectory s (ofReduced true (as ++ bs))) (mode : Int) :
    mkdirAll (ofReduced true as) (ofReduced false bs) mode s = (.ok (), s) := by
  have way := makeLevels_deeper linked names there (ofReduced false bs) mode []
  rw [List.append_nil] at way
  rw [mkdirAll_ofReduced (names_append.1 names).2, makeLevels_stored (linked.onWay names there), way]
  rfl

/-! ## Asking under two names of one key -/

section
variable (valid : isValid name = true) (valid' : isValid name' = true) (same : key root name = key root' name')
include valid valid' same

theorem locate_alike (s : Store Entry) : Agree Eq (locate root s name) (locate root' s name') := by
  rw [locate, if_pos valid, locate, if_pos valid', same]
  cases s.get? (key root' name') with
  | none => exact .error (Failure.alike_at ..)
  | some e => exact .ok rfl

theorem list_alike (s : Store Entry) : Agree Eq (list root s name) (list root' s name') := by
  have found := locate_alike valid valid' same s
  unfold list
  generalize locate root s name = r, locate root' s name' = r' at found ⊢
  cases found with
  | error alike => exact .error alike
  | @ok located _ eq =>
    obtain ⟨k, e⟩ := located
    subst eq
    dsimp only
    split
    · exact .ok rfl
    · exact .error (Failure.alike_at ..)

theorem content_alike (s : Store Entry) : Agree Eq (content root s name) (content root' s name') := by
  have found := locate_alike valid valid' same s
  unfold content
  generalize locate root s name = r, locate root' s name' = r' at found ⊢
  cases found with
  | error alike => exact .error alike
  | @ok located _ eq =>
    obtain ⟨k, e⟩ := located
    subst eq
    dsimp only
    split
    · exact .error (Failure.alike_at ..)
    · exact .ok rfl

theorem sub_alike (s : Store Entry) : Agree Eq (sub root s name) (sub root' s name') := by
  have found := locate_alike valid valid' same s
  rw [sub, if_pos valid, sub, if_pos valid']
  generalize locate root s name = r, locate root' s name' = r' at found ⊢
  cases found with
  | error alike => exact .error alike
  | @ok located _ eq =>
    obtain ⟨k, e⟩ := located
    subst eq
    dsimp only
    split
    · exact .ok rfl
    · exact .error (Failure.alike_at ..)

theorem remove_alike (s : Store Entry) : SameStep (remove root name s) (remove root' name' s) := by
  rw [remove, if_pos valid, remove, if_pos valid', same]
  exact ⟨rfl, .ok rfl⟩

theorem removeAll_alike (s : Store Entry) : SameStep (removeAll root name s) (removeAll root' name' s) := by
  rw [removeAll, if_pos valid, removeAll, if_pos valid', same]
  exact ⟨rfl, .ok rfl⟩

end

/-! ## Making files -/

/-- Creating where the directory of the name is made alike. -/
theorem create_alike (valid : isValid name = true) (valid' : isValid name' = true)
    (same : key root name = key root' name') (last : lastElement name = lastElement name') (mode : Int)
    {s : Store Entry}
    (way : SameStep (mkdirAll root (parent name) mode s) (mkdirAll root' (parent name') mode s)) :
    SameStep (create root name mode s) (create root' name' mode s) := by
  rw [create, if_pos valid, create, if_pos valid', same, last]
  generalize mkdirAll root (parent name) mode s = r, mkdirAll root' (parent name') mode s = r' at way ⊢
  obtain ⟨r, t⟩ := r
  obtain ⟨r', t'⟩ := r'
  obtain ⟨eq, made⟩ := way
  dsimp only at eq made
  subst eq
  cases made with
  | error alike => exact ⟨rfl, .error alike⟩
  | ok _ =>
    dsimp only
    cases t.get? (key root' name') with
    | some e =>
      dsimp only
      split
      · exact ⟨rfl, .error (Failure.alike_at ..)⟩
      · exact ⟨rfl, .ok rfl⟩
    | none =>
      cases Mode.permissions mode with
      | error fault => exact ⟨rfl, .error (.refl _)⟩
      | ok bits => exact ⟨rfl, .ok rfl⟩

/-- No file is created over a directory that is stored. -/
theorem create_stored (linked : Linked s) (names : Names (as ++ bs))
    (there : IsDirectory s (ofReduced true (as ++ bs))) (mode : Int) :
    create (ofReduced true as) (ofReduced false bs) mode s =
      (.error (Fault.invalid.at "Create".text (ofReduced false bs)), s) := by
  obtain ⟨ha, hb⟩ := names_append.1 names
  have above : Names (as ++ bs.dropLast) := names_append.2 ⟨ha, hb.dropLast⟩
  have way : IsDirectory s (ofReduced true (as ++ bs.dropLast)) := by
    rcases List.eq_nil_or_concat bs with rfl | ⟨front, b, rfl⟩
    · exact there
    · rw [List.concat_eq_append, ← List.append_assoc] at names there
      rw [List.concat_eq_append, List.dropLast_concat]
      exact linked.onWay names there
  rw [create, if_pos (isValid_iff_names.2 ⟨bs, hb, rfl⟩), parent_ofReduced hb, mkdirAll_stored linked above way,
    key_ofReduced ha hb]
  obtain ⟨e, stored, kind⟩ := there
  simp [stored, kind]

theorem create_below (linked : Linked s) (ha : Names as) (hd : Names ds) (he : Names es)
    (there : IsDirectory s (ofReduced true (as ++ ds))) (mode : Int) :
    SameStep (create (ofReduced true (as ++ ds)) (ofReduced false es) mode s)
      (create (ofReduced true as) (ofReduced false (ds ++ es)) mode s) := by
  have names := names_append.2 ⟨ha, hd⟩
  rcases List.eq_nil_or_concat es with rfl | ⟨front, e, rfl⟩
  · -- The name is the directory's own: no file is made there.
    have here : IsDirectory s (ofReduced true (as ++ ds ++ [])) := by rwa [List.append_nil]
    rw [create_stored linked (by rwa [List.append_nil]) here, List.append_nil, create_stored linked names there]
    exact ⟨rfl, .error (Failure.alike_at ..)⟩
  · rw [List.concat_eq_append] at he ⊢
    obtain ⟨hf, hl⟩ := names_append.1 he
    have hde := names_append.2 ⟨hd, he⟩
    have row : ds ++ (front ++ [e]) = (ds ++ front) ++ [e] := (List.append_assoc ..).symm
    apply create_alike
    · exact isValid_iff_names.2 ⟨_, he, rfl⟩
    · exact isValid_iff_names.2 ⟨_, hde, rfl⟩
    · rw [key_ofReduced names he, key_ofReduced ha hde, List.append_assoc]
    · rw [row, lastElement_ofReduced (hl.no_slash e (List.mem_cons_self ..)),
        lastElement_ofReduced (hl.no_slash e (List.mem_cons_self ..))]
    · rw [parent_ofReduced he, parent_ofReduced hde, row, List.dropLast_concat, List.dropLast_concat]
      exact mkdirAll_below linked ha hd hf there mode

theorem write_alike {data : Bytes} {mode : Int} {s : Store Entry}
    (made : SameStep (create root name mode s) (create root' name' mode s)) :
    SameStep (write root name data mode s) (write root' name' data mode s) := by
  unfold write
  generalize create root name mode s = r, create root' name' mode s = r' at made ⊢
  obtain ⟨r, t⟩ := r
  obtain ⟨r', t'⟩ := r'
  obtain ⟨eq, made⟩ := made
  dsimp only at eq made
  subst eq
  cases made with
  | error alike => exact ⟨rfl, .error alike⟩
  | ok eq =>
    subst eq
    exact ⟨rfl, .ok rfl⟩

/-! ## Patterns -/

theorem scan_below (dir pattern : Text) :
    Glob.scan (Glob.escape dir ++ .char '/' :: pattern) =
      (Glob.scan pattern).map ((dir ++ [CodePoint.char '/']).map Glob.Token.literal ++ ·) := by
  rw [Glob.scan_escape, Glob.scan_plain (by decide), Option.map_map]
  congr 1
  funext tokens
  simp

/-- What the keys below a directory begin with, seen from further up. -/
theorem branch_below (ha : Names as) (hd : Names ds) (hne : ds ≠ []) :
    Store.branch (ofReduced true (as ++ ds)) = Store.branch (ofReduced true as) ++ (joined ds ++ [.char '/']) := by
  rw [branch_ofReduced (names_append.2 ⟨ha, hd⟩) (by simp [hne]), branch_append ha hne, List.append_assoc]

/-- What is below a directory behind the escaped name. -/
theorem select_below (sound : s.Sound) (linked : Linked s) (ha : Names as) (hd : Names ds) (hne : ds ≠ [])
    (there : IsDirectory s (ofReduced true (as ++ ds))) (tokens : List Glob.Token) :
    s.select (ofReduced true as)
        (Glob.matchTokens ((joined ds ++ [CodePoint.char '/']).map Glob.Token.literal ++ tokens)) =
      s.select (ofReduced true (as ++ ds)) (Glob.matchTokens tokens) := by
  have names := names_append.2 ⟨ha, hd⟩
  have stored {k : Text} (directory : IsDirectory s k) : (s.get? k).isSome := by
    obtain ⟨e, found, -⟩ := directory
    rw [found]
    rfl
  have deeper := branch_below ha hd hne
  rw [Store.select_eq_filter sound, if_pos (stored (linked.onWay names there)), Store.select_eq_filter sound,
    if_pos (stored there)]
  congr 1
  funext k
  apply decide_eq_decide.2
  constructor
  · rintro ⟨⟨-, rest, rfl⟩, passes⟩
    rw [List.drop_left, Glob.matchTokens_literals] at passes
    obtain ⟨rest, rfl, passes⟩ := passes
    rw [← List.append_assoc, ← deeper, List.drop_left]
    refine ⟨⟨fun same => ?_, List.prefix_append ..⟩, passes⟩
    have long := congrArg List.length same
    rw [branch_ofReduced names (by simp [hne])] at long
    simp at long
  · rintro ⟨⟨-, rest, rfl⟩, passes⟩
    rw [List.drop_left] at passes
    rw [deeper, List.append_assoc, List.drop_left, Glob.matchTokens_literals]
    refine ⟨⟨fun same => ?_, List.prefix_append ..⟩, rest, rfl, passes⟩
    have long := congrArg List.length same
    have short := (Store.isPrefix_branch (ofReduced true as)).length_le
    simp only [List.length_append, List.length_singleton] at long
    omega

/-- The name a key has from above leads through the directory. -/
theorem relative_below (ha : Names as) (hd : Names ds) (hne : ds ≠ []) {k : Text}
    (under : Store.Under (ofReduced true (as ++ ds)) k) :
    relative (ofReduced true as) k = ofReduced false ds ++ .char '/' :: relative (ofReduced true (as ++ ds)) k := by
  obtain ⟨-, rest, rfl⟩ := under
  rw [relative_branch, branch_below ha hd hne, List.append_assoc, relative_branch, ofReduced_relative hne,
    List.append_assoc]
  rfl

theorem glob_below (sound : s.Sound) (linked : Linked s) (ha : Names as) (hd : Names ds) (hne : ds ≠ [])
    (there : IsDirectory s (ofReduced true (as ++ ds))) (pattern : Text) :
    glob (ofReduced true as) s (Glob.escape (ofReduced false ds) ++ .char '/' :: pattern) =
      (glob (ofReduced true (as ++ ds)) s pattern).map fun names =>
        names.map fun x => ofReduced false ds ++ .char '/' :: x := by
  unfold glob Store.matching
  rw [scan_below]
  cases Glob.scan pattern with
  | none => rfl
  | some tokens =>
    have selected := select_below sound linked ha hd hne there tokens
    simp only [Option.map_some, Except.map, ofReduced_relative hne, selected, List.map_map]
    congr 1
    apply List.map_congr_left
    intro k member
    have under := ((Store.select_spec sound _ _).2 k).1 member
    rw [relative_below ha hd hne under.2.2.1, ofReduced_relative hne]
    rfl

/-! ## Outcomes -/

variable {vol : Nat} {w : World} {α : Type}

theorem sameOutcome_ask {f g : Text → Store Entry → Except Error α}
    (alike : Agree Eq (f root (w.volume vol).store) (g root' (w.volume vol).store)) (tell : α → Answer) :
    SameOutcome (telling (ask ⟨vol, root⟩ f) tell w) (telling (ask ⟨vol, root'⟩ g) tell w) where
  answer := alike.map fun a _ same => same ▸ .refl (tell a)
  volumes := rfl

theorem sameOutcome_stat
    (found : Agree Eq (locate root (w.volume vol).store name) (locate root' (w.volume vol).store name')) :
    SameOutcome (telling (stat ⟨vol, root⟩ name) .info w) (telling (stat ⟨vol, root'⟩ name') .info w) where
  answer := by
    have told : Agree Eq ((locate root (w.volume vol).store name).map fun l => describe ⟨vol, root⟩ l w)
        ((locate root' (w.volume vol).store name').map fun l => describe ⟨vol, root'⟩ l w) :=
      found.map fun l _ same => same ▸ rfl
    exact told.map fun a _ same => same ▸ .refl _
  volumes := rfl

theorem sameOutcome_list
    (found : Agree Eq (list root (w.volume vol).store name) (list root' (w.volume vol).store name')) :
    SameOutcome (telling (fun w => (listing ⟨vol, root⟩ name w, w)) .infos w)
      (telling (fun w => (listing ⟨vol, root'⟩ name' w, w)) .infos w) where
  answer := by
    have told : Agree Eq (listing ⟨vol, root⟩ name w) (listing ⟨vol, root'⟩ name' w) :=
      found.map fun ls _ same => same ▸ rfl
    exact told.map fun a _ same => same ▸ .refl _
  volumes := rfl

theorem sameOutcome_change {f g : Text → Store Entry → Except Error α × Store Entry}
    (alike : SameStep (f root (w.volume vol).store) (g root' (w.volume vol).store)) (tell : α → Answer) :
    SameOutcome (telling (change ⟨vol, root⟩ f) tell w) (telling (change ⟨vol, root'⟩ g) tell w) where
  answer := alike.answer.map fun a _ same => same ▸ .refl (tell a)
  volumes := by simp only [telling_eq, change_eq, alike.left]

theorem sameOutcome_openFile (same : key root name = key root' name')
    (found : Agree Eq (locate root (w.volume vol).store name) (locate root' (w.volume vol).store name')) :
    SameOutcome (opening (openFile ⟨vol, root⟩ name) w) (opening (openFile ⟨vol, root'⟩ name') w) := by
  rw [opening_openFile, opening_openFile]
  generalize locate root (w.volume vol).store name = r, locate root' (w.volume vol).store name' = r' at found ⊢
  cases found with
  | error alike => exact ⟨.error alike, rfl⟩
  | @ok located _ eq =>
    obtain ⟨k, e⟩ := located
    subst eq
    refine ⟨.ok (.handle _ ?_), rfl⟩
    split
    · exact ⟨rfl, same, rfl⟩
    · exact ⟨rfl, same, rfl⟩

theorem sameOutcome_createFile (same : key root name = key root' name') {mode : Int}
    (made : SameStep (create root name mode (w.volume vol).store) (create root' name' mode (w.volume vol).store)) :
    SameOutcome (opening (createFile ⟨vol, root⟩ name mode) w)
      (opening (createFile ⟨vol, root'⟩ name' mode) w) := by
  rw [opening_createFile, opening_createFile, change_eq, change_eq]
  obtain ⟨left, made⟩ := made
  dsimp only
  rw [left]
  generalize (create root name mode (w.volume vol).store).1 = r,
    (create root' name' mode (w.volume vol).store).1 = r' at made ⊢
  cases made with
  | error alike => exact ⟨.error alike, rfl⟩
  | ok eq => exact ⟨.ok (.handle _ ⟨rfl, same, rfl⟩), rfl⟩

/-- **A view of a directory is the filesystem at a longer path.** -/
theorem view_below {dir : Text} (isKey : IsKey root) (sound : (w.volume vol).store.Sound)
    (linked : Linked (w.volume vol).store) (opened : sub root (w.volume vol).store dir = .ok root') :
    IsViewBelow vol root dir root' w := by
  obtain ⟨validDir, rfl, there⟩ := sub_eq_ok.1 opened
  obtain ⟨as, ha, rfl⟩ := isKey_iff.1 isKey
  obtain ⟨ds, hd, rfl⟩ := isValid_iff_names.1 validDir
  rw [key_ofReduced ha hd] at there ⊢
  constructor
  · intro o name valid
    obtain ⟨es, he, rfl⟩ := isValid_iff_names.1 valid
    have names := names_append.2 ⟨hd, he⟩
    have valid' := isValid_iff_names.2 ⟨_, names, rfl⟩
    have same : key (ofReduced true (as ++ ds)) (ofReduced false es) =
        key (ofReduced true as) (ofReduced false (ds ++ es)) := by
      rw [key_ofReduced (names_append.2 ⟨ha, hd⟩) he, key_ofReduced ha names, List.append_assoc]
    rw [below_ofReduced hd he]
    cases o with
    | openFile => exact sameOutcome_openFile same (locate_alike valid valid' same _)
    | stat => exact sameOutcome_stat (locate_alike valid valid' same _)
    | list => exact sameOutcome_list (list_alike valid valid' same _)
    | read =>
      simp only [Operation.on, Request.ask]
      apply sameOutcome_ask
      exact content_alike valid valid' same _
    | sub =>
      simp only [Operation.on, Request.ask]
      apply sameOutcome_ask
      exact sub_alike valid valid' same _
    | mkdirAll mode =>
      simp only [Operation.on, Request.ask]
      apply sameOutcome_change
      exact mkdirAll_below linked ha hd he there mode
    | create mode => exact sameOutcome_createFile same (create_below linked ha hd he there mode)
    | write data mode =>
      simp only [Operation.on, Request.ask]
      apply sameOutcome_change
      exact write_alike (create_below linked ha hd he there mode)
    | remove =>
      simp only [Operation.on, Request.ask]
      apply sameOutcome_change
      exact remove_alike valid valid' same _
    | removeAll =>
      simp only [Operation.on, Request.ask]
      apply sameOutcome_change
      exact removeAll_alike valid valid' same _
  · intro proper pattern
    have hne : ds ≠ [] := by
      rintro rfl
      exact proper rfl
    exact glob_below sound linked ha hd hne there pattern

/-- A session in which two directories were made, one in the other. -/
def nested : Session := (Session.start.perform (.on 0 (.mkdirAll "a/d".text 0o777))).2

theorem reached_nested : Reached nested := .call _ .start (.inl rfl)

theorem view_below_nested :
    sub [.char '/'] nested.store "a".text = .ok "/a".text ∧
      IsViewBelow 0 [.char '/'] "a".text "/a".text nested.world := by
  have opened : sub [.char '/'] nested.store "a".text = .ok "/a".text :=
    sub_eq_ok.2 ⟨by decide, by decide, by decide +kernel⟩
  obtain ⟨-, sound, tree⟩ := invariant_reached reached_nested
  exact ⟨opened, view_below (.inl rfl) sound tree.linked opened⟩

/-- The root is taken as it is written. Where it is no key of the tree, making directories stores it as
one, and the view that was taken of a directory below does not. -/
theorem not_view_below_spelled :
    Tree nested.store ∧ sub "/a/".text nested.store "d".text = .ok "/a/d".text ∧
      ¬IsViewBelow 0 "/a/".text "d".text "/a/d".text nested.world := by
  obtain ⟨-, -, tree⟩ := invariant_reached reached_nested
  refine ⟨tree, sub_eq_ok.2 ⟨by decide, by decide, by decide +kernel⟩, fun view => ?_⟩
  have same := (view.same (.mkdirAll 0o777) "x".text (by decide)).volumes
  have stored := congrArg (fun volumes => ((volumes.getD 0 {}).store.get? "/a/".text).isSome) same
  revert stored
  decide +kernel

end Vfs.Memory
