import Vfs.Filesystem.Conformance
import Vfs.Proofs.Memory.Making
import Vfs.Proofs.Memory.Subtree

/-!
# Files put below a directory

The script of the write check puts files below a directory, tries what must be refused, and takes out what it put. On
the store it goes one name after the other (`Runs`). As long as the directories down to its own stand, laying an entry
below them touches nothing but rows further down (`get?_lay_below`), whether it is laid or refused. So after the
script a store differs only at the rows that are then taken out (`Scratched`), if nothing stood there before.
-/

namespace Vfs.Memory
set_option autoImplicit false
open Vfs.Path Store

variable {s t u : Store Entry} {as bs cs front : List Text} {e : Entry} {k root name : Text} {fault : Error}
  {inside : Text → Prop}

/-! ## Laying an entry below directories -/

/-- A file is laid alike if the directories above it were made before. -/
theorem lay_behind_way (valid : isValid name = true) (file : e.directory = false)
    (made : (mkdirAll root (parent name) e.copyBits s).1 = .ok ()) :
    lay root name e (mkdirAll root (parent name) e.copyBits s).2 = lay root name e s := by
  have again := mkdirAll_again made (.refl _) e.copyBits
  have once : create root name e.copyBits (mkdirAll root (parent name) e.copyBits s).2 =
      create root name e.copyBits s := by
    rw [create_eq valid, andThen_ok made, andThen_ok (congrArg Prod.fst again), again]
  simp only [lay, file, Bool.false_eq_true, if_false, once]

/-- What is refused leaves all that stood. -/
theorem grows_lay_refused (file : e.directory = false) (refused : (lay root name e s).1 = .error fault) :
    Grows s (lay root name e s).2 := by
  rcases lay_file file root name s with ⟨fault, -, eq⟩ | ⟨old, -, eq⟩
  · rw [eq]
    exact grows_create root name e.copyBits s
  · rw [eq] at refused
    cases refused

/-- A beginning of a row goes no further than another one, or into the rest behind it. -/
theorem ahead_append (ahead : front <+: bs ++ cs) :
    front <+: bs ∨ ∃ rest, rest ≠ [] ∧ rest <+: cs ∧ front = bs ++ rest := by
  obtain ⟨back, split⟩ := ahead
  rcases List.append_eq_append_iff.1 split with ⟨more, rfl, -⟩ | ⟨rest, rfl, rfl⟩
  · exact .inl (List.prefix_append ..)
  · by_cases whole : rest = []
    · rw [whole, List.append_nil]
      exact .inl (List.prefix_refl bs)
    · exact .inr ⟨rest, whole, List.prefix_append .., rfl⟩

section
variable (ha : Names as) (hb : Names bs)
include ha hb

/-- Above a file that was laid are directories. -/
theorem isDirectory_lay (file : e.directory = false)
    (laid : (lay (ofReduced true as) (ofReduced false bs) e s).1 = .ok ()) (behind : front <+: bs)
    (above : front ≠ bs) :
    IsDirectory (lay (ofReduced true as) (ofReduced false bs) e s).2 (ofReduced true (as ++ front)) := by
  rcases lay_file file (ofReduced true as) (ofReduced false bs) s with ⟨fault, -, eq⟩ | ⟨old, made, eq⟩
  · rw [eq] at laid
    cases laid
  · obtain ⟨way, grows⟩ := create_way made
    obtain ⟨init, c, rfl⟩ := (List.eq_nil_or_concat' bs).resolve_left (proper_of_create ha hb made)
    have up : front <+: init := (List.prefix_concat_iff.1 behind).resolve_left above
    rw [parent_ofReduced hb, List.dropLast_concat] at way grows
    have there := grows.isDirectory (isDirectory_mkdirAll ha (names_append.1 hb).1 way up)
    rw [eq]
    dsimp only
    split
    · exact there
    · refine isDirectory_put there fun same => absurd ?_ above
      rw [key_ofReduced ha hb] at same
      exact ofReduced_append_inj ha (hb.ahead behind) hb same

end

section
variable (names : Names (as ++ (bs ++ cs))) (proper : cs ≠ [])
  (way : ∀ front, front <+: bs → IsDirectory s (ofReduced true (as ++ front)))
include names proper way

/-- Below directories that stand nothing is touched but rows further down. -/
theorem get?_lay_below (apart : ∀ rest, rest ≠ [] → rest <+: cs → k ≠ ofReduced true (as ++ (bs ++ rest))) :
    (lay (ofReduced true as) (ofReduced false (bs ++ cs)) e s).2.get? k = s.get? k := by
  obtain ⟨ha, hbc⟩ := names_append.1 names
  by_cases onWay : ∃ front, front <+: bs ∧ k = ofReduced true (as ++ front)
  · obtain ⟨front, behind, rfl⟩ := onWay
    obtain ⟨o, stored, -⟩ := way front behind
    have other := apart cs proper (List.prefix_refl cs)
    rw [← key_ofReduced ha hbc] at other
    rw [lay_kept other stored, stored]
  · refine lay_apart ha hbc fun front ahead same => ?_
    rcases ahead_append ahead with behind | ⟨rest, hne, behind, rfl⟩
    · exact onWay ⟨front, behind, same⟩
    · exact apart rest hne behind same

/-- A file is laid there unless a file stands further down on the way, or a directory in its place. -/
theorem lay_ok_below (file : e.directory = false)
    (above : ∀ rest, rest ≠ [] → rest <+: cs.dropLast → ∀ o, s.get? (ofReduced true (as ++ (bs ++ rest))) = some o →
      o.directory = true)
    (place : ∀ o, s.get? (ofReduced true (as ++ (bs ++ cs))) = some o → o.directory = false) :
    (lay (ofReduced true as) (ofReduced false (bs ++ cs)) e s).1 = .ok () := by
  obtain ⟨ha, hbc⟩ := names_append.1 names
  obtain ⟨init, c, rfl⟩ := (List.eq_nil_or_concat' cs).resolve_left proper
  rw [List.dropLast_concat] at above
  have root : IsDirectory s (ofReduced true as) := by simpa using way [] List.nil_prefix
  refine lay_free ha hbc root (fun front ahead short o stored => ?_) fun o stored => (place o stored).trans file.symm
  rcases ahead_append ahead with behind | ⟨rest, hne, behind, rfl⟩
  · obtain ⟨d, there, kind⟩ := way front behind
    exact Option.some.inj (there.symm.trans stored) ▸ kind
  · have up := (List.prefix_concat_iff.1 behind).resolve_left fun same => short (by rw [same])
    exact above rest hne up o stored

end

/-! ## Stores that differ among some keys -/

/-- A store differs from another one among some keys at most, and the directories down to a row stand in it. -/
structure Scratched (inside : Text → Prop) (as bs : List Text) (s t : Store Entry) : Prop where
  sound : t.Sound
  way : ∀ front, front <+: bs → IsDirectory t (ofReduced true (as ++ front))
  same : SameOn (fun k => ¬inside k) t s

theorem Scratched.lay (scratched : Scratched inside as bs s t) (names : Names (as ++ (bs ++ cs))) (proper : cs ≠ [])
    (within : ∀ rest, rest ≠ [] → rest <+: cs → inside (ofReduced true (as ++ (bs ++ rest)))) :
    Scratched inside as bs s (lay (ofReduced true as) (ofReduced false (bs ++ cs)) e t).2 where
  sound := sound_lay scratched.sound _ _ e
  way := fun front behind =>
    (made_lay (isRoot_ofReduced (names_append.1 names).1) _ e t).isDirectory (scratched.way front behind)
  same := by
    intro k outside
    rw [← scratched.same k outside]
    refine get?_lay_below names proper scratched.way fun rest hne behind same => outside ?_
    rw [same]
    exact within rest hne behind

/-! ## What is refused -/

theorem lay_invalid (invalid : ¬isValid name = true) (file : e.directory = false) :
    lay root name e s = (.error (Fault.invalid.at "Create".text name), s) := by
  have refused : create root name e.copyBits s = (.error (Fault.invalid.at "Create".text name), s) := by
    rw [create, if_neg invalid]
  rw [lay_refused file (congrArg Prod.fst refused), refused]

section
variable (ha : Names as) (hb : Names bs) (file : e.directory = false)
include ha hb file

/-- No file takes the place of a directory. -/
theorem lay_refused_directory (there : IsDirectory s (ofReduced true (as ++ bs))) :
    ∃ fault, (lay (ofReduced true as) (ofReduced false bs) e s).1 = .error fault := by
  cases laid : (lay (ofReduced true as) (ofReduced false bs) e s).1 with
  | error fault => exact ⟨fault, rfl⟩
  | ok _ =>
    obtain ⟨d, stored, kind⟩ := there
    rw [lay_ok ha hb laid d stored, file] at kind
    cases kind

/-- No file goes below a file. -/
theorem lay_refused_below {o : Entry} (stored : s.get? (ofReduced true (as ++ front)) = some o)
    (plain : o.directory = false) (behind : front <+: bs) (above : front ≠ bs) :
    ∃ fault, (lay (ofReduced true as) (ofReduced false bs) e s).1 = .error fault := by
  cases laid : (lay (ofReduced true as) (ofReduced false bs) e s).1 with
  | error fault => exact ⟨fault, rfl⟩
  | ok _ =>
    obtain ⟨d, there, kind⟩ := isDirectory_lay ha hb file laid behind above
    have apart : ofReduced true (as ++ front) ≠ key (ofReduced true as) (ofReduced false bs) := by
      rw [key_ofReduced ha hb]
      exact fun same => above (ofReduced_append_inj ha (hb.ahead behind) hb same)
    rw [lay_kept apart stored] at there
    rw [← Option.some.inj there, plain] at kind
    cases kind

end

/-! ## The script -/

/-- What the script makes of each file. -/
def sample : Entry := (Entry.newFile [] Mode.standard).holding Filesystem.parts.flatten

theorem copyBits_sample : sample.copyBits = Mode.standard := rfl

/-- The script lays the files that must not fail, and is refused the others. -/
inductive Runs (root dir : Text) : List (String × Bool) → Store Entry → Store Entry → Prop where
  | done {s : Store Entry} : Runs root dir [] s s
  | laid {s t : Store Entry} {name : String} {cases : List (String × Bool)} :
      (lay root (dir ++ .char '/' :: name.text) sample s).1 = .ok () →
      Runs root dir cases (lay root (dir ++ .char '/' :: name.text) sample s).2 t →
      Runs root dir ((name, false) :: cases) s t
  | refused {s t : Store Entry} {name : String} {cases : List (String × Bool)} {fault : Error} :
      (lay root (dir ++ .char '/' :: name.text) sample s).1 = .error fault →
      Runs root dir cases (lay root (dir ++ .char '/' :: name.text) sample s).2 t →
      Runs root dir ((name, true) :: cases) s t

/-- The file of the script, which stands in its directory too. -/
def fileName : Text := "file.txt".text

/-- The directory of the script. -/
def dirName : Text := "dir".text

/-- The keys under which the script puts something: that of its file, that of its directory, and those below. -/
def Scratch (ds : List Text) (k : Text) : Prop :=
  k = ofReduced true (ds ++ [fileName]) ∨ k = ofReduced true (ds ++ [dirName]) ∨
    Under (ofReduced true (ds ++ [dirName])) k

theorem names_fileName : Names [fileName] := by decide

/-- The longest row that the script tries. -/
theorem names_dirName : Names [dirName, fileName, "invalid".text] := by decide

/-- The names of the script are those of rows. -/
theorem below_row {name : String} (hne : bs ≠ []) (hcs : cs ≠ []) (told : joined cs = name.text) :
    ofReduced false bs ++ .char '/' :: name.text = ofReduced false (bs ++ cs) := by
  rw [ofReduced_append hcs hne, told]

section
variable (ha : Names as) (hb : Names bs)
include ha hb

/-- Whatever the script puts below its directory, it puts under its own keys. -/
theorem scratch_row (hc : Names cs) (first : cs = [fileName] ∨ ∃ more, cs = dirName :: more) :
    ∀ rest, rest ≠ [] → rest <+: cs → Scratch (as ++ bs) (ofReduced true (as ++ (bs ++ rest))) := by
  intro rest proper behind
  have names := names_append.2 ⟨names_append.2 ⟨ha, hb⟩, hc.ahead behind⟩
  rw [← List.append_assoc]
  rcases first with rfl | ⟨more, rfl⟩
  · obtain ⟨tail, rfl, short⟩ := (List.prefix_cons_iff.1 behind).resolve_left proper
    rw [List.prefix_nil.1 short]
    exact .inl rfl
  · obtain ⟨tail, rfl, -⟩ := (List.prefix_cons_iff.1 behind).resolve_left proper
    by_cases whole : tail = []
    · rw [whole]
      exact .inr (.inl rfl)
    · have split : as ++ bs ++ dirName :: tail = as ++ bs ++ [dirName] ++ tail := by simp
      rw [split] at names ⊢
      exact .inr (.inr ((under_iff (names_append.1 names).1 names).2 ⟨tail, whole, rfl⟩))

/-- Where nothing stands below the directory, nothing stands under the keys of the script. -/
theorem bare_scratch (labelled : Labelled s)
    (bare : ∀ cs, cs ≠ [] → Names cs → s.get? (ofReduced true (as ++ (bs ++ cs))) = none)
    (member : Scratch (as ++ bs) k) : s.get? k = none := by
  have single (c : Text) (name : Names [c]) : s.get? (ofReduced true (as ++ bs ++ [c])) = none := by
    rw [List.append_assoc]
    exact bare [c] (List.cons_ne_nil c []) name
  have dir : Names [dirName] := by decide
  rcases member with rfl | rfl | under
  · exact single fileName names_fileName
  · exact single dirName dir
  · by_contra stored
    obtain ⟨e, there⟩ := Option.ne_none_iff_exists'.1 stored
    obtain ⟨es, names, rfl⟩ := isKey_iff.1 (labelled.keys k e there)
    obtain ⟨more, -, rfl⟩ := (under_iff (names_append.2 ⟨names_append.2 ⟨ha, hb⟩, dir⟩) names).1 under
    rw [List.append_assoc, List.append_assoc] at there names
    rw [bare _ (by simp) (names_append.1 (names_append.1 names).2).2] at there
    cases there

end

/-- What differs is what is taken out in the end. -/
theorem Scratched.cleaned (scratched : Scratched (Scratch (as ++ bs)) as bs s u)
    (free : ∀ k, Scratch (as ++ bs) k → s.get? k = none) (k : Text) :
    ((u.remove (ofReduced true (as ++ bs ++ [fileName]))).removeAll (ofReduced true (as ++ bs ++ [dirName]))).get? k =
      s.get? k := by
  rw [get?_removeAll (scratched.sound.remove _), get?_remove scratched.sound]
  by_cases member : Scratch (as ++ bs) k
  · rw [free k member]
    rcases member with first | below
    · rw [if_pos first, ite_self]
    · rw [if_pos below]
  · have apart := not_or.1 member
    rw [if_neg apart.2, if_neg apart.1, scratched.same k member]

/-! ## The run of the script -/

theorem Runs.append {dir : Text} {cases cases' : List (String × Bool)} (first : Runs root dir cases s t)
    (second : Runs root dir cases' t u) : Runs root dir (cases ++ cases') s u := by
  induction first with
  | done => exact second
  | laid ok _ ih => exact .laid ok (ih second)
  | refused failed _ ih => exact .refused failed (ih second)

/-- The store once the script has laid its file and the one in its directory. -/
structure Filled (as bs : List Text) (s t : Store Entry) : Prop extends Scratched (Scratch (as ++ bs)) as bs s t where
  directory : IsDirectory t (ofReduced true (as ++ (bs ++ [dirName])))
  file : ∃ o, t.get? (ofReduced true (as ++ (bs ++ [dirName, fileName]))) = some o ∧ o.directory = false

section
variable (ha : Names as) (hb : Names bs)
include ha hb

theorem row_script (hc : Names cs) : Names (as ++ (bs ++ cs)) := names_append.2 ⟨ha, names_append.2 ⟨hb, hc⟩⟩

/-- What is refused leaves the two files. -/
theorem Filled.refused (filled : Filled as bs s t) (hc : Names (dirName :: cs))
    (refused : (lay (ofReduced true as) (ofReduced false (bs ++ dirName :: cs)) sample t).1 = .error fault) :
    Filled as bs s (lay (ofReduced true as) (ofReduced false (bs ++ dirName :: cs)) sample t).2 := by
  have grows := grows_lay_refused rfl refused
  obtain ⟨o, stored, plain⟩ := filled.file
  exact ⟨filled.toScratched.lay (row_script ha hb hc) (List.cons_ne_nil _ _) (scratch_row ha hb hc (.inr ⟨cs, rfl⟩)),
    grows.isDirectory filled.directory, o, grows.kept _ o stored, plain⟩

/-- The file beside the directory can be laid where nothing stands, and then the one in the directory. -/
theorem filled_of_bare (begun : Scratched (Scratch (as ++ bs)) as bs s s)
    (bare : ∀ cs, cs ≠ [] → Names cs → s.get? (ofReduced true (as ++ (bs ++ cs))) = none) :
    ∃ t u, lay (ofReduced true as) (ofReduced false (bs ++ [fileName])) sample s = (.ok (), t) ∧
      lay (ofReduced true as) (ofReduced false (bs ++ [dirName, fileName])) sample t = (.ok (), u) ∧
      Filled as bs s u := by
  have hf := names_fileName
  have hd : Names [dirName, fileName] := by decide
  have laid : (lay (ofReduced true as) (ofReduced false (bs ++ [fileName])) sample s).1 = .ok () := by
    refine lay_ok_below (row_script ha hb hf) (List.cons_ne_nil _ _) begun.way rfl (fun rest proper behind => ?_)
      fun o stored => ?_
    · exact absurd (List.prefix_nil.1 behind) proper
    · rw [bare _ (List.cons_ne_nil _ _) hf] at stored
      cases stored
  have first := begun.lay (e := sample) (row_script ha hb hf) (List.cons_ne_nil _ _)
    (scratch_row ha hb hf (.inl rfl))
  -- The first file stands beside the directory.
  have missing (cs : List Text) (hc : Names (dirName :: cs)) :
      (lay (ofReduced true as) (ofReduced false (bs ++ [fileName])) sample s).2.get?
        (ofReduced true (as ++ (bs ++ dirName :: cs))) = none := by
    rw [← bare _ (List.cons_ne_nil _ _) hc]
    refine get?_lay_below (row_script ha hb hf) (List.cons_ne_nil _ _) begun.way fun rest proper behind same => ?_
    obtain ⟨tail, rfl, -⟩ := (List.prefix_cons_iff.1 behind).resolve_left proper
    have rows := ofReduced_inj (row_script ha hb hc) (row_script ha hb (hf.ahead behind)) same
    have heads := (List.cons.inj (List.append_cancel_left (List.append_cancel_left rows))).1
    exact absurd heads (by decide)
  generalize lay (ofReduced true as) (ofReduced false (bs ++ [fileName])) sample s = x at laid first missing ⊢
  obtain ⟨r, t⟩ := x
  obtain rfl : r = .ok () := laid
  have laid' : (lay (ofReduced true as) (ofReduced false (bs ++ [dirName, fileName])) sample t).1 = .ok () := by
    refine lay_ok_below (row_script ha hb hd) (List.cons_ne_nil _ _) first.way rfl
      (fun rest proper behind o stored => ?_) fun o stored => ?_
    · obtain ⟨tail, rfl, -⟩ := (List.prefix_cons_iff.1 behind).resolve_left proper
      rw [missing _ (hd.dropLast.ahead behind)] at stored
      cases stored
    · rw [missing _ hd] at stored
      cases stored
  have sane : Sane sample := ⟨by decide, fun directory => by cases directory⟩
  have second := first.lay (e := sample) (row_script ha hb hd) (List.cons_ne_nil _ _)
    (scratch_row ha hb hd (.inr ⟨_, rfl⟩))
  have hbd := names_append.2 ⟨hb, hd⟩
  refine ⟨t, _, rfl, Prod.ext laid' rfl, second, ?_, _, lay_end ha hbd sane laid', ?_⟩
  · exact isDirectory_lay ha hbd rfl laid' ((List.prefix_append_right_inj bs).2 ⟨[fileName], rfl⟩) (by simp)
  · exact Entry.directory_onto (lay_ok ha hbd laid')

end

section
variable {cases : List (String × Bool)} {name : String} (hne : bs ≠ [])
include hne

theorem Runs.laid_row (hcs : cs ≠ []) (told : joined cs = name.text)
    (laid : lay (ofReduced true as) (ofReduced false (bs ++ cs)) sample s = (.ok (), t))
    (rest : Runs (ofReduced true as) (ofReduced false bs) cases t u) :
    Runs (ofReduced true as) (ofReduced false bs) ((name, false) :: cases) s u := by
  rw [← below_row hne hcs told] at laid
  exact .laid (by rw [laid]) (by rwa [laid])

theorem Runs.refused_row (hcs : cs ≠ []) (told : joined cs = name.text)
    (refused : (lay (ofReduced true as) (ofReduced false (bs ++ cs)) sample s).1 = .error fault)
    (rest : Runs (ofReduced true as) (ofReduced false bs) cases
      (lay (ofReduced true as) (ofReduced false (bs ++ cs)) sample s).2 t) :
    Runs (ofReduced true as) (ofReduced false bs) ((name, true) :: cases) s t := by
  rw [← below_row hne hcs told] at refused rest
  exact .refused refused rest

variable (ha : Names as) (hb : Names bs)
include ha hb

/-- No file is put in the place of the directory or below a file, nor under a name that is none. -/
theorem Filled.refuses (filled : Filled as bs s t) :
    ∃ u, Runs (ofReduced true as) (ofReduced false bs)
        [("dir", true), ("dir/file.txt/invalid", true), ("file.txt/.", true)] t u ∧ Filled as bs s u := by
  have hi := names_dirName
  have hd : Names [dirName] := by decide
  obtain ⟨fault, refused⟩ := lay_refused_directory (e := sample) ha (names_append.2 ⟨hb, hd⟩) rfl filled.directory
  have filled' := filled.refused ha hb hd refused
  obtain ⟨o, stored, plain⟩ := filled'.file
  have inner : bs ++ [dirName, fileName] <+: bs ++ [dirName, fileName, "invalid".text] :=
    (List.prefix_append_right_inj bs).2 ⟨["invalid".text], rfl⟩
  obtain ⟨fault', refused'⟩ := lay_refused_below (e := sample) ha (names_append.2 ⟨hb, hi⟩) rfl stored plain inner
    (by simp)
  have filled'' := filled'.refused ha hb hi refused'
  have invalid : ¬isValid (ofReduced false bs ++ .char '/' :: "file.txt/.".text) = true := by
    intro valid
    rcases isValid_iff.1 valid with same | proper
    · have inside : .char '/' ∈ here := by
        rw [← same]
        simp
      exact absurd inside (by decide)
    · have last : here ∈ elements (ofReduced false bs ++ .char '/' :: "file.txt/.".text) := by
        rw [elements_append]
        exact List.mem_append_right _ (by decide)
      exact (proper here last).2.1 rfl
  refine ⟨_, .refused_row hne (List.cons_ne_nil _ _) rfl refused (.refused_row hne (List.cons_ne_nil _ _) (by decide)
    refused' (.refused (congrArg Prod.fst (lay_invalid invalid rfl)) ?_)), filled''⟩
  rw [lay_invalid invalid rfl]
  exact .done

/-- The file in the directory is laid once more. -/
theorem Filled.again (filled : Filled as bs s t) :
    ∃ u, Runs (ofReduced true as) (ofReduced false bs) [("dir/file.txt", false)] t u ∧
      Scratched (Scratch (as ++ bs)) as bs s u := by
  have hd : Names [dirName, fileName] := by decide
  have laid : (lay (ofReduced true as) (ofReduced false (bs ++ [dirName, fileName])) sample t).1 = .ok () := by
    refine lay_ok_below (row_script ha hb hd) (List.cons_ne_nil _ _) filled.way rfl
      (fun rest proper behind o stored => ?_) fun o stored => ?_
    · obtain ⟨tail, rfl, short⟩ := (List.prefix_cons_iff.1 behind).resolve_left proper
      obtain ⟨d, there, kind⟩ := filled.directory
      rw [List.prefix_nil.1 short, there] at stored
      exact Option.some.inj stored ▸ kind
    · obtain ⟨o', there, plain⟩ := filled.file
      exact Option.some.inj (there.symm.trans stored) ▸ plain
  exact ⟨_, .laid_row hne (List.cons_ne_nil _ _) (by decide) (Prod.ext laid rfl) .done,
    filled.toScratched.lay (row_script ha hb hd) (List.cons_ne_nil _ _) (scratch_row ha hb hd (.inr ⟨_, rfl⟩))⟩

/-- **The script goes as it must** on a store without a file on the way to its directory and with nothing below it, and
leaves what making the directory leaves, but for its own keys. -/
theorem script_runs (sound : s.Sound)
    (made : (mkdirAll (ofReduced true as) (ofReduced false bs) Mode.standard s).1 = .ok ())
    (bare : ∀ cs, cs ≠ [] → Names cs →
      (mkdirAll (ofReduced true as) (ofReduced false bs) Mode.standard s).2.get? (ofReduced true (as ++ (bs ++ cs))) =
        none) :
    ∃ u, Runs (ofReduced true as) (ofReduced false bs) Filesystem.writeCases s u ∧
      Scratched (Scratch (as ++ bs)) as bs (mkdirAll (ofReduced true as) (ofReduced false bs) Mode.standard s).2 u := by
  have begun : Scratched (Scratch (as ++ bs)) as bs
      (mkdirAll (ofReduced true as) (ofReduced false bs) Mode.standard s).2
      (mkdirAll (ofReduced true as) (ofReduced false bs) Mode.standard s).2 :=
    ⟨(grows_mkdirAll _ _ _ s).sound sound, fun front behind => isDirectory_mkdirAll ha hb made behind, fun _ _ => rfl⟩
  obtain ⟨t, u, laid, laid', filled⟩ := filled_of_bare ha hb begun bare
  obtain ⟨v, refused, filled'⟩ := filled.refuses hne ha hb
  obtain ⟨w, again, scratched⟩ := filled'.again hne ha hb
  -- The first file makes the directories itself.
  have hf := names_append.2 ⟨hb, names_fileName⟩
  have up : parent (ofReduced false (bs ++ [fileName])) = ofReduced false bs := by
    rw [parent_ofReduced hf, List.dropLast_concat]
  have first : lay (ofReduced true as) (ofReduced false (bs ++ [fileName])) sample
        (mkdirAll (ofReduced true as) (parent (ofReduced false (bs ++ [fileName]))) Mode.standard s).2 =
      lay (ofReduced true as) (ofReduced false (bs ++ [fileName])) sample s :=
    lay_behind_way (isValid_iff_names.2 ⟨_, hf, rfl⟩) rfl (by rw [up]; exact made)
  rw [up] at first
  exact ⟨w, .laid_row hne (List.cons_ne_nil _ _) rfl (first.symm.trans laid) (.laid_row hne (List.cons_ne_nil _ _)
    (by decide) laid' (refused.append again)), scratched⟩

end

end Vfs.Memory
