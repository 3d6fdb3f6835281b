import MissionCompiler.Lib.Directories

/-!
# Where a render is assembled

`_nearest_existing_ancestor`, `_same_filesystem`, `_staging_root` and `_make_staging`: a render is
staged beside its output, on the filesystem of the output, and not where a consumer of the output
would read it. The directories that `_publish` makes on the way to the output are removed again when
it rolls back.
-/

namespace MissionCompiler.Cli.Staging

open Lib

/-- `str(path)`. -/
def textOf (path : PathText) : String :=
  if path.parts = [] then if path.absolute then "/" else "."
  else (if path.absolute then "/" else "") ++ "/".intercalate path.parts

/-- `StagingUnavailable` with its message, or the `OSError` of a `stat`. -/
inductive StagingError where
  | unavailable (message : String)
  | osError
deriving DecidableEq

variable {α : Type} (m : Machine α)

/-- The loop of `_nearest_existing_ancestor`, for a path of so many names. -/
def climb : Nat → PathText → PathText
  | 0, current => current
  | n + 1, current => if m.isDir current then current else climb n current.parent

/-- `_nearest_existing_ancestor`. -/
def nearestExistingAncestor (path : PathText) : PathText :=
  climb m (m.absolute path).parts.length (m.absolute path)

/-- `path.stat()`. -/
def statOf (path : PathText) : Except StagingError (List String) :=
  match m.stat path with
  | .ok there => .ok there
  | .error _ => .error .osError

/-- `_same_filesystem`. -/
def sameFilesystem (a b : PathText) : Except StagingError Bool := do
  let a ← statOf m a
  let b ← statOf m b
  return m.device a == m.device b

/-- `_staging_root`. -/
def stagingRoot (outDir : PathText) (stagingDir : Option PathText) :
    Except StagingError PathText := do
  let anchor := if m.isDir outDir then outDir else nearestExistingAncestor m outDir
  match stagingDir with
  | some chosen =>
    if ← sameFilesystem m chosen anchor then return chosen
    else throw (.unavailable ("--staging-dir " ++ textOf chosen ++
      " is on a different filesystem from " ++ textOf anchor ++
      ", and publishing is a rename, which cannot cross one"))
  | none =>
    if !m.isDir outDir then return anchor
    else
      let beside := (m.absolute outDir).parent
      let across : StagingError := .unavailable (textOf outDir ++
        " is on a different filesystem from " ++ textOf beside ++
        ", so a render cannot be staged beside it and published by rename")
      if beside = m.absolute outDir then
        throw (.unavailable (textOf outDir ++
          " is its own parent, so there is nowhere beside it to stage " ++
          "a render that a consumer of the output would not read"))
      else if !m.isDir beside then throw across
      else if ← sameFilesystem m beside outDir then return beside
      else throw across

/-- `os.path.normpath` of the names of an absolute path: `..` undoes the name before it, wherever
that one leads. -/
def collapse (parts : List String) : List String :=
  parts.foldl (fun kept part => if part = ".." then kept.dropLast else kept ++ [part]) []

/-- What `mkdtemp` returns of the directory it made: from Python 3.12 on its `os.path.abspath`. -/
def mkdtempPath (abspath : Bool) (path : PathText) : PathText :=
  if abspath then ⟨true, collapse (m.absolute path).parts⟩ else path

/-- `_make_staging`, with the name that `mkdtemp` comes up with and what it says when it fails. -/
def makeStaging (objects : List String → Bool) (describe : MkdirError → String) (abspath : Bool)
    (name : String) (outDir : PathText) (stagingDir : Option PathText) :
    Except StagingError PathText × Machine α :=
  match stagingRoot m outDir stagingDir with
  | .error error => (.error error, m)
  | .ok root =>
    match m.osMkdir objects ⟨root.absolute, root.parts ++ [name]⟩ with
    | (none, made) => (.ok (mkdtempPath m abspath ⟨root.absolute, root.parts ++ [name]⟩), made)
    | (some error, made) =>
      (.error (.unavailable ("a staging directory could not be created in " ++ textOf root ++
        ": " ++ describe error)), made)

/-- The loop of `_publish` that lists the directories it is about to make, for a path of so many
names. -/
def createdDirs : Nat → PathText → List PathText
  | 0, _ => []
  | n + 1, probe => if m.isDir probe then [] else probe :: createdDirs n probe.parent

/-- `created.rmdir()` for each of them. -/
def removeCreated (objects : List String → Bool) (created : List PathText) (m : Machine α) :
    Machine α :=
  created.foldl (fun m path => m.rmdir objects path) m

/-! ## The root -/

variable {m} {outDir root chosen : PathText} {front names there place : List String} {name : String}
  {objects : List String → Bool} {made : Machine α}

/-- The climb ends at the first directory, which is what of the path is there. -/
theorem climb_eq (hdir : m.isDir ⟨true, front⟩ = true)
    (hmissing : ∀ before, before ≠ [] → before <+: names →
      m.isDir ⟨true, front ++ before⟩ = false) :
    climb m (front ++ names).length ⟨true, front ++ names⟩ = ⟨true, front⟩ := by
  induction names using List.reverseRecOn with
  | nil =>
    rw [List.append_nil]
    cases hlength : front.length with
    | zero => rfl
    | succ n => rw [climb, if_pos hdir]
  | append_singleton names last ih =>
    have hlast := hmissing (names ++ [last]) (by simp) List.prefix_rfl
    have hlength : (front ++ (names ++ [last])).length = (front ++ names).length + 1 := by
      simp [← Nat.add_assoc]
    rw [hlength, climb, if_neg (by simp [hlast]), PathText.parent, ← List.append_assoc,
      List.dropLast_concat]
    exact ih fun before hbefore hle => hmissing before hbefore (hle.trans (List.prefix_append ..))

/-- The nearest ancestor that is there is the longest front that leads to a directory. -/
theorem nearestExistingAncestor_eq (h : m.Anchored outDir front names) :
    nearestExistingAncestor m outDir = ⟨true, front⟩ := by
  rw [nearestExistingAncestor, h.absolute_eq]
  exact climb_eq h.directory h.missing

/-- Two paths are compared by the devices of where they lead. -/
theorem sameFilesystem_eq_ok {a b : PathText} {same : Bool}
    (h : sameFilesystem m a b = .ok same) : ∃ there place, m.stat a = .ok there ∧
      m.stat b = .ok place ∧ same = (m.device there == m.device place) := by
  unfold sameFilesystem statOf at h
  cases ha : m.stat a with
  | error error =>
    rw [ha] at h
    cases h
  | ok there =>
    cases hb : m.stat b with
    | error error =>
      rw [ha, hb] at h
      cases h
    | ok place =>
      rw [ha, hb] at h
      exact ⟨there, place, rfl, rfl, (Except.ok.inj h).symm⟩

/-- Without a staging directory: what of a missing output is there, and else what is beside the
output, when a rename reaches it. -/
theorem stagingRoot_default (hsettled : m.Settled) (hanchored : m.Anchored outDir front names)
    (h : stagingRoot m outDir none = .ok root) : names ≠ [] ∧ root = ⟨true, front⟩ ∨ names = [] ∧
      ∃ before name there place, front = before ++ [name] ∧ root = ⟨true, before⟩ ∧
        m.stat root = .ok there ∧ m.stat outDir = .ok place ∧ m.device there = m.device place := by
  have hdir := hanchored.isDir_iff hsettled
  by_cases hnames : names = []
  · right
    refine ⟨hnames, ?_⟩
    simp only [stagingRoot, hdir.mpr hnames, Bool.not_true, Bool.false_eq_true, if_false] at h
    split at h
    · cases h
    · next hparent =>
      split at h
      · cases h
      · cases hsame : sameFilesystem m (m.absolute outDir).parent outDir with
        | error error =>
          rw [hsame] at h
          cases h
        | ok same =>
          obtain ⟨there, place, hthere, hplace, rfl⟩ := sameFilesystem_eq_ok hsame
          rw [hsame] at h
          cases hdevice : m.device there == m.device place with
          | false =>
            rw [hdevice] at h
            cases h
          | true =>
            rw [hdevice] at h
            obtain rfl := Except.ok.inj h
            rw [hanchored.absolute_eq, hnames, List.append_nil] at hparent hthere ⊢
            rcases List.eq_nil_or_concat' front with rfl | ⟨before, name, rfl⟩
            · exact absurd rfl hparent
            · refine ⟨before, name, there, place, rfl, ?_, hthere, hplace, eq_of_beq hdevice⟩
              rw [PathText.parent, List.dropLast_concat]
  · left
    have hnotDir : m.isDir outDir = false := Bool.eq_false_iff.mpr fun h => hnames (hdir.mp h)
    simp only [stagingRoot, hnotDir, Bool.not_false, if_true, Bool.false_eq_true, if_false] at h
    exact ⟨hnames, (Except.ok.inj h).symm.trans (nearestExistingAncestor_eq hanchored)⟩

theorem sameFilesystem_of_stat {a b : PathText} (ha : m.stat a = .ok there)
    (hb : m.stat b = .ok place) :
    sameFilesystem m a b = .ok (m.device there == m.device place) := by
  unfold sameFilesystem statOf
  rw [ha, hb]
  rfl

/-- What is above the output is a directory on the filesystem of the output. -/
def Renamable (m : Machine α) (outDir : PathText) : Prop :=
  ∃ before name there place, (m.absolute outDir).parts = before ++ [name] ∧
    m.stat ⟨true, before⟩ = .ok there ∧ m.stat outDir = .ok place ∧ m.device there = m.device place

/-- Without a staging directory, only an output that is the root of the tree or of a filesystem is
refused: what is above an output is always a directory. -/
theorem stagingRoot_answers (hsettled : m.Settled) :
    (∃ root, stagingRoot m outDir none = .ok root) ↔
      (m.isDir outDir = true → Renamable m outDir) := by
  obtain ⟨front, names, hanchored⟩ := Machine.exists_anchored m outDir
  constructor
  · rintro ⟨root, hroot⟩ hdir
    rcases stagingRoot_default hsettled hanchored hroot with ⟨hmissing, -⟩ |
      ⟨rfl, before, name, there, place, rfl, rfl, hthere, hplace, hdevice⟩
    · exact absurd ((hanchored.isDir_iff hsettled).mp hdir) hmissing
    · exact ⟨before, name, there, place, hanchored.parts.trans (List.append_nil _), hthere, hplace,
        hdevice⟩
  · intro hrename
    cases hdir : m.isDir outDir with
    | false => simp [stagingRoot, hdir, pure, Except.pure]
    | true =>
      obtain ⟨before, name, there, place, hparts, hthere, hplace, hdevice⟩ := hrename hdir
      have hbeside : (m.absolute outDir).parent = ⟨true, before⟩ := by
        rw [PathText.parent, hparts, List.dropLast_concat]
        rfl
      have hother : (⟨true, before⟩ : PathText) ≠ m.absolute outDir := by
        intro he
        have hlength := congrArg (fun path => path.parts.length) he
        simp [hparts] at hlength
      have habove : m.isDir ⟨true, before⟩ = true := by
        have hstat := hplace
        rw [← Machine.stat_absolute hsettled] at hstat
        obtain ⟨there', hthere', hdirectory, -⟩ := Machine.stat_parent hsettled hparts hstat
        rw [hbeside] at hthere'
        exact Machine.isDir_iff.mpr ⟨there', hthere', hdirectory⟩
      refine ⟨⟨true, before⟩, ?_⟩
      simp [stagingRoot, hdir, hbeside, hother, habove, sameFilesystem_of_stat hthere hplace,
        hdevice, pure, Except.pure, bind, Except.bind]

/-- A path ends in `..`, or in a link. -/
def TurnsBack (m : Machine α) (path : PathText) : Prop :=
  ∃ before name, (m.absolute path).parts = before ++ [name] ∧ (¬ IsName name ∨
    ∃ there target, m.stat ⟨true, before⟩ = .ok there ∧
      m.tree.node (there ++ [name]) = some (.link target))

/-- The directory at `there` is on the filesystem of the output at `place`, and what is in it is not
in the output, unless the path of the output turns back. -/
structure Beside (m made : Machine α) (outDir : PathText) (there place : List String) : Prop where
  root : made.tree.node there = some .directory
  output : made.tree.node place = some .directory
  renamed : made.device there = made.device place
  outside : place <+: there → TurnsBack m outDir
  inside : (∃ before, (m.absolute outDir).parts = before ++ [".."]) → place <+: there

/-- Something stands where a path leads. -/
theorem stat_stands (hsettled : m.Settled) {path : PathText} (h : m.stat path = .ok place) :
    ∃ node, m.tree.node place = some node := by
  rw [Machine.stat_eq_ok] at h
  rcases h.stands (Machine.start_directory hsettled) with hnode | ⟨content, hnode⟩
  · exact ⟨_, hnode⟩
  · exact ⟨_, hnode⟩

/-- Beside an output that was missing is what of its path was there, and the output is below it. -/
theorem beside_missing (hsettled : m.Settled) (hanchored : m.Anchored outDir front names)
    (hnames : names ≠ []) (hstat : m.stat ⟨true, front⟩ = .ok place)
    (hdirectory : m.tree.node place = some .directory) (hmade : m.Made place names made) :
    made.stat ⟨true, front⟩ = .ok place ∧ made.stat outDir = .ok (place ++ names) ∧
      Beside m made outDir place (place ++ names) := by
  refine ⟨?_, ?_, hmade.grows _ _ hdirectory, hmade.directory hdirectory, ?_, ?_, ?_⟩
  · rw [Machine.stat_eq_ok] at hstat ⊢
    rw [hmade.unmoved.2]
    exact hstat.grow hmade.grows
  · rw [← Machine.stat_absolute (hmade.settled hsettled)]
    have hbelow := hmade.stat_below hdirectory hstat
    rwa [← hanchored.absolute_eq, Machine.absolute, ← hmade.unmoved.1] at hbelow
  · rw [hmade.device, hmade.device_kept hdirectory]
  · intro hle
    have hlength := hle.length_le
    have hpos := List.length_pos_iff.mpr hnames
    simp only [List.length_append] at hlength
    omega
  · rintro ⟨before, hbefore⟩
    rcases List.eq_nil_or_concat' names with rfl | ⟨names, last, rfl⟩
    · exact absurd rfl hnames
    · rw [hanchored.parts, ← List.append_assoc] at hbefore
      obtain ⟨-, hlast⟩ := List.append_inj' hbefore rfl
      exact absurd (List.singleton_inj.mp hlast) (hmade.isName last (by simp)).2.2

/-- Beside an output that was there is what is above it, whichever way its path gets there. -/
theorem beside_existing (hsettled : m.Settled) {before : List String}
    (hparts : (m.absolute outDir).parts = before ++ [name])
    (hthere : m.stat ⟨true, before⟩ = .ok there) (hplace : m.stat outDir = .ok place)
    (hdirectory : m.tree.node place = some .directory) (hdevice : m.device there = m.device place) :
    Beside m m outDir there place := by
  rw [← Machine.stat_absolute hsettled] at hplace
  obtain ⟨there', hthere', hroot, hwalks⟩ := Machine.stat_parent hsettled hparts hplace
  rw [PathText.parent, hparts, List.dropLast_concat] at hthere'
  obtain rfl := Except.ok.inj (hthere'.symm.trans hthere)
  refine ⟨hroot, hdirectory, hdevice, fun hle => ?_, ?_⟩
  · refine ⟨before, name, hparts, ?_⟩
    by_contra hturns
    obtain ⟨hname, hlink⟩ := not_or.mp hturns
    have hnolink : ∀ target, m.tree.node (there' ++ [name]) ≠ some (.link target) :=
      fun target htarget => hlink ⟨there', target, hthere, htarget⟩
    have hdown : place = there' ++ [name] := by
      rcases hwalks.entered (not_not.mp hname) hnolink with ⟨-, hdown⟩ | hdown
      · exact hdown
      · exact RootedTree.walks_nil.mp hdown
    have hlength := hle.length_le
    rw [hdown, List.length_append, List.length_singleton] at hlength
    omega
  · rintro ⟨before', hbefore'⟩
    obtain ⟨-, hname⟩ := List.append_inj' (hparts.symm.trans hbefore') rfl
    obtain rfl := List.singleton_inj.mp hname
    have hup : m.tree.Walks m.links there' [".."] there'.dropLast := .up .here
    rw [hwalks.unique hup]
    exact List.dropLast_prefix _

/-- What may have come to the machine in the meantime: directories and files, but nothing of the
path. -/
structure Later (m now : Machine α) (path : PathText) : Prop where
  settled : now.Settled
  grows : m.tree.Grows now.tree
  workingDirectory : now.workingDirectory = m.workingDirectory
  links : now.links = m.links
  device : ∀ place node, m.tree.node place = some node → now.device place = m.device place
  anchored : ∀ front names, m.Anchored path front names → now.Anchored path front names

/-- A path leads later where it led. -/
theorem Later.stat {now : Machine α} (hlater : Later m now outDir) {path : PathText}
    (h : m.stat path = .ok place) : now.stat path = .ok place := by
  rw [Machine.stat_eq_ok] at h ⊢
  rw [hlater.workingDirectory, hlater.links]
  exact h.grow hlater.grows

/-- Whether the output was there or not, the root is beside it once it is made. -/
theorem beside_of_stagingRoot {now : Machine α} {n : Nat} (hsettled : m.Settled)
    (hanchored : m.Anchored outDir front names) (hnames : ∀ part ∈ names, IsName part)
    (hroot : stagingRoot m outDir none = .ok root) (hlater : Later m now outDir)
    (hmkdir : now.mkdirParents objects n outDir = (none, made)) :
    ∃ there place, made.stat root = .ok there ∧ made.stat outDir = .ok place ∧
      Beside now made outDir there place := by
  have hanchored' := hlater.anchored front names hanchored
  obtain ⟨place, hstat, hdirectory, hmade⟩ :=
    Machine.mkdirParents_made hlater.settled hanchored' hnames hmkdir
  rcases stagingRoot_default hsettled hanchored hroot with ⟨hmissing, rfl⟩ |
    ⟨rfl, before, name, there, place', rfl, rfl, hthere, hplace, hdevice⟩
  · exact ⟨place, place ++ names,
      beside_missing hlater.settled hanchored' hmissing hstat hdirectory hmade⟩
  · obtain rfl := hmade.eq_of_nil
    have hparts := hanchored'.parts
    have hsame := hanchored'.absolute_eq
    rw [List.append_nil] at hparts hsame
    have hplace' := hlater.stat hplace
    rw [← hsame, Machine.stat_absolute hlater.settled, hplace'] at hstat
    obtain rfl := Except.ok.inj hstat
    refine ⟨there, place', hlater.stat hthere, hplace',
      beside_existing hlater.settled hparts (hlater.stat hthere) hplace' hdirectory ?_⟩
    obtain ⟨node, hnode⟩ := stat_stands hsettled hthere
    obtain ⟨node', hnode'⟩ := stat_stands hsettled hplace
    rw [hlater.device _ _ hnode, hlater.device _ _ hnode', hdevice]

/-- Where there is no `..` nothing is undone. -/
theorem collapse_of_notMem {parts : List String} (h : ".." ∉ parts) : collapse parts = parts := by
  induction parts using List.reverseRecOn with
  | nil => rfl
  | append_singleton parts part ih =>
    rw [List.mem_append, not_or, List.mem_singleton, eq_comm (a := "..")] at h
    rw [collapse, List.foldl_append]
    show (if part = ".." then (collapse parts).dropLast else collapse parts ++ [part]) = _
    rw [if_neg h.2, ih h.1]

/-- Without a staging directory the root is told by an absolute path. -/
theorem stagingRoot_absolute (hsettled : m.Settled) (h : stagingRoot m outDir none = .ok root) :
    root = ⟨true, root.parts⟩ := by
  obtain ⟨front, names, hanchored⟩ := Machine.exists_anchored m outDir
  rcases stagingRoot_default hsettled hanchored h with
    ⟨-, rfl⟩ | ⟨-, before, name, there, place, -, rfl, -⟩
  · rfl
  · rfl

/-- A staging directory is new and stands in the root. The path that is returned leads there, unless
it had a `..` that was undone. -/
theorem makeStaging_made {describe : MkdirError → String} {abspath : Bool} {staging : PathText}
    (hsettled : m.Settled)
    (h : makeStaging m objects describe abspath name outDir none = (.ok staging, made)) :
    ∃ root there, ∃ hdirectory : m.tree.node there = some .directory,
      stagingRoot m outDir none = .ok root ∧ m.stat root = .ok there ∧
        m.tree.node (there ++ [name]) = none ∧ made = m.make there name hdirectory ∧
          ((abspath = true → ".." ∉ root.parts) → made.stat staging = .ok (there ++ [name])) := by
  unfold makeStaging at h
  split at h
  · cases h
  · next root hroot =>
    split at h
    · next made' hcall =>
      obtain ⟨_, last, there, hdirectory, hparts, hname, hthere, hfree, rfl⟩ :=
        Machine.osMkdir_made hcall
      obtain ⟨-, hlast⟩ := List.append_inj' hparts rfl
      obtain rfl := List.singleton_inj.mp hlast
      rw [PathText.parent, List.dropLast_concat] at hthere
      obtain ⟨hstaging, rfl⟩ := Prod.mk.inj h
      refine ⟨root, there, hdirectory, hroot, hthere, hfree, rfl, fun hplain => ?_⟩
      have habsolute := stagingRoot_absolute hsettled hroot
      have hpath : staging = ⟨true, root.parts ++ [name]⟩ := by
        rw [← Except.ok.inj hstaging, habsolute]
        unfold mkdtempPath
        split
        · next hnewer =>
          have hnone : ".." ∉ root.parts ++ [name] := by
            rw [List.mem_append, not_or, List.mem_singleton]
            exact ⟨hplain hnewer, fun heq => hname.2.2 heq.symm⟩
          rw [Machine.absolute, if_pos rfl, List.nil_append, collapse_of_notMem hnone]
        · rfl
      rw [hpath]
      rw [habsolute] at hthere
      exact (Machine.Made.single hname hdirectory hfree).stat_below hdirectory hthere
    · cases h

/-- A path that leads to a directory leads to none that is made later. -/
theorem before_of_new (hsettled : m.Settled) (hplace : m.stat outDir = .ok place)
    (hfree : m.tree.node (there ++ [name]) = none) (hle : place <+: there ++ [name]) :
    place <+: there := by
  rcases List.prefix_concat_iff.mp hle with rfl | hle
  · obtain ⟨node, hnode⟩ := stat_stands hsettled hplace
    rw [hfree] at hnode
    cases hnode
  · exact hle

/-- What of a path is missing are names: no `..` leads out of what is not there. -/
def Straight (m : Machine α) (path : PathText) : Prop :=
  ∀ front names, m.Anchored path front names → ∀ part ∈ names, IsName part

/-- A render is staged beside its output. Whatever links the path of the output has, whatever names
of it are missing and whatever else is made in the meantime, once the output is made the root to
stage in is a directory on the same filesystem, so that a rename reaches the output, and it is
neither the output nor below it, where a consumer of the output would read what is staged. The
exception is a path that ends in a link or in `..`: with `..` the root always is in the output. A
`..` may not come after a name that is missing: then it leads out of what will be made. A staging
directory is new in the root, and the path that is returned leads to it where that of the root has
no `..`, or `mkdtemp` returns it as it is. Only an output that is the root of the tree or of a
filesystem has no place beside it. -/
theorem staged_beside (hsettled : m.Settled) :
    ((∃ root, stagingRoot m outDir none = .ok root) ↔
      (m.isDir outDir = true → Renamable m outDir)) ∧
    (∀ root now objects n made, stagingRoot m outDir none = .ok root → Straight m outDir →
      Later m now outDir → now.mkdirParents objects n outDir = (none, made) →
        ∃ there place, made.stat root = .ok there ∧ made.stat outDir = .ok place ∧
          Beside now made outDir there place) ∧
    ∀ objects describe abspath name staging made,
      makeStaging m objects describe abspath name outDir none = (.ok staging, made) →
        ∃ root there, stagingRoot m outDir none = .ok root ∧ m.stat root = .ok there ∧
          m.tree.node (there ++ [name]) = none ∧
          made.tree.node (there ++ [name]) = some .directory ∧
          ((abspath = true → ".." ∉ root.parts) → made.stat staging = .ok (there ++ [name])) ∧
          ∀ place, m.stat outDir = .ok place → place <+: there ++ [name] → place <+: there := by
  refine ⟨stagingRoot_answers hsettled, ?_, ?_⟩
  · intro root now objects n made hroot hstraight hlater hmkdir
    obtain ⟨front, names, hanchored⟩ := Machine.exists_anchored m outDir
    exact beside_of_stagingRoot hsettled hanchored (hstraight front names hanchored) hroot hlater
      hmkdir
  · intro objects describe abspath name staging made hmake
    obtain ⟨root, there, hdirectory, hroot, hthere, hfree, rfl, hleads⟩ :=
      makeStaging_made hsettled hmake
    exact ⟨root, there, hroot, hthere, hfree, Function.update_self .., hleads, fun place hplace =>
      before_of_new hsettled hplace hfree⟩

/-- Nothing may have happened in the meantime. -/
theorem Later.rfl (hsettled : m.Settled) : Later m m outDir where
  settled := hsettled
  grows _ _ hnode := hnode
  workingDirectory := Eq.refl _
  links := Eq.refl _
  device _ _ _ := Eq.refl _
  anchored _ _ hanchored := hanchored

/-- The machine after a directory was made beside what is missing of a path. -/
theorem Later.make (hsettled : m.Settled) (hdirectory : m.tree.node there = some .directory)
    (hfree : m.tree.node (there ++ [name]) = none) (hanchored : m.Anchored outDir front names)
    (hstill : (m.make there name hdirectory).Anchored outDir front names) :
    Later m (m.make there name hdirectory) outDir where
  settled := by
    refine ⟨hsettled.names, ?_⟩
    exact RootedTree.grows_make hdirectory hfree _ _ hsettled.directory
  grows := RootedTree.grows_make hdirectory hfree
  workingDirectory := Eq.refl _
  links := Eq.refl _
  device place node hnode := by
    refine Function.update_of_ne ?_ _ _
    rintro heq
    rw [heq, hfree] at hnode
    cases hnode
  anchored front' names' hanchored' := by
    obtain ⟨hfront, hnames⟩ := hanchored'.unique hanchored
    rw [hfront, hnames]
    exact hstill

/-- A path without `..` is straight. -/
theorem straight_of_names (hnames : ∀ part ∈ (m.absolute outDir).parts, IsName part) :
    Straight m outDir := by
  intro front names hanchored part hpart
  apply hnames
  rw [hanchored.parts]
  exact List.mem_append_right _ hpart

/-- A run below `/srv`, where there is nothing yet. -/
def sampleMachine : Machine Unit where
  tree := RootedTree.bare.make [] "srv" rfl
  device _ := 0
  workingDirectory := ["srv"]
  links := 40

theorem sampleMachine_settled : sampleMachine.Settled :=
  ⟨by decide, rfl⟩

def sampleOutput : PathText := ⟨false, ["out", "argo"]⟩

theorem sampleOutput_straight : Straight sampleMachine sampleOutput :=
  straight_of_names (by decide)

theorem sampleMachine_staged : ∃ root there place made,
    stagingRoot sampleMachine sampleOutput none = .ok root ∧
      made.stat root = .ok there ∧ made.stat sampleOutput = .ok place ∧
        Beside sampleMachine made sampleOutput there place := by
  have hspec := @staged_beside _ sampleMachine sampleOutput sampleMachine_settled
  obtain ⟨root, hroot⟩ := hspec.1.mpr fun hdir => absurd hdir (by decide)
  obtain ⟨there, place, hplaces⟩ := hspec.2.1 root sampleMachine (fun _ => false) 2 _ hroot
    sampleOutput_straight (.rfl sampleMachine_settled) (Prod.ext (by decide) rfl)
  exact ⟨root, there, place, _, hroot, hplaces⟩

/-! ## The directories of a publication -/

/-- An output that is there is not made. -/
theorem createdDirs_of_isDir (hdir : m.isDir outDir = true) (n : Nat) :
    createdDirs m n outDir = [] := by
  cases n with
  | zero => rfl
  | succ n => rw [createdDirs, if_pos hdir]

/-- What was listed and is made is removed again, one directory after the other. -/
theorem removeCreated_made {now after : Machine α} (hdir : m.isDir ⟨true, front⟩ = true)
    (hmissing : ∀ before, before ≠ [] → before <+: names →
      m.isDir ⟨true, front ++ before⟩ = false)
    (hstat : now.stat ⟨true, front⟩ = .ok place)
    (hdirectory : now.tree.node place = some .directory) (hmade : now.Made place names made)
    (htree : after.tree = made.tree) (hlinks : after.links = made.links)
    (hobjects : ∀ path, objects path = false) :
    (removeCreated objects (createdDirs m (front ++ names).length ⟨true, front ++ names⟩)
      after).tree = now.tree := by
  induction names using List.reverseRecOn generalizing made after with
  | nil =>
    rw [createdDirs_of_isDir (by rwa [List.append_nil])]
    exact htree.trans (congrArg Machine.tree hmade.eq_of_nil)
  | append_singleton names name ih =>
    obtain ⟨before, hbefore, hbeforeMade, hname, hfree, rfl⟩ := hmade.last
    obtain ⟨htree', hlinks'⟩ := hbeforeMade.rmdir hdirectory hstat hname hbefore hfree htree hlinks
      hobjects
    have hlast := hmissing (names ++ [name]) (by simp) List.prefix_rfl
    have hlength : (front ++ (names ++ [name])).length = (front ++ names).length + 1 := by
      simp [← Nat.add_assoc]
    have hparent : (⟨true, front ++ (names ++ [name])⟩ : PathText).parent =
        ⟨true, front ++ names⟩ := by
      rw [PathText.parent, ← List.append_assoc, List.dropLast_concat]
    rw [hlength, createdDirs, if_neg (by simp [hlast]), hparent, removeCreated, List.foldl_cons]
    exact ih (fun part hpart hle => hmissing part hpart (hle.trans (List.prefix_append ..)))
      hbeforeMade htree' hlinks'

/-- What is no directory is not removed. -/
theorem removeCreated_keeps {created : List PathText} {node : TreeNode α}
    (hnode : m.tree.node there = some node) (hother : node ≠ .directory) :
    (removeCreated objects created m).tree.node there = some node := by
  induction created generalizing m with
  | nil => exact hnode
  | cons path created ih => exact ih (Machine.rmdir_keeps hnode hother)

/-- The directories that a publication makes on the way to its output are gone when it has rolled
back, and the tree is what it was before they were made. They are listed first, and other things,
such as the backup directory, may be made before they are; but a path with `..` after a name that is
missing is told otherwise than it is made. Whatever came into the tree in the meantime, nothing but
a directory is removed. -/
theorem createdDirs_removed {now : Machine α} {n : Nat} (hstraight : Straight m outDir)
    (hlater : Later m now outDir) (hmkdir : now.mkdirParents objects n outDir = (none, made))
    {unlinkable : List String → Bool} (hobjects : ∀ path, unlinkable path = false) :
    (∀ after : Machine α, after.tree = made.tree → after.links = made.links →
      (removeCreated unlinkable
        (createdDirs m (m.absolute outDir).parts.length (m.absolute outDir)) after).tree =
          now.tree) ∧
    ∀ (after : Machine α) there node, after.tree.node there = some node → node ≠ .directory →
      (removeCreated unlinkable
        (createdDirs m (m.absolute outDir).parts.length (m.absolute outDir)) after).tree.node
          there = some node := by
  refine ⟨fun after htree hlinks => ?_, fun after there node => removeCreated_keeps⟩
  obtain ⟨front, names, hanchored⟩ := Machine.exists_anchored m outDir
  have hanchored' := hlater.anchored front names hanchored
  obtain ⟨place, hstat, hdirectory, hmade⟩ :=
    Machine.mkdirParents_made hlater.settled hanchored' (hstraight front names hanchored) hmkdir
  rw [hanchored.absolute_eq]
  exact removeCreated_made hanchored.directory hanchored.missing hstat hdirectory hmade htree hlinks
    hobjects

/-! In the run below `/srv` the backup directory is made there, after the listing. -/

theorem sampleOutput_anchored {m : Machine Unit}
    (hparts : (m.absolute sampleOutput).parts = ["srv", "out", "argo"])
    (hsrv : m.isDir ⟨true, ["srv"]⟩ = true) (hout : m.isDir ⟨true, ["srv", "out"]⟩ = false)
    (hargo : m.isDir ⟨true, ["srv", "out", "argo"]⟩ = false) :
    m.Anchored sampleOutput ["srv"] ["out", "argo"] where
  parts := hparts
  directory := hsrv
  missing before hbefore hle := by
    rw [← List.mem_inits] at hle
    simp only [List.inits, List.map_cons, List.map_nil, List.mem_cons, List.not_mem_nil,
      or_false] at hle
    rcases hle with rfl | rfl | rfl
    · exact absurd rfl hbefore
    · exact hout
    · exact hargo

def backedUpMachine : Machine Unit := sampleMachine.make ["srv"] "backup" rfl

theorem backedUpMachine_later : Later sampleMachine backedUpMachine sampleOutput :=
  Later.make sampleMachine_settled rfl (by decide)
    (sampleOutput_anchored (by decide) (by decide) (by decide) (by decide))
    (sampleOutput_anchored (by decide) (by decide) (by decide) (by decide))

theorem sampleMachine_restored :
    (removeCreated (fun _ => false)
      (createdDirs sampleMachine 3 (sampleMachine.absolute sampleOutput))
      (backedUpMachine.mkdirParents (fun _ => false) 2 sampleOutput).2).tree =
        backedUpMachine.tree :=
  (createdDirs_removed sampleOutput_straight backedUpMachine_later (Prod.ext (by decide) rfl)
    (fun _ => rfl)).1 _ rfl rfl

end MissionCompiler.Cli.Staging
