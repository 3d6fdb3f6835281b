import MissionCompiler.Cli.Effects

/-!
# What the steps of a command see

Every step reads the directories by their names and changes them file by file, so two records of
the same files make no difference to it (`Respects`). Before a command asks for the lock it sees
nothing of the output directory.
-/

namespace MissionCompiler.Publish

open Lib

variable {α : Type} {fs fs' : FileSystem Path α}

/-- Directories with the same files. -/
abbrev Same : FileSystem Path α → FileSystem Path α → Prop := FileSystem.Alike fun _ => True

/-- Publications that came to the same. -/
structure Publishing.Same (s s' : Publishing α) : Prop where
  fs : Publish.Same s.fs s'.fs
  displaced : s.displaced = s'.displaced
  published : s.published = s'.published

variable {s s' : Publishing α}

/-- Setting a file aside does not tell records of the same files apart. -/
theorem Publishing.Same.displace (h : s.Same s') (faults : Nat → Bool) (name : String) :
    (Publish.displace faults name s).1 = (Publish.displace faults name s').1 ∧
      (Publish.displace faults name s).2.Same (Publish.displace faults name s').2 := by
  unfold Publish.displace
  rw [h.fs.at? (.out, name) trivial]
  split
  · obtain ⟨ok, t, t', hs, hs', hfs⟩ := Session.same_result
      (h.fs.replace faults (.out, name) (.backup, name) trivial)
    rw [hs, hs']
    cases ok with
    | true => exact ⟨rfl, hfs, congrArg (· ++ [name]) h.displaced, h.published⟩
    | false => exact ⟨rfl, hfs, h.displaced, h.published⟩
  · exact ⟨rfl, h⟩

/-- Moving a staged file into place does not tell records of the same files apart. -/
theorem Publishing.Same.land (h : s.Same s') (faults : Nat → Bool) (name : String) :
    (Publish.land faults name s).1 = (Publish.land faults name s').1 ∧
      (Publish.land faults name s).2.Same (Publish.land faults name s').2 := by
  unfold Publish.land
  obtain ⟨ok, t, t', hs, hs', hfs⟩ := Session.same_result
    (h.fs.replace faults (.staging, name) (.out, name) trivial)
  rw [hs, hs']
  cases ok with
  | true => exact ⟨rfl, hfs, h.displaced, congrArg (· ++ [name]) h.published⟩
  | false => exact ⟨rfl, hfs, h.displaced, h.published⟩

/-- The loop over all files does not tell records of the same files apart. -/
theorem Publishing.Same.publishLoop (h : s.Same s') (faults : Nat → Bool) (names : List String) :
    (Publish.publishLoop faults names s).1 = (Publish.publishLoop faults names s').1 ∧
      (Publish.publishLoop faults names s).2.Same (Publish.publishLoop faults names s').2 := by
  induction names generalizing s s' with
  | nil => exact ⟨rfl, h⟩
  | cons name names ih =>
    unfold Publish.publishLoop
    obtain ⟨displaced, t, t', hs, hs', h₁⟩ := Session.same_result (h.displace faults name)
    rw [hs, hs']
    cases displaced with
    | false => exact ⟨rfl, h₁⟩
    | true =>
      obtain ⟨landed, u, u', ht, ht', h₂⟩ := Session.same_result (h₁.land faults name)
      simp only [ht, ht']
      cases landed with
      | false => exact ⟨rfl, h₂⟩
      | true => exact ih h₂

/-- What was published is removed alike. -/
theorem unpublish_same (h : Same fs fs') (faults : Nat → Bool) (names unremoved : List String) :
    Same (unpublish faults names fs unremoved).1 (unpublish faults names fs' unremoved).1 ∧
      (unpublish faults names fs unremoved).2 = (unpublish faults names fs' unremoved).2 := by
  induction names generalizing fs fs' unremoved with
  | nil => exact ⟨h, rfl⟩
  | cons name names ih =>
    unfold unpublish
    obtain ⟨ok, t, t', hs, hs', hfs⟩ := Session.same_result
      (h.unlink faults (.out, name) trivial)
    rw [hs, hs']
    cases ok with
    | true => exact ih hfs unremoved
    | false => exact ih hfs (unremoved ++ [name])

/-- What was displaced is put back alike. -/
theorem restore_same (h : Same fs fs') (faults : Nat → Bool)
    (names unrestored unremoved : List String) :
    Same (restore faults names fs unrestored unremoved).1
        (restore faults names fs' unrestored unremoved).1 ∧
      (restore faults names fs unrestored unremoved).2 =
        (restore faults names fs' unrestored unremoved).2 := by
  induction names generalizing fs fs' unrestored unremoved with
  | nil => exact ⟨h, rfl⟩
  | cons name names ih =>
    unfold restore
    obtain ⟨ok, t, t', hs, hs', hfs⟩ := Session.same_result
      (h.replace faults (.backup, name) (.out, name) trivial)
    rw [hs, hs']
    cases ok with
    | true => exact ih hfs unrestored (unremoved.filter (· != name))
    | false => exact ih hfs (unrestored ++ [name]) unremoved

/-- A publication that failed goes back alike. -/
theorem Publishing.Same.rollBack (h : s.Same s') (faults : Nat → Bool) :
    (Publish.rollBack faults s).1 = (Publish.rollBack faults s').1 ∧
      Publish.Same (Publish.rollBack faults s).2 (Publish.rollBack faults s').2 := by
  obtain ⟨h₁, hunremoved⟩ := unpublish_same h.fs faults s.published []
  obtain ⟨h₂, hrest⟩ := restore_same h₁ faults s.displaced []
    (unpublish faults s.published s.fs []).2
  rw [hunremoved] at hrest h₂
  unfold Publish.rollBack
  simp only [← h.published, ← h.displaced, hunremoved, hrest]
  split
  · exact ⟨rfl, h₂⟩
  · exact ⟨rfl, h₂⟩

/-- What of the backup is left does not depend on the record. -/
theorem discardBackup_same (h : Same fs fs') (survives : String → Bool) :
    Same (discardBackup survives fs) (discardBackup survives fs') := by
  refine ⟨fun p _ => ?_, h.calls⟩
  rw [at?_discardBackup, at?_discardBackup, h.at? p trivial]

theorem publishKeeping_same (h : Same fs fs') (faults : Nat → Bool) (staged : List String) :
    (publishKeeping faults staged fs).1 = (publishKeeping faults staged fs').1 ∧
      Same (publishKeeping faults staged fs).2 (publishKeeping faults staged fs').2 := by
  have hstart : Publishing.Same ⟨fs, [], []⟩ ⟨fs', [], []⟩ := ⟨h, rfl, rfl⟩
  obtain ⟨ok, t, t', hs, hs', hend⟩ := Session.same_result (hstart.publishLoop faults staged)
  unfold publishKeeping
  rw [hs, hs']
  cases ok with
  | true => exact ⟨congrArg Outcome.returned hend.published, hend.fs⟩
  | false => exact hend.rollBack faults

/-- `_publish` does not tell records of the same files apart, however it ends. -/
theorem publish_same (h : Same fs fs') (faults : Nat → Bool) (survives : String → Bool)
    (staged : List String) :
    (publish faults survives staged fs).1 = (publish faults survives staged fs').1 ∧
      Same (publish faults survives staged fs).2 (publish faults survives staged fs').2 := by
  obtain ⟨outcome, t, t', hs, hs', hend⟩ :=
    Session.same_result (publishKeeping_same h faults staged)
  unfold publish
  rw [hs, hs']
  cases outcome with
  | returned published => exact ⟨rfl, discardBackup_same hend survives⟩
  | raised => exact ⟨rfl, discardBackup_same hend survives⟩
  | rolledBackPartially unrestored unremoved => exact ⟨rfl, hend⟩

end MissionCompiler.Publish

namespace MissionCompiler.Cli

open Lib Schema Names Compile Render Artifact Publish

variable {τ σ : Type} {here : Place → Prop} {dir dir' : Directory τ}

/-- Directories that have the same files in some of the three. -/
abbrev Alike (here : Place → Prop) : Directory τ → Directory τ → Prop :=
  FileSystem.Alike fun p => here p.1

/-! ## Shared and own -/

/-- The output directory, which all runs share. -/
abbrev Out (τ : Type) := String → Option (Entry τ)

/-- What a run has to itself: its staging directory, its backup directory, its calls. -/
structure Own (τ : Type) where
  staging : String → Option (Entry τ)
  backup : String → Option (Entry τ)
  calls : Nat

def outOf (dir : Directory τ) : Out τ := fun name => dir.at? (.out, name)

def ownOf (dir : Directory τ) : Own τ :=
  ⟨fun name => dir.at? (.staging, name), fun name => dir.at? (.backup, name), dir.calls⟩

def viewOf (dir : Directory τ) : Out τ × Own τ := (outOf dir, ownOf dir)

/-- A run that has not begun: its directories are new. -/
def Own.new : Own τ := ⟨fun _ => none, fun _ => none, 0⟩

/-- The output directory beside the own directories of a run. -/
def beside (mine dir : Directory τ) : Directory τ where
  files := (mine.without fun p => p.1 == .out).files.union (dir.without fun p => p.1 != .out).files
  calls := mine.calls

/-- The output directory at the turn of a run that has not begun. -/
def atTurn (dir : Directory τ) : Directory τ := beside ⟨∅, 0⟩ dir

/-- The own directories are all a run sees while it does not look at the output. -/
theorem ownOf_eq_iff : ownOf dir = ownOf dir' ↔ Alike (· ≠ .out) dir dir' := by
  constructor
  · intro h
    injection h with hstaging hbackup hcalls
    refine ⟨fun ⟨place, name⟩ hplace => ?_, hcalls⟩
    cases place with
    | out => exact absurd rfl hplace
    | staging => exact congrFun hstaging name
    | backup => exact congrFun hbackup name
  · intro h
    have hstaging : ∀ name, dir.at? (.staging, name) = dir'.at? (.staging, name) :=
      fun name => h.at? _ Place.noConfusion
    have hbackup : ∀ name, dir.at? (.backup, name) = dir'.at? (.backup, name) :=
      fun name => h.at? _ Place.noConfusion
    simp only [ownOf, hstaging, hbackup, h.calls]

/-- The three directories are all there is to see. -/
theorem viewOf_eq_iff : viewOf dir = viewOf dir' ↔ Alike (fun _ => True) dir dir' := by
  constructor
  · intro h
    obtain ⟨hout, hown⟩ := Prod.mk.inj h
    have hown := ownOf_eq_iff.mp hown
    refine ⟨fun ⟨place, name⟩ _ => ?_, hown.calls⟩
    by_cases hplace : place = .out
    · subst hplace
      exact congrFun hout name
    · exact hown.at? (place, name) hplace
  · intro h
    refine Prod.ext (funext fun name => h.at? _ trivial) ?_
    exact ownOf_eq_iff.mpr ⟨fun p _ => h.at? p trivial, h.calls⟩

/-- Beside the own directories of a run the output is the shared one. -/
theorem at?_beside (mine dir : Directory τ) (p : Path) :
    (beside mine dir).at? p = if p.1 = .out then dir.at? p else mine.at? p := by
  have hmine := FileSystem.at?_without (fun p => p.1 == .out) mine p
  have hdir := FileSystem.at?_without (fun p => p.1 != .out) dir p
  show ((mine.without fun p => p.1 == .out).files ∪ (dir.without fun p => p.1 != .out).files).lookup
    p = _
  by_cases hp : p.1 = .out
  · rw [if_pos (beq_iff_eq.mpr hp)] at hmine
    rw [if_neg (fun h => bne_iff_ne.mp h hp)] at hdir
    rw [AList.lookup_union_right (AList.lookup_eq_none.mp hmine), if_pos hp]
    exact hdir
  · rw [if_neg (fun h => hp (beq_iff_eq.mp h))] at hmine
    rw [if_pos (bne_iff_ne.mpr hp)] at hdir
    rw [if_neg hp]
    by_cases hmem : p ∈ (mine.without fun p => p.1 == .out).files
    · exact (AList.lookup_union_left hmem).trans hmine
    · rw [AList.lookup_union_right hmem, ← hmine]
      exact Eq.trans hdir (AList.lookup_eq_none.mpr hmem).symm

theorem viewOf_beside (mine dir : Directory τ) :
    viewOf (beside mine dir) = (outOf dir, ownOf mine) := by
  refine Prod.ext (funext fun name => ?_) (ownOf_eq_iff.mpr ⟨fun p hp => ?_, rfl⟩)
  · exact (at?_beside mine dir (.out, name)).trans (if_pos rfl)
  · exact (at?_beside mine dir p).trans (if_neg hp)

/-- A run has its turn with the shared output and with nothing of its own. -/
theorem viewOf_atTurn (dir : Directory τ) : viewOf (atTurn dir) = (outOf dir, Own.new) :=
  viewOf_beside _ dir

/-- Steps that leave the output alone leave what the others share. -/
theorem outOf_eq_of_sameIn (h : SameIn .out dir dir') : outOf dir' = outOf dir :=
  funext h

/-! ## Reading -/

/-- A directory that is alike has the same names. -/
theorem namesIn_congr (h : Alike here dir dir') {place : Place} (hplace : here place) :
    namesIn place dir = namesIn place dir' := by
  have hsorted : ∀ d : Directory τ, (namesIn place d).Pairwise (· ≤ ·) :=
    fun _ => List.pairwise_insertionSort _ _
  refine List.Perm.eq_of_pairwise (fun _ _ _ _ => le_antisymm) (hsorted dir) (hsorted dir') ?_
  refine (List.perm_ext_iff_of_nodup (nodup_namesIn place dir) (nodup_namesIn place dir')).mpr
    fun name => ?_
  rw [mem_namesIn, mem_namesIn, h.at? (place, name) hplace]

/-- A directory that is alike is listed alike, entry by entry. -/
theorem listing_congr (h : Alike here dir dir') {place : Place} (hplace : here place) :
    listing place dir = listing place dir' := by
  unfold listing
  rw [namesIn_congr h hplace]
  refine List.filterMap_congr fun name _ => ?_
  rw [h.at? (place, name) hplace]

/-- A listing says nothing but what is in its directory. -/
theorem listing_sameIn {place : Place} (h : SameIn place dir dir') :
    listing place dir' = listing place dir := by
  have halike : Alike (· = place) { dir' with calls := dir.calls } dir := by
    refine ⟨fun p hp => ?_, rfl⟩
    obtain ⟨_, name⟩ := p
    cases hp
    exact h name
  exact listing_congr halike rfl

/-- What is staged is read alike. -/
theorem stagedTexts_congr (h : Alike here dir dir') (hstaging : here .staging) :
    stagedTexts dir = stagedTexts dir' := by
  funext name
  unfold stagedTexts
  rw [h.at? (.staging, name) hstaging]

/-! ## Steps -/

section

variable {c : Circumstances τ}

/-- A new staging directory does not depend on what was in the old one. -/
theorem respects_makeStaging : Session.Respects (Alike here) (makeStaging : Run τ Unit) :=
  Session.respects_modify fun _ _ h => h.without _

/-- Writing a set of files looks at none. -/
theorem respects_writeAll {format : Format τ σ} (place : Place)
    (planned : List (String × List Json)) :
    Session.Respects (Alike here) (writeAll c format place planned) := by
  induction planned with
  | nil => exact Session.respects_pure ()
  | cons file rest ih =>
    refine Session.Respects.bind ?_ fun _ => ih
    exact Session.respects_call (fun _ _ h => h.write c.faults _ _) _

/-- Publishing sees all three directories and nothing else. -/
theorem respects_publishSet (names : List String) :
    Session.Respects (Alike fun _ => True) (publishSet c names : Run τ Unit) := by
  intro dir dir' h
  obtain ⟨outcome, t, t', hs, hs', hend⟩ :=
    Session.same_result (publish_same h c.faults c.survives names)
  unfold publishSet
  rw [hs, hs']
  cases outcome <;> exact ⟨rfl, hend⟩

/-- A removal sees the output alone. -/
theorem respects_removeAll (hout : here .out) (faults : Nat → Bool)
    (names removed : List String) :
    Session.Respects (Alike here) (removeAll faults names removed : Run τ _) := by
  induction names generalizing removed with
  | nil => exact Session.respects_pure removed
  | cons name names ih =>
    refine Session.Respects.bind ?_ fun _ => ih _
    exact Session.respects_call (fun _ _ h => h.unlink faults _ hout) _

/-- What is stale is removed or told by its name in the output. -/
theorem respects_pruneOrTell (hout : here .out) (faults : Nat → Bool) (prune : Bool)
    (files : StaleFiles τ) : Session.Respects (Alike here) (pruneOrTell faults prune files) := by
  unfold pruneOrTell
  cases prune with
  | true => exact (respects_removeAll hout faults _ _).bind fun _ => Session.respects_pure _
  | false => exact Session.respects_pure _

theorem respects_carryEntry (name : String) (entry : Entry τ) :
    Session.Respects (Alike here) (carryEntry c name entry) := by
  cases entry with
  | symlink target => exact Session.respects_stop _
  | other => exact Session.respects_pure []
  | regular text =>
    refine Session.Respects.bind ?_ fun _ => Session.respects_pure [name]
    exact Session.respects_call (fun _ _ h => h.write c.faults _ _) _

/-- What is carried into the staging directory is given, and not looked up. -/
theorem respects_carryManifests (skipped : List String) (files : List (String × Entry τ)) :
    Session.Respects (Alike here) (carryManifests c skipped files) := by
  induction files with
  | nil => exact Session.respects_pure []
  | cons file files ih =>
    refine Session.Respects.bind ?_ fun _ => ih.bind fun _ => Session.respects_pure _
    show Session.Respects (Alike here) (carryUnless c skipped file.1 file.2)
    unfold carryUnless
    split
    · exact Session.respects_pure []
    · exact respects_carryEntry file.1 file.2

/-- What was carried is dropped from the staging directory. -/
theorem respects_dropCarried (hstaging : here .staging) (carried : List String) :
    Session.Respects (Alike here) (dropCarried c carried : Run τ Unit) := by
  induction carried with
  | nil => exact Session.respects_pure ()
  | cons name carried ih =>
    refine Session.Respects.bind ?_ fun _ => ih
    exact Session.respects_call (fun _ _ h => h.unlink c.faults _ hstaging) _

/-- The linter sees the staging directory alone. -/
theorem respects_lintSnapshot (hstaging : here .staging) (carried : List String) :
    Session.Respects (Alike here) (lintSnapshot c carried) := by
  refine Session.Respects.bind
    (Session.respects_reads fun _ _ h => stagedTexts_congr h hstaging) fun linted => ?_
  refine (Session.respects_require _ _).bind fun _ => ?_
  cases c.lint linted with
  | unavailable => exact Session.respects_stop _
  | answered accepted output =>
    refine (respects_dropCarried hstaging carried).bind fun _ => ?_
    exact (Session.respects_require _ _).bind fun _ => Session.respects_pure _

variable [Scalars σ] {format : Format τ σ} {host : Host}

/-- The stale files are told by the listing of the output. -/
theorem respects_reportStale (hout : here .out) (run : Reconciliation) (prune : Bool)
    (current : List String) :
    Session.Respects (Alike here) (reportStale c format run prune current) := by
  refine Session.Respects.bind ?_ fun files => respects_pruneOrTell hout c.faults prune files
  refine (Session.respects_call (fun _ _ h => h.look c.faults) _).bind fun _ => ?_
  refine Session.Respects.bind (Session.respects_reads fun _ _ h => ?_) fun files =>
    Session.respects_lift _ files
  rw [listing_congr h hout]

/-- A preflight sees the place it guards, and what is planned for it. -/
theorem respects_preflight {report : Exn → Stop} {place : Place} (hplace : here place)
    {planned : Directory τ → List (String × Option (List (Yaml σ)))}
    (hplanned : ∀ dir dir', Alike here dir dir' → planned dir = planned dir') :
    Session.Respects (Alike here) (preflight format report place planned) := by
  refine Session.Respects.bind (Session.respects_reads fun dir dir' h => ?_) fun verdict =>
    Session.respects_lift _ verdict
  rw [hplanned dir dir' h]
  congr 1
  funext name
  exact h.at? (place, name) hplace

/-- `write_individual_workflows` sees no more than the directory it writes into. -/
theorem respects_writeIndividualWorkflows {place : Place} (hplace : here place)
    (plan : MissionPlan) (options : ArgoOptions) :
    Session.Respects (Alike here)
      (writeIndividualWorkflows c format host place plan options) := by
  refine (Session.respects_lift _ _).bind fun _ => ?_
  refine (Session.respects_lift _ _).bind fun planned => ?_
  refine (Session.respects_lift _ _).bind fun _ => ?_
  refine (respects_preflight hplace fun _ _ _ => rfl).bind fun _ => ?_
  exact (respects_writeAll place planned).bind fun _ => Session.respects_pure _

/-- The snapshot is taken of the output. -/
theorem respects_snapshot (hout : here .out) (run : Reconciliation) (prune : Bool)
    (current : List String) :
    Session.Respects (Alike here) (snapshot c format run prune current) := by
  refine (Session.respects_call (fun _ _ h => h.look c.faults) _).bind fun _ => ?_
  refine (Session.respects_reads fun _ _ h => listing_congr h hout).bind fun files => ?_
  refine (Session.respects_call (fun _ _ h => h.look c.faults) _).bind fun _ => ?_
  exact (Session.respects_lift _ _).bind fun leaving => respects_carryManifests _ _

end

end MissionCompiler.Cli
