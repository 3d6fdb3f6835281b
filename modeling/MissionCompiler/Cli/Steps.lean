import MissionCompiler.Artifact.Preflight
import MissionCompiler.Artifact.Stale
import Mathlib.Data.List.Sort
import MissionCompiler.Lib.Session
import MissionCompiler.Publish.Publish
import MissionCompiler.Render.Job

/-!
# The steps of a render command

What `render-argo` and `render-kueue` are made of: reading the output directory, writing into it
or into a staging directory, publishing a staged set, and `_report_stale`. Each step ends or
stops the command with a report. The directories hold entries of any kind; a staging directory
begins empty.
-/

namespace MissionCompiler.Cli

open Lib Schema Names Compile Render Artifact Publish

variable {τ σ : Type}

/-! ## Reports -/

/-- What stops a command: an exception that leaves it, or the report it prints instead. -/
inductive Stop where
  | raised (e : Exn)
  | lockUnavailable
  | lintUnavailable
  | noManifests
  | symlinkedManifest (name : String)
  | snapshotFailed
  | unreadable (reasons : List String)
  | lintFailed (output : String)
  | stagingCleanupFailed
  | notOwned
  | publishFailed
  | rollbackIncomplete (unrestored unremoved : List String)
  | scanFailed
  | pruneFailed (removed remaining : List String)

/-- What `_report_stale` adds to a report. -/
structure StaleReport where
  notOurs : List String
  otherInstallation : List String
  clusterScoped : List String
  pruned : List String
  stale : List String

/-- The lint entry of a report. A verdict is about the directory the linter was given. -/
inductive Lint (τ : Type) where
  | passed (linted : String → Option τ)
  | notApplicable

/-- The report of a command that did what it was asked to. -/
structure Report (τ : Type) where
  files : List String
  lint : Option (Lint τ)
  stale : StaleReport

/-! ## Circumstances -/

/-- What taking the publish lock comes to. -/
inductive Lock where
  | acquired
  | unsupported
  | unavailable
deriving DecidableEq

/-- What the linter answers: nothing, or an exit status of a verdict and its output. -/
inductive LintAnswer where
  | unavailable
  | answered (accepted : Bool) (output : String)

/-- What a run meets: which file calls fail, what becomes of the lock, what the policy says of the
plan, and what the two checks of the gate say of a directory. -/
structure Circumstances (τ : Type) where
  faults : Nat → Bool
  survives : String → Bool
  lock : Lock
  policy : MissionPlan → Except Exn Unit
  argoFound : Bool
  unreadable : (String → Option τ) → List String
  lint : (String → Option τ) → LintAnswer

/-- The output directory with the directories beside it. -/
abbrev Directory (τ : Type) := FileSystem Path (Entry τ)

abbrev Run (τ α : Type) := Session (Directory τ) Stop α

/-! ## Reading -/

/-- The names in a directory, sorted. -/
def namesIn (place : Place) (dir : Directory τ) : List String :=
  (dir.files.keys.filterMap fun p => if p.1 = place then some p.2 else none).insertionSort
    (· ≤ ·)

/-- The entries of a directory, sorted by name. -/
def listing (place : Place) (dir : Directory τ) : List (String × Entry τ) :=
  (namesIn place dir).filterMap fun n => (dir.at? (place, n)).map fun e => (n, e)

/-- The regular files of the staging directory. -/
def stagedTexts (dir : Directory τ) (name : String) : Option τ :=
  match dir.at? (.staging, name) with
  | some (.regular text) => some text
  | _ => none

/-! ## Writing -/

/-- A staging directory: it is new, so there is nothing in it. -/
def makeStaging : Run τ Unit := Session.modify (FileSystem.without fun p => p.1 == .staging)

/-- `atomic_write`, for each planned file. One document is dumped as one, several as several. -/
def writeAll (c : Circumstances τ) (format : Format τ σ) (place : Place) :
    List (String × List Json) → Run τ Unit
  | [] => pure ()
  | (name, docs) :: rest => do
    Session.call (.raised .osError)
      (FileSystem.write c.faults (place, name) (.regular (format.dump docs)))
    writeAll c format place rest

/-- `_publish`. -/
def publishSet (c : Circumstances τ) (names : List String) : Run τ Unit := fun dir =>
  match publish c.faults c.survives names dir with
  | (.returned _, dir) => (.ok (), dir)
  | (.raised, dir) => (.error .publishFailed, dir)
  | (.rolledBackPartially unrestored unremoved, dir) =>
    (.error (.rollbackIncomplete unrestored unremoved), dir)

/-! ## Stale files -/

/-- The loop over the files that are removed. The first failure ends it. -/
def removeAll (faults : Nat → Bool) : List String → List String → Run τ (List String)
  | [], removed => pure removed
  | name :: rest, removed => do
    Session.call (.pruneFailed removed (name :: rest)) (FileSystem.unlink faults (.out, name))
    removeAll faults rest (removed ++ [name])

/-- The end of `_report_stale`: the files of the run are removed, or told of. -/
def pruneOrTell (faults : Nat → Bool) (prune : Bool) (files : StaleFiles τ) :
    Run τ StaleReport :=
  let names := fun fs : List (String × Entry τ) => fs.map Prod.fst
  if prune then do
    let removed ← removeAll faults (names files.mine) []
    return ⟨names files.notOurs, names files.theirs, names files.heldBack, removed, []⟩
  else pure ⟨names files.notOurs, names files.theirs, names files.heldBack, [], names files.mine⟩

section

variable [Scalars σ] (c : Circumstances τ) (format : Format τ σ)

/-- The scan of `_report_stale`. -/
def scanStale (run : Reconciliation) (current : List String) : Run τ (StaleFiles τ) := do
  Session.call .scanFailed (FileSystem.look c.faults)
  let files ← Session.reads fun dir => staleFiles format run current (listing .out dir)
  Session.lift .raised files

/-- `_report_stale`. -/
def reportStale (run : Reconciliation) (prune : Bool) (current : List String) :
    Run τ StaleReport := do
  let files ← scanStale c format run current
  pruneOrTell c.faults prune files

/-- `preflight_writable`, for a directory. The two commands differ in what becomes of the
exception. -/
def preflight (report : Exn → Stop) (place : Place)
    (planned : Directory τ → List (String × Option (List (Yaml σ)))) : Run τ Unit := do
  let verdict ← Session.reads fun dir =>
    preflightWritable format (fun name => dir.at? (place, name)) (planned dir)
  Session.lift report verdict

end

/-- The handler of the `ValueError` a preflight raises. -/
def ownershipReport : Exn → Stop
  | .valueError => .notOwned
  | e => .raised e

/-- The lock of a writer that is no gate: where nothing can lock, nothing holds the lock. -/
def takeLock (lock : Lock) : Run τ Unit :=
  Session.require .lockUnavailable (lock != .unavailable)

/-- The lock of the gate. -/
def takeLockOrStop (lock : Lock) : Run τ Unit :=
  Session.require .lockUnavailable (lock == .acquired)

end MissionCompiler.Cli
