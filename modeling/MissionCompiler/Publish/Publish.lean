import MissionCompiler.Lib.Files

/-!
# Publishing a set of files

`_publish`: the staged files are moved into the output directory one by one, what they displace
is kept in a backup directory, and when a call fails the files that were moved are removed again
and the displaced ones are moved back. The staged names are the names of the targets, which are
regular files or nothing at all.
-/

namespace MissionCompiler.Publish

open Lib

/-- The three directories of a publication. -/
inductive Place where
  | out
  | backup
  | staging
deriving DecidableEq

/-- A file of one of them. -/
abbrev Path := Place × String

variable {α : Type}

/-- The variables of the loop over the staged files. -/
structure Publishing (α : Type) where
  fs : FileSystem Path α
  displaced : List String
  published : List String

/-- `if target.exists(): os.replace(target, kept)`. -/
def displace (faults : Nat → Bool) (name : String) (s : Publishing α) : Bool × Publishing α :=
  if (s.fs.at? (.out, name)).isSome then
    match s.fs.replace faults (.out, name) (.backup, name) with
    | (true, fs) => (true, { s with fs := fs, displaced := s.displaced ++ [name] })
    | (false, fs) => (false, { s with fs := fs })
  else (true, s)

/-- `os.replace(path, target)`. -/
def land (faults : Nat → Bool) (name : String) (s : Publishing α) : Bool × Publishing α :=
  match s.fs.replace faults (.staging, name) (.out, name) with
  | (true, fs) => (true, { s with fs := fs, published := s.published ++ [name] })
  | (false, fs) => (false, { s with fs := fs })

/-- The loop over the staged files, which the first failure ends. -/
def publishLoop (faults : Nat → Bool) : List String → Publishing α → Bool × Publishing α
  | [], s => (true, s)
  | name :: names, s =>
    match displace faults name s with
    | (false, s) => (false, s)
    | (true, s) => match land faults name s with
      | (false, s) => (false, s)
      | (true, s) => publishLoop faults names s

/-- The first loop of the rollback: the files that cannot be removed are listed. -/
def unpublish (faults : Nat → Bool) :
    List String → FileSystem Path α → List String → FileSystem Path α × List String
  | [], fs, unremoved => (fs, unremoved)
  | name :: names, fs, unremoved =>
    match fs.unlink faults (.out, name) with
    | (true, fs) => unpublish faults names fs unremoved
    | (false, fs) => unpublish faults names fs (unremoved ++ [name])

/-- The second loop of the rollback. A file that is put back takes the place of one that could
not be removed. -/
def restore (faults : Nat → Bool) : List String → FileSystem Path α → List String → List String →
    FileSystem Path α × List String × List String
  | [], fs, unrestored, unremoved => (fs, unrestored, unremoved)
  | name :: names, fs, unrestored, unremoved =>
    match fs.replace faults (.backup, name) (.out, name) with
    | (true, fs) => restore faults names fs unrestored (unremoved.filter (· != name))
    | (false, fs) => restore faults names fs (unrestored ++ [name]) unremoved

/-- How a publication ends: it returns, it raises the `OSError` it met, or it raises
`PublishRolledBackPartially`. -/
inductive Outcome where
  | returned (published : List String)
  | raised
  | rolledBackPartially (unrestored unremoved : List String)
deriving DecidableEq

/-- `_discard_backup`: what of the backup cannot be removed stays. -/
def discardBackup (survives : String → Bool) (fs : FileSystem Path α) : FileSystem Path α :=
  { fs with files := (fs.files.keys.filter fun p =>
      p.1 == .backup && !survives p.2).foldl (fun files p => files.erase p) fs.files }

/-- The handler of an `OSError`. -/
def rollBack (faults : Nat → Bool) (s : Publishing α) : Outcome × FileSystem Path α :=
  let (fs, unremoved) := unpublish faults s.published s.fs []
  let (fs, unrestored, unremoved) := restore faults s.displaced fs [] unremoved
  if unrestored.isEmpty && unremoved.isEmpty then (.raised, fs)
  else (.rolledBackPartially unrestored unremoved, fs)

/-- `_publish` up to the backup, which holds what was displaced. -/
def publishKeeping (faults : Nat → Bool) (staged : List String) (fs : FileSystem Path α) :
    Outcome × FileSystem Path α :=
  match publishLoop faults staged ⟨fs, [], []⟩ with
  | (true, s) => (.returned s.published, s.fs)
  | (false, s) => rollBack faults s

/-- `_publish`. The backup is discarded unless it is needed for recovery. -/
def publish (faults : Nat → Bool) (survives : String → Bool) (staged : List String)
    (fs : FileSystem Path α) : Outcome × FileSystem Path α :=
  match publishKeeping faults staged fs with
  | (.rolledBackPartially unrestored unremoved, fs) =>
    (.rolledBackPartially unrestored unremoved, fs)
  | (outcome, fs) => (outcome, discardBackup survives fs)

end MissionCompiler.Publish
