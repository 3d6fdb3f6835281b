import MissionCompiler.Artifact.Ownership

/-!
# What a render may overwrite

`preflight_writable` and what it reads of the documents a render is about to write. A planned
path is free, or holds a file of the same owner.
-/

namespace MissionCompiler.Artifact

open Lib Schema Names Compile Render

variable {τ σ : Type}

/-- `dict.get(key, default)`. -/
def getAttrOr (key : String) (default : Yaml σ) : Yaml σ → Except Exn (Yaml σ)
  | .dict entries => .ok ((Yaml.at? key (.dict entries)).getD default)
  | _ => .error .attributeError

section

variable [Scalars σ]

/-- The one element of a set that has one. -/
def onlyOf (xs : List (Yaml σ)) : Yaml σ :=
  match distinct Yaml.same xs with
  | [x] => x
  | _ => .null

def readMark (doc : Yaml σ) : Except Exn (Yaml σ) := do
  let labels ← getAttrOr "labels" (.dict []) (doc.get "metadata").orEmpty
  let mark ← labels.getAttr missionFingerprintLabel
  mark.hashed

/-- `_rendered_mission`, of the documents of a text; a text that cannot be read has none. -/
def renderedMission : Option (List (Yaml σ)) → Except Exn (Yaml σ)
  | none => .ok .null
  | some docs => do
    let marks ← (docs.filter Yaml.isDict).mapM readMark
    return onlyOf marks

/-- `_rendered_owner_id`. -/
def renderedOwnerId : Option (List (Yaml σ)) → Except Exn (Yaml σ)
  | none => .ok .null
  | some docs => do
    let owners ← readOwnerIds (docs.filter Yaml.isDict)
    return onlyOf owners

/-- Whether the owner of a file without a mission is the owner of the documents. -/
def sameInstallation (theirs : ArtifactMission σ) (ours : Yaml σ)
    (rendered : Option (List (Yaml σ))) : Except Exn Bool :=
  if ours.isNull then do
    let ownerId ← renderedOwnerId rendered
    return theirs.ownerId.same ownerId
  else .ok false

/-- `same_owner`. -/
def sameOwner (theirs : ArtifactMission σ) (ours : Yaml σ)
    (rendered : Option (List (Yaml σ))) : Except Exn Bool :=
  match theirs.owner with
  | .mission => .ok (theirs.mission.any fun m => ours.eqStr m)
  | .unmissioned => sameInstallation theirs ours rendered
  | _ => .ok false

/-- Whether documents may take the place of a rendered file. -/
def replaceable (format : Format τ σ) (entry : Entry τ) (rendered : Option (List (Yaml σ))) :
    Except Exn Bool := do
  let theirs ← artifactMission format entry
  let ours ← renderedMission rendered
  sameOwner theirs ours rendered

/-- The body of the loop of `preflight_writable`. -/
def isConflict (format : Format τ σ) (rendered : Option (List (Yaml σ))) :
    Option (Entry τ) → Except Exn Bool
  | none => .ok false
  | some (.symlink _) => .ok true
  | some entry =>
    if isRenderedArtifact format entry then do
      let same ← replaceable format entry rendered
      return !same
    else .ok true

/-- The refusal to overwrite, which names every conflict. -/
def refuseConflicts : List (String × Option (List (Yaml σ))) → Except Exn Unit
  | [] => .ok ()
  | _ => .error .valueError

/-- `preflight_writable`, of a directory and the documents planned for it. -/
def preflightWritable (format : Format τ σ) (present : String → Option (Entry τ))
    (planned : List (String × Option (List (Yaml σ)))) : Except Exn Unit := do
  let conflicts ← filterM (fun file => isConflict format file.2 (present file.1)) planned
  refuseConflicts conflicts

end

end MissionCompiler.Artifact
