import MissionCompiler.Lib.Yaml
import MissionCompiler.Render.Workflow

/-!
# Whose a rendered file is

`_is_rendered_artifact` and `_artifact_mission`: what a directory entry says about the tool, the
mission and the renderer it comes from. A rendered file is told by its labels alone, and an
operator can write any labels, so both read documents of every shape.
-/

namespace MissionCompiler.Artifact

open Lib Schema Names Compile Render

variable {τ σ : Type}

/-- PyYAML, on the texts of files: `safe_load_all`, which gives nothing when it raises, and
`safe_dump_all`. -/
structure Format (τ σ : Type) where
  load : τ → Option (List (Yaml σ))
  dump : List Json → τ

/-- A directory entry, as `lstat` tells it. -/
inductive Entry (τ : Type) where
  | regular (text : τ)
  | symlink (target : String)
  | other

/-! ## Managed files -/

def labelsOf (doc : Yaml σ) : Yaml σ := (doc.get "metadata").get "labels"

def annotationsOf (doc : Yaml σ) : Yaml σ := (doc.get "metadata").get "annotations"

/-- The body of the loop of `_is_rendered_artifact`. -/
def isManaged (doc : Yaml σ) : Bool :=
  doc.isDict && (doc.get "metadata").isDict && (labelsOf doc).isDict &&
    ((labelsOf doc).get managedByLabel).eqStr managedByValue

/-- The documents of a file that are not empty. -/
def written (docs : List (Yaml σ)) : List (Yaml σ) := docs.filter fun d => !d.isNull

/-- `_is_rendered_artifact`. -/
def isRenderedArtifact (format : Format τ σ) : Entry τ → Bool
  | .regular text => match format.load text with
    | some docs => !(written docs).isEmpty && (written docs).all isManaged
    | none => false
  | _ => false

/-! ## Owners -/

inductive ArtifactOwner where
  | mission
  | unmissioned
  | mixed
  | malformed
deriving DecidableEq

structure ArtifactMission (σ : Type) where
  owner : ArtifactOwner
  mission : Option String
  scope : Yaml σ
  ownerId : Yaml σ
  renderer : Yaml σ

/-- `ArtifactMission(owner)`, which names nobody. -/
def ArtifactMission.unnamed (owner : ArtifactOwner) : ArtifactMission σ :=
  ⟨owner, none, .null, .null, .null⟩

/-- The renderer, the scope and the schema of a document. -/
structure Stamp (σ : Type) where
  renderer : Yaml σ
  scope : Yaml σ
  schema : Yaml σ

def stampOf (labels : Yaml σ) : Stamp σ :=
  ⟨labels.get rendererLabel, labels.get ownerScopeLabel, labels.get ownershipSchemaLabel⟩

def Stamp.hashed (stamp : Stamp σ) : Except Exn (Stamp σ) := do
  let renderer ← stamp.renderer.hashed
  let scope ← stamp.scope.hashed
  let schema ← stamp.schema.hashed
  return ⟨renderer, scope, schema⟩

/-- The stamps of the documents, which a set has to be able to hold. -/
def readStamps (labels : List (Yaml σ)) : Except Exn (List (Stamp σ)) :=
  (labels.filter Yaml.isDict).mapM fun l => (stampOf l).hashed

/-- The fingerprint of a document, which need not have one. One that is there has to be text
with something in it. -/
def markOf (labels : Yaml σ) : Option (Option String) :=
  match labels.at? missionFingerprintLabel with
  | none => some none
  | some (.str mark) => if pyBlank mark then none else some (some mark)
  | some _ => none

/-- The schemas an owner may be read under: the current one, or none at all. -/
def schemaKnown (schema : Yaml σ) : Bool := schema.isNull || schema.eqStr ownershipSchemaVersion

/-- The end of `_artifact_mission`: documents that agree on everything but their fingerprints. -/
def claimant (marks : List (Option String)) (stamp : Stamp σ) (ownerId : Yaml σ) :
    ArtifactMission σ :=
  match (marks.filterMap id).dedup, marks.dedup.length with
  | [], _ => ⟨.unmissioned, none, stamp.scope, ownerId, stamp.renderer⟩
  | [mission], 1 => ⟨.mission, some mission, stamp.scope, ownerId, stamp.renderer⟩
  | _, _ => .unnamed .mixed

/-- A schema that is not known is not read any further. -/
def underSchema (marks : List (Option String)) (stamp : Stamp σ) (ownerId : Yaml σ) :
    ArtifactMission σ :=
  if schemaKnown stamp.schema then claimant marks stamp ownerId else .unnamed .malformed

section

variable [Scalars σ]

def Stamp.same (a b : Stamp σ) : Bool :=
  a.renderer.same b.renderer && a.scope.same b.scope && a.schema.same b.schema

/-- `(d.get("metadata") or {}).get("labels") or {}`. -/
def readLabels (doc : Yaml σ) : Except Exn (Yaml σ) := do
  let labels ← (doc.get "metadata").orEmpty.getAttr "labels"
  return labels.orEmpty

/-- `((d.get("metadata") or {}).get("annotations") or {}).get(OWNER_ID_ANNOTATION)`. -/
def readOwnerId (doc : Yaml σ) : Except Exn (Yaml σ) := do
  let annotations ← (doc.get "metadata").orEmpty.getAttr "annotations"
  annotations.orEmpty.getAttr ownerIdAnnotationKey

/-- Two of the sets of `_artifact_mission`, with the marks: at most one stamp, at most one
owner. -/
def agreement (marks : List (Option String)) (stamps : List (Stamp σ))
    (ownerIds : List (Yaml σ)) : ArtifactMission σ :=
  if 1 < (distinct Stamp.same stamps).length ∨ 1 < (distinct Yaml.same ownerIds).length then
    .unnamed .mixed
  else underSchema marks ((distinct Stamp.same stamps).head?.getD ⟨.null, .null, .null⟩)
    ((distinct Yaml.same ownerIds).head?.getD .null)

/-- The owners of the documents, which a set has to be able to hold. -/
def readOwnerIds (docs : List (Yaml σ)) : Except Exn (List (Yaml σ)) :=
  docs.mapM fun d => do
    let ownerId ← readOwnerId d
    ownerId.hashed

/-- What `_artifact_mission` makes of the labels it read. A malformed mark ends it before
anything is asked of the stamps. -/
def attribution (docs labels : List (Yaml σ)) : Except Exn (ArtifactMission σ) :=
  match labels.mapM markOf with
  | none => .ok (.unnamed .malformed)
  | some marks => do
    let stamps ← readStamps labels
    let ownerIds ← readOwnerIds docs
    return agreement marks stamps ownerIds

/-- `_artifact_mission`. -/
def artifactMission (format : Format τ σ) : Entry τ → Except Exn (ArtifactMission σ)
  | .regular text => match format.load text with
    | some docs => do
      let labels ← (docs.filter Yaml.isDict).mapM readLabels
      attribution (docs.filter Yaml.isDict) labels
    | none => .ok (.unnamed .malformed)
  | _ => .ok (.unnamed .malformed)

theorem artifactMission_regular {format : Format τ σ} {text : τ} {docs : List (Yaml σ)}
    (h : format.load text = some docs) : artifactMission format (.regular text) =
      (docs.filter Yaml.isDict).mapM readLabels >>= attribution (docs.filter Yaml.isDict) := by
  show (match format.load text with
    | some docs => (docs.filter Yaml.isDict).mapM readLabels >>=
        attribution (docs.filter Yaml.isDict)
    | none => .ok (.unnamed .malformed)) = _
  rw [h]

end

end MissionCompiler.Artifact
