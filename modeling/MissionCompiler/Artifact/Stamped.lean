import MissionCompiler.Artifact.Preflight
import MissionCompiler.Artifact.Removal
import MissionCompiler.Render.Stamps

/-!
# Reading a stamp back

What the classifiers read in the documents of a render once they come back from YAML: the stamp
the renderer put on them.
-/

namespace MissionCompiler.Artifact

open Lib Schema Names Compile Render

variable {τ σ : Type} [Scalars σ]

omit [Scalars σ] in
theorem getAttrOr_of_at? {y v : Yaml σ} {key : String} (h : y.at? key = some v) (default : Yaml σ) :
    getAttrOr key default y = .ok v := by
  cases y with
  | dict entries =>
    rw [getAttrOr, h]
    rfl
  | _ => cases h

theorem labelsOf_ofJson (doc : Json) :
    labelsOf (Yaml.ofJson doc : Yaml σ) = Yaml.ofJson (docLabels doc) := by
  rw [labelsOf, Yaml.get_ofJson, Yaml.get_ofJson]
  rfl

theorem annotationsOf_ofJson (doc : Json) :
    annotationsOf (Yaml.ofJson doc : Yaml σ) = Yaml.ofJson (docAnnotations doc) := by
  rw [annotationsOf, Yaml.get_ofJson, Yaml.get_ofJson]
  rfl

section

variable {stamp : OwnerStamp} {doc : Json}

/-- A text label of a document, read back. -/
theorem label_ofJson {key value : String} (h : (docLabels doc).get? key = some (.str value)) :
    (labelsOf (Yaml.ofJson doc : Yaml σ)).at? key = some (.str value) := by
  rw [labelsOf_ofJson, Yaml.at?_ofJson, h]
  rfl

theorem isManaged_of_stamp (h : stamp.On doc) :
    isManaged (Yaml.ofJson doc : Yaml σ) = true :=
  isManaged_of_labelled (label_ofJson h.managed)

/-- The fingerprint of a document, read back. -/
theorem mark_ofJson (h : stamp.On doc) :
    (labelsOf (Yaml.ofJson doc : Yaml σ)).at? missionFingerprintLabel =
      stamp.mark.map Yaml.str := by
  rw [labelsOf_ofJson, Yaml.at?_ofJson, h.mark]
  cases stamp.mark <;> rfl

/-- The owner id of a document, read back. -/
theorem ownerId_ofJson (h : stamp.On doc) :
    (annotationsOf (Yaml.ofJson doc : Yaml σ)).at? ownerIdAnnotationKey =
      some (.str stamp.ownerId) := by
  rw [annotationsOf_ofJson, Yaml.at?_ofJson, h.ownerId]
  rfl

theorem readMark_of_stamp (h : stamp.On doc) :
    readMark (Yaml.ofJson doc : Yaml σ) = .ok ((stamp.mark.map Yaml.str).getD .null) := by
  have hmanaged := label_ofJson (σ := σ) h.managed
  have hmeta := at?_labels hmanaged
  have hmark := mark_ofJson (σ := σ) h
  have hread : (labelsOf (Yaml.ofJson doc : Yaml σ)).getAttr missionFingerprintLabel =
      .ok ((stamp.mark.map Yaml.str).getD .null) := by
    apply Yaml.getAttr_eq_ok.mpr
    rw [Yaml.get, hmark]
    exact ⟨Yaml.isDict_of_at? hmanaged, rfl⟩
  refine bind_eq_ok.mpr ⟨labelsOf (Yaml.ofJson doc), ?_, bind_eq_ok.mpr ⟨_, hread, ?_⟩⟩
  · rw [Yaml.orEmpty_of_at? hmeta, getAttrOr_of_at? hmeta]
  · cases stamp.mark <;> rfl

theorem readOwnerId_of_stamp (h : stamp.On doc) :
    readOwnerId (Yaml.ofJson doc : Yaml σ) = .ok (.str stamp.ownerId) := by
  have hmeta := at?_labels (label_ofJson (σ := σ) h.managed)
  have howner := ownerId_ofJson (σ := σ) h
  refine bind_eq_ok.mpr ⟨annotationsOf (Yaml.ofJson doc), ?_, ?_⟩
  · rw [Yaml.orEmpty_of_at? hmeta]
    exact Yaml.getAttr_eq_ok.mpr ⟨Yaml.isDict_of_at? hmeta, rfl⟩
  · rw [Yaml.orEmpty_of_at? howner]
    exact Yaml.getAttr_eq_ok.mpr ⟨Yaml.isDict_of_at? howner, Yaml.get_of_at? howner⟩

end

/-! ## The documents of a file -/

section

variable {stamp : OwnerStamp} {docs : List Json}

theorem managed_of_stamp (h : ∀ doc ∈ docs, stamp.On doc) :
    ∀ d ∈ (docs.map Yaml.ofJson : List (Yaml σ)), isManaged d = true := by
  intro d hd
  obtain ⟨doc, hdoc, rfl⟩ := List.mem_map.mp hd
  exact isManaged_of_stamp (h doc hdoc)

theorem filter_isDict_of_stamp (h : ∀ doc ∈ docs, stamp.On doc) :
    (docs.map Yaml.ofJson : List (Yaml σ)).filter Yaml.isDict = docs.map Yaml.ofJson :=
  List.filter_eq_self.mpr fun d hd => isDict_of_isManaged (managed_of_stamp h d hd)

/-- The one value of documents that all have it. -/
theorem onlyOf_of_forall_eq {xs : List (Yaml σ)} {x : Yaml σ} (hne : xs ≠ [])
    (hsame : x.same x = true) (h : ∀ y ∈ xs, y = x) : onlyOf xs = x := by
  rw [onlyOf, distinct_of_forall_eq hsame h]
  cases xs with
  | nil => exact absurd rfl hne
  | cons y ys => rfl

theorem same_optional_str (mark : Option String) :
    ((mark.map Yaml.str).getD .null : Yaml σ).same ((mark.map Yaml.str).getD .null) = true := by
  cases mark with
  | none => rfl
  | some m => exact Yaml.str_same.mpr rfl

theorem renderedMission_of_stamp (hne : docs ≠ []) (h : ∀ doc ∈ docs, stamp.On doc) :
    renderedMission (some (docs.map Yaml.ofJson : List (Yaml σ))) =
      .ok ((stamp.mark.map Yaml.str).getD .null) := by
  have hmarks : (docs.map Yaml.ofJson : List (Yaml σ)).mapM readMark =
      .ok (docs.map fun _ => (stamp.mark.map Yaml.str).getD .null) := by
    rw [List.mapM_map]
    exact mapM_of_forall fun doc hdoc => readMark_of_stamp (h doc hdoc)
  rw [renderedMission, filter_isDict_of_stamp h]
  refine bind_eq_ok.mpr ⟨_, hmarks, congrArg Except.ok ?_⟩
  apply onlyOf_of_forall_eq (by simpa using hne) (same_optional_str stamp.mark)
  intro y hy
  obtain ⟨_, _, rfl⟩ := List.mem_map.mp hy
  rfl

theorem readOwnerIds_of_stamp (h : ∀ doc ∈ docs, stamp.On doc) :
    readOwnerIds (docs.map Yaml.ofJson : List (Yaml σ)) =
      .ok (docs.map fun _ => .str stamp.ownerId) := by
  rw [readOwnerIds, List.mapM_map]
  apply mapM_of_forall
  intro doc hdoc
  exact bind_eq_ok.mpr ⟨_, readOwnerId_of_stamp (h doc hdoc), rfl⟩

theorem renderedOwnerId_of_stamp (hne : docs ≠ []) (h : ∀ doc ∈ docs, stamp.On doc) :
    renderedOwnerId (some (docs.map Yaml.ofJson : List (Yaml σ))) =
      .ok (.str stamp.ownerId) := by
  rw [renderedOwnerId, filter_isDict_of_stamp h]
  refine bind_eq_ok.mpr ⟨_, readOwnerIds_of_stamp h, congrArg Except.ok ?_⟩
  apply onlyOf_of_forall_eq (by simpa using hne) (Yaml.str_same.mpr rfl)
  intro y hy
  obtain ⟨_, _, rfl⟩ := List.mem_map.mp hy
  rfl

/-! ## Files of a mission -/

/-- The digits of a fingerprint are no white space. -/
theorem pyBlank_missionFingerprint (sha : Sha256) (missionId : String) :
    pyBlank (missionFingerprint sha missionId) = false := by
  rw [Bool.eq_false_iff, ne_eq, pyBlank_iff, missionFingerprint, String.toList_ofList]
  intro hspaces
  have hne : sha.digest 16 missionId ≠ [] := by
    intro hnil
    have hlength : (sha.digest 16 missionId).length = 16 := by
      rw [Sha256.digest, List.length_take, sha.length_eq]
      rfl
    rw [hnil] at hlength
    cases hlength
  obtain ⟨d, hd⟩ := List.exists_mem_of_ne_nil _ hne
  have hhex : (48 ≤ d.toNat ∧ d.toNat ≤ 57) ∨ (97 ≤ d.toNat ∧ d.toNat ≤ 102) :=
    sha.hex missionId d (List.mem_of_mem_take hd)
  have hspace := hspaces d hd
  simp only [isPySpace, Bool.or_eq_true, Bool.and_eq_true, decide_eq_true_eq, beq_iff_eq] at hspace
  omega

omit [Scalars σ] in
/-- Documents that all have one fingerprint are the mission's. -/
theorem claimant_of_forall_some {marks : List (Option String)} {m : String} (hne : marks ≠ [])
    (h : ∀ x ∈ marks, x = some m) (found : Stamp σ) (ownerId : Yaml σ) :
    claimant marks found ownerId = ⟨.mission, some m, found.scope, ownerId, found.renderer⟩ := by
  have hall : marks = List.replicate marks.length (some m) := List.eq_replicate_iff.mpr ⟨rfl, h⟩
  have hlength : marks.length ≠ 0 := fun hzero => hne (List.length_eq_zero_iff.mp hzero)
  have hnamed : (marks.filterMap id).dedup = [m] := by
    rw [hall, List.filterMap_replicate]
    exact List.replicate_dedup hlength
  have hone : marks.dedup.length = 1 := by
    rw [hall, List.replicate_dedup hlength]
    rfl
  rw [claimant, hnamed, hone]
  rfl

theorem written_of_stamp (h : ∀ doc ∈ docs, stamp.On doc) :
    written (docs.map Yaml.ofJson : List (Yaml σ)) = docs.map Yaml.ofJson := by
  apply List.filter_eq_self.mpr
  intro d hd
  have hdict := isDict_of_isManaged (managed_of_stamp h d hd)
  cases d with
  | null => cases hdict
  | _ => rfl

variable {format : Format τ σ} {text : τ}

theorem isRenderedArtifact_of_stamp (hload : format.load text = some (docs.map Yaml.ofJson))
    (hne : docs ≠ []) (h : ∀ doc ∈ docs, stamp.On doc) :
    isRenderedArtifact format (.regular text) = true := by
  have hmanaged := List.all_eq_true.mpr (managed_of_stamp (σ := σ) h)
  rw [isRenderedArtifact, hload]
  simp only [written_of_stamp h, hmanaged, List.isEmpty_map, Bool.and_true, Bool.not_eq_true',
    List.isEmpty_eq_false_iff]
  exact hne

theorem readStamps_of_stamp (h : ∀ doc ∈ docs, stamp.On doc) :
    readStamps ((docs.map Yaml.ofJson : List (Yaml σ)).map labelsOf) =
      .ok (docs.map fun _ => ⟨.str stamp.renderer, .str stamp.scope,
        .str ownershipSchemaVersion⟩) := by
  rw [readStamps, filter_labels (managed_of_stamp h), List.map_map, List.mapM_map]
  apply mapM_of_forall
  intro doc hdoc
  have hstamp : stampOf (labelsOf (Yaml.ofJson doc : Yaml σ)) =
      ⟨.str stamp.renderer, .str stamp.scope, .str ownershipSchemaVersion⟩ := by
    rw [stampOf, Yaml.get, Yaml.get, Yaml.get, label_ofJson (h doc hdoc).renderer,
      label_ofJson (h doc hdoc).scope, label_ofJson (h doc hdoc).schema]
    rfl
  show (stampOf (labelsOf (Yaml.ofJson doc : Yaml σ))).hashed = _
  rw [hstamp]
  rfl

/-- A file of stamped documents is attributed to the mission of the stamp. -/
theorem artifactMission_of_stamp {mark : String} (hmark : stamp.mark = some mark)
    (hblank : pyBlank mark = false) (hload : format.load text = some (docs.map Yaml.ofJson))
    (hne : docs ≠ []) (h : ∀ doc ∈ docs, stamp.On doc) :
    artifactMission format (.regular text) = .ok ⟨.mission, some mark, .str stamp.scope,
      .str stamp.ownerId, .str stamp.renderer⟩ := by
  have hmanaged : ∀ d ∈ written (docs.map Yaml.ofJson : List (Yaml σ)), isManaged d = true := by
    rw [written_of_stamp h]
    exact managed_of_stamp h
  have hmarks : ((docs.map Yaml.ofJson : List (Yaml σ)).map labelsOf).mapM markOf =
      some (docs.map fun _ => some mark) := by
    rw [List.map_map, List.mapM_map, mapM_eq_some, List.forall₂_map_right_iff, List.forall₂_same]
    intro doc hdoc
    show markOf (labelsOf (Yaml.ofJson doc : Yaml σ)) = _
    rw [markOf, mark_ofJson (h doc hdoc), hmark]
    show (if pyBlank mark then none else some (some mark)) = _
    rw [if_neg (by rw [hblank]; exact Bool.false_ne_true)]
  rw [artifactMission_managed hload hmanaged, written_of_stamp h, attribution, hmarks]
  refine bind_eq_ok.mpr ⟨_, readStamps_of_stamp h,
    bind_eq_ok.mpr ⟨_, readOwnerIds_of_stamp h, congrArg Except.ok ?_⟩⟩
  have hstamps : distinct Stamp.same (docs.map fun _ => (⟨.str stamp.renderer, .str stamp.scope,
      .str ownershipSchemaVersion⟩ : Stamp σ)) = [⟨.str stamp.renderer, .str stamp.scope,
        .str ownershipSchemaVersion⟩] := by
    rw [distinct_of_forall_eq _ fun y hy => ?_, if_neg (by simpa using hne)]
    · simp only [Stamp.same, Yaml.str_same.mpr, Bool.and_self]
    · obtain ⟨_, _, rfl⟩ := List.mem_map.mp hy
      rfl
  have howners : distinct Yaml.same (docs.map fun _ => (.str stamp.ownerId : Yaml σ)) =
      [.str stamp.ownerId] := by
    rw [distinct_of_forall_eq (Yaml.str_same.mpr rfl) fun y hy => ?_, if_neg (by simpa using hne)]
    obtain ⟨_, _, rfl⟩ := List.mem_map.mp hy
    rfl
  have hknown : schemaKnown (.str ownershipSchemaVersion : Yaml σ) = true := by
    rw [schemaKnown, Yaml.eqStr_iff.mpr rfl, Bool.or_true]
  rw [agreement, hstamps, howners, if_neg (by simp)]
  show underSchema _ _ _ = _
  rw [underSchema, List.head?_cons, List.head?_cons, Option.getD_some, Option.getD_some,
    if_pos hknown, claimant_of_forall_some (by simpa using hne) fun x hx => ?_]
  obtain ⟨_, _, rfl⟩ := List.mem_map.mp hx
  rfl

end

end MissionCompiler.Artifact
