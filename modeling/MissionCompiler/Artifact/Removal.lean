import MissionCompiler.Artifact.Stale

/-!
# What may be removed

`Removable` says, of the documents of a file, what has to hold for a run to remove it, without
the functions that decide it. Each of those functions has one lemma about what it lets through,
and a file that `_report_stale` removes is a removable one.
-/

namespace MissionCompiler.Artifact

open Lib Schema Names Compile Render

variable {τ σ : Type}

/-! ## Removable documents -/

/-- A value that is not there, or is there and empty: `get` answers null for both. -/
def Unset (value : Option (Yaml σ)) : Prop := value = none ∨ value = some .null

/-- Values that one set holds one of. -/
def SameValue [Scalars σ] (a b : Yaml σ) : Prop := a = b ∨ a.same b = true

/-- The installation whose cluster-scoped files a run may retire. -/
def Reconciliation.retires (run : Reconciliation) : Option String :=
  if run.pruneGlobal then run.installation else none

/-- Documents of this mission, which name its raw id if they name anyone. -/
structure OfMission (unset : Option (Yaml σ) → Prop) (run : Reconciliation)
    (docs : List (Yaml σ)) : Prop where
  mark : ∃ m ∈ run.missions, ∀ d ∈ docs, (labelsOf d).at? missionFingerprintLabel = some (.str m)
  ownerId : (∀ d ∈ docs, unset ((annotationsOf d).at? ownerIdAnnotationKey)) ∨
    ∃ owners, run.owners = some owners ∧ ∃ o ∈ owners, ∀ d ∈ docs,
      (annotationsOf d).at? ownerIdAnnotationKey = some (.str o)

/-- Cluster-scoped documents of an installation that this run may retire. -/
structure OfInstallation (run : Reconciliation) (docs : List (Yaml σ)) : Prop where
  mark : ∀ d ∈ docs, (labelsOf d).at? missionFingerprintLabel = none
  scope : ∀ d ∈ docs, (labelsOf d).at? ownerScopeLabel = some (.str scopeInstallation)
  ownerId : ∃ o, run.retires = some o ∧ ∀ d ∈ docs,
    (annotationsOf d).at? ownerIdAnnotationKey = some (.str o)

/-- What has to hold of the documents of a file for a run to remove it. -/
structure Removable [Scalars σ] (unset : Option (Yaml σ) → Prop) (run : Reconciliation)
    (docs : List (Yaml σ)) : Prop where
  nonempty : docs ≠ []
  managed : ∀ d ∈ docs, (labelsOf d).at? managedByLabel = some (.str managedByValue)
  renderer : ∀ d ∈ docs, (labelsOf d).at? rendererLabel = some (.str run.renderer)
  scope : ∃ scope, ∀ d ∈ docs, SameValue scope ((labelsOf d).get ownerScopeLabel)
  schema : (∀ d ∈ docs, unset ((labelsOf d).at? ownershipSchemaLabel)) ∨
    ∀ d ∈ docs, (labelsOf d).at? ownershipSchemaLabel = some (.str ownershipSchemaVersion)
  owner : OfMission unset run docs ∨ OfInstallation run docs

/-! ## What a classification says -/

theorem at?_of_get_str {y : Yaml σ} {key s : String} (h : y.get key = .str s) :
    y.at? key = some (.str s) :=
  Yaml.at?_of_get h (by simp)

theorem unset_of_get {y : Yaml σ} {key : String} (h : y.get key = .null) :
    Unset (y.at? key) := by
  unfold Yaml.get at h
  cases hat : y.at? key with
  | none => exact .inl rfl
  | some v =>
    rw [hat] at h
    exact .inr (congrArg some h)

/-- Labels that hold something are the labels of metadata. -/
theorem at?_labels {d v : Yaml σ} {key : String} (h : (labelsOf d).at? key = some v) :
    (d.get "metadata").at? "labels" = some (labelsOf d) := by
  apply Yaml.at?_of_get rfl
  intro hnull
  rw [labelsOf, hnull] at h
  cases h

theorem labelled_of_isManaged {d : Yaml σ} (h : isManaged d = true) :
    (labelsOf d).at? managedByLabel = some (.str managedByValue) := by
  simp only [isManaged, Bool.and_eq_true, Yaml.eqStr_iff] at h
  exact at?_of_get_str h.2

theorem isManaged_of_labelled {d : Yaml σ}
    (h : (labelsOf d).at? managedByLabel = some (.str managedByValue)) : isManaged d = true := by
  have hmeta := at?_labels h
  have hdoc : d.at? "metadata" = some (d.get "metadata") := by
    apply Yaml.at?_of_get rfl
    intro hnull
    rw [hnull] at hmeta
    cases hmeta
  rw [isManaged, Yaml.isDict_of_at? hdoc, Yaml.isDict_of_at? hmeta, Yaml.isDict_of_at? h,
    Yaml.get_of_at? h]
  simp [Yaml.eqStr]

theorem isDict_of_isManaged {d : Yaml σ} (h : isManaged d = true) : d.isDict = true := by
  simp only [isManaged, Bool.and_eq_true] at h
  exact h.1.1.1

theorem Stamp.hashed_eq_ok {stamp stamp' : Stamp σ} (h : stamp.hashed = .ok stamp') :
    stamp' = stamp := by
  obtain ⟨renderer, hrenderer, h⟩ := bind_eq_ok.mp h
  obtain ⟨scope, hscope, h⟩ := bind_eq_ok.mp h
  obtain ⟨schema, hschema, h⟩ := bind_eq_ok.mp h
  rw [← Except.ok.inj h, Yaml.hashed_eq_ok hrenderer, Yaml.hashed_eq_ok hscope,
    Yaml.hashed_eq_ok hschema]

theorem readStamps_eq_ok {labels : List (Yaml σ)} {stamps : List (Stamp σ)}
    (h : readStamps labels = .ok stamps) :
    stamps = (labels.filter Yaml.isDict).map stampOf :=
  eq_map_of_mapM_eq_ok h fun _ _ => Stamp.hashed_eq_ok

theorem markOf_eq_none {labels : Yaml σ} (h : markOf labels = some none) :
    labels.at? missionFingerprintLabel = none := by
  unfold markOf at h
  split at h
  · assumption
  · split at h <;> cases h
  · cases h

theorem markOf_eq_some {labels : Yaml σ} {m : String} (h : markOf labels = some (some m)) :
    labels.at? missionFingerprintLabel = some (.str m) := by
  unfold markOf at h
  split at h
  · cases h
  · next mark hmark =>
    split at h
    · cases h
    · rw [hmark, Option.some.inj (Option.some.inj h)]
  · cases h

/-- A file has an owner when its entry can be one that is removed. -/
def ArtifactMission.Owned (found : ArtifactMission σ) : Prop :=
  found.owner = .mission ∨ found.owner = .unmissioned

/-- The marks of a file that has an owner are all of one mission, or all missing. -/
theorem claimant_owned {marks : List (Option String)} {stamp : Stamp σ} {ownerId : Yaml σ}
    (howned : (claimant marks stamp ownerId).Owned) :
    ∃ owner mission, claimant marks stamp ownerId =
        ⟨owner, mission, stamp.scope, ownerId, stamp.renderer⟩ ∧
      (owner = .mission ∧ (∃ m, mission = some m ∧ ∀ x ∈ marks, x = some m) ∨
        owner = .unmissioned ∧ ∀ x ∈ marks, x = none) := by
  unfold claimant at howned ⊢
  split at howned
  · next hnamed =>
    rw [List.dedup_eq_nil, List.filterMap_eq_nil_iff] at hnamed
    exact ⟨_, _, rfl, .inr ⟨rfl, hnamed⟩⟩
  · next m hnamed hlength =>
    refine ⟨_, _, rfl, .inl ⟨rfl, m, rfl, ?_⟩⟩
    obtain ⟨y, hy⟩ := List.length_eq_one_iff.mp hlength
    have hall : ∀ x ∈ marks, x = y := fun x hx => by
      have hmem := List.mem_dedup.mpr hx
      rw [hy] at hmem
      exact List.mem_singleton.mp hmem
    have hm : m ∈ (marks.filterMap id).dedup := by
      rw [hnamed]
      exact List.mem_singleton_self m
    obtain ⟨x, hx, hxm⟩ := List.mem_filterMap.mp (List.mem_dedup.mp hm)
    intro z hz
    rw [hall z hz, ← hall x hx]
    exact hxm
  · rcases howned with howned | howned <;> cases howned

/-- What an attribution reads of the documents of a file: one fingerprint, or none. -/
theorem marks_of_mapM {docs : List (Yaml σ)} {marks : List (Option String)} {x : Option String}
    (hmarks : (docs.map labelsOf).mapM markOf = some marks) (hall : ∀ y ∈ marks, y = x) :
    ∀ d ∈ docs, markOf (labelsOf d) = some x := by
  intro d hd
  have hforall := mapM_eq_some.mp hmarks
  rw [List.forall₂_map_left_iff] at hforall
  obtain ⟨y, hy, hmark⟩ := exists_of_mem_forall₂ hforall.flip hd
  rw [← hall y hy]
  exact hmark

/-- What `_is_rendered_artifact` says of an entry. -/
theorem rendered_eq_true {format : Format τ σ} {entry : Entry τ}
    (h : isRenderedArtifact format entry = true) :
    ∃ text docs, entry = .regular text ∧ format.load text = some docs ∧ written docs ≠ [] ∧
      ∀ d ∈ written docs, isManaged d = true := by
  unfold isRenderedArtifact at h
  split at h
  · next text =>
    split at h
    · next docs hload =>
      rw [Bool.and_eq_true, Bool.not_eq_true', List.all_eq_true] at h
      refine ⟨text, docs, rfl, hload, fun hnil => ?_, h.2⟩
      rw [hnil] at h
      exact Bool.noConfusion h.1
    · cases h
  · cases h

/-- Among documents that are managed or empty, the dicts are the ones that are not empty. -/
theorem filter_isDict_eq_written {docs : List (Yaml σ)}
    (h : ∀ d ∈ written docs, isManaged d = true) : docs.filter Yaml.isDict = written docs := by
  apply List.filter_congr
  intro d hd
  cases hnull : d.isNull with
  | true =>
    rw [Yaml.isNull_iff.mp hnull]
    rfl
  | false =>
    have hwritten : d ∈ written docs := List.mem_filter.mpr ⟨hd, by rw [hnull]; rfl⟩
    exact isDict_of_isManaged (h d hwritten)

/-- The labels of managed documents are dicts. -/
theorem filter_labels {docs : List (Yaml σ)} (h : ∀ d ∈ docs, isManaged d = true) :
    (docs.map labelsOf).filter Yaml.isDict = docs.map labelsOf := by
  apply List.filter_eq_self.mpr
  intro l hl
  obtain ⟨d, hd, rfl⟩ := List.mem_map.mp hl
  exact Yaml.isDict_of_at? (labelled_of_isManaged (h d hd))

/-- With no mission and no interest in files without one, nothing is in scope. -/
theorem not_inScope {run : Reconciliation} {found : ArtifactMission σ}
    (h : (run.missions.isEmpty && !run.includeUnmissioned) = true) :
    inScope run found = false := by
  rw [Bool.and_eq_true, Bool.not_eq_true', List.isEmpty_iff] at h
  unfold inScope
  split
  · rw [h.1]
    cases found.mission <;> rfl
  · rw [h.2, Bool.and_false]
  · rfl

/-- The owners a mission run reaches: nobody, or one it holds the raw id of. -/
theorem inScope_mission {run : Reconciliation} {found : ArtifactMission σ}
    (h : inScope run found = true) (hmission : found.owner = .mission) :
    (∃ m ∈ run.missions, found.mission = some m) ∧ ∀ owners, run.owners = some owners →
      found.ownerId = .null ∨ ∃ o ∈ owners, found.ownerId = .str o := by
  unfold inScope at h
  rw [hmission] at h
  simp only [Bool.and_eq_true, Option.any_eq_true, List.contains_eq_mem, decide_eq_true_eq,
    Option.all_eq_true, Bool.or_eq_true, Yaml.isNull_iff, List.any_eq_true, Yaml.eqStr_iff] at h
  obtain ⟨⟨m, hm, hmem⟩, howners⟩ := h
  exact ⟨⟨m, hmem, hm⟩, howners⟩

theorem inScope_unmissioned {run : Reconciliation} {found : ArtifactMission σ}
    (h : inScope run found = true) (hunmissioned : found.owner = .unmissioned) :
    found.scope = .str scopeInstallation ∧ run.includeUnmissioned = true := by
  unfold inScope at h
  rw [hunmissioned] at h
  simpa using h

section

variable [Scalars σ]

theorem SameValue.str {s : String} {b : Yaml σ} (h : SameValue (.str s) b) : b = .str s :=
  h.elim Eq.symm Yaml.str_same.mp

theorem SameValue.null {b : Yaml σ} (h : SameValue .null b) : b = .null :=
  h.elim Eq.symm Yaml.null_same.mp

/-- The labels of a managed document are read as they are. -/
theorem readLabels_of_isManaged {d : Yaml σ} (h : isManaged d = true) :
    readLabels d = .ok (labelsOf d) := by
  have hlabels := labelled_of_isManaged h
  have hmeta := at?_labels hlabels
  apply bind_eq_ok.mpr
  refine ⟨labelsOf d, ?_, ?_⟩
  · rw [Yaml.orEmpty_of_at? hmeta]
    exact Yaml.getAttr_eq_ok.mpr ⟨Yaml.isDict_of_at? hmeta, rfl⟩
  · rw [Yaml.orEmpty_of_at? hlabels]
    rfl

theorem readOwnerId_eq_ok {d v : Yaml σ} (h : readOwnerId d = .ok v) :
    v = (annotationsOf d).get ownerIdAnnotationKey := by
  obtain ⟨annotations, hread, h⟩ := bind_eq_ok.mp h
  rw [annotationsOf, Yaml.get_orEmpty hread, Yaml.get_orEmpty h]

theorem readOwnerIds_eq_ok {docs ownerIds : List (Yaml σ)} (h : readOwnerIds docs = .ok ownerIds) :
    ownerIds = docs.map fun d => (annotationsOf d).get ownerIdAnnotationKey := by
  apply eq_map_of_mapM_eq_ok h
  intro d v hv
  obtain ⟨ownerId, hread, hv⟩ := bind_eq_ok.mp hv
  rw [Yaml.hashed_eq_ok hv, readOwnerId_eq_ok hread]

/-- What the documents of a file say, when they say it with one voice. -/
structure Attributed (found : ArtifactMission σ) (docs : List (Yaml σ)) : Prop where
  renderer : ∀ d ∈ docs, SameValue found.renderer ((labelsOf d).get rendererLabel)
  scope : ∀ d ∈ docs, SameValue found.scope ((labelsOf d).get ownerScopeLabel)
  schema : ∃ schema, schemaKnown schema = true ∧
    ∀ d ∈ docs, SameValue schema ((labelsOf d).get ownershipSchemaLabel)
  ownerId : ∀ d ∈ docs, SameValue found.ownerId ((annotationsOf d).get ownerIdAnnotationKey)
  mark : found.owner = .mission ∧ (∃ m, found.mission = some m ∧
      ∀ d ∈ docs, (labelsOf d).at? missionFingerprintLabel = some (.str m)) ∨
    found.owner = .unmissioned ∧
      ∀ d ∈ docs, (labelsOf d).at? missionFingerprintLabel = none

/-- The one element of a set stands for each element it was made of. -/
theorem sameValue_head {xs : List (Yaml σ)} (hone : ¬ 1 < (distinct Yaml.same xs).length)
    {x : Yaml σ} (hx : x ∈ xs) : SameValue ((distinct Yaml.same xs).head?.getD .null) x :=
  same_head_distinct hone hx

theorem sameStamp_head {xs : List (Stamp σ)} {none head : Stamp σ}
    (hone : ¬ 1 < (distinct Stamp.same xs).length)
    (hhead : (distinct Stamp.same xs).head?.getD none = head) {x : Stamp σ} (hx : x ∈ xs) :
    SameValue head.renderer x.renderer ∧ SameValue head.scope x.scope ∧
      SameValue head.schema x.schema := by
  rw [← hhead]
  rcases same_head_distinct hone hx with heq | hsame
  · rw [heq]
    exact ⟨.inl rfl, .inl rfl, .inl rfl⟩
  · simp only [Stamp.same, Bool.and_eq_true] at hsame
    exact ⟨.inr hsame.1.1, .inr hsame.1.2, .inr hsame.2⟩

theorem agreement_owned {docs : List (Yaml σ)} {marks : List (Option String)}
    (hmarks : (docs.map labelsOf).mapM markOf = some marks)
    {found : ArtifactMission σ}
    (hfound : agreement marks (docs.map fun d => stampOf (labelsOf d))
      (docs.map fun d => (annotationsOf d).get ownerIdAnnotationKey) = found)
    (howned : found.Owned) : Attributed found docs := by
  unfold agreement at hfound
  split at hfound
  · rw [← hfound] at howned
    rcases howned with howned | howned <;> cases howned
  · next hone =>
    obtain ⟨hstamps, hownerIds⟩ := not_or.mp hone
    unfold underSchema at hfound
    split at hfound
    · next hschema =>
      rw [← hfound] at howned
      obtain ⟨owner, mission, hclaimant, hmark⟩ := claimant_owned howned
      rw [← hfound, hclaimant]
      refine ⟨fun d hd => ?_, fun d hd => ?_, ⟨_, hschema, fun d hd => ?_⟩, fun d hd => ?_, ?_⟩
      · exact (sameStamp_head hstamps rfl (List.mem_map_of_mem hd)).1
      · exact (sameStamp_head hstamps rfl (List.mem_map_of_mem hd)).2.1
      · exact (sameStamp_head hstamps rfl (List.mem_map_of_mem hd)).2.2
      · exact sameValue_head hownerIds (List.mem_map_of_mem hd)
      · rcases hmark with ⟨howner, m, hm, hall⟩ | ⟨howner, hall⟩
        · refine .inl ⟨howner, m, hm, fun d hd => ?_⟩
          exact markOf_eq_some (marks_of_mapM hmarks hall d hd)
        · refine .inr ⟨howner, fun d hd => ?_⟩
          exact markOf_eq_none (marks_of_mapM hmarks hall d hd)
    · rw [← hfound] at howned
      rcases howned with howned | howned <;> cases howned

/-- Documents that are managed are attributed by what they all have. -/
theorem artifactMission_managed {format : Format τ σ} {text : τ} {docs : List (Yaml σ)}
    (hload : format.load text = some docs) (hmanaged : ∀ d ∈ written docs, isManaged d = true) :
    artifactMission format (.regular text) =
      attribution (written docs) ((written docs).map labelsOf) := by
  rw [artifactMission_regular hload, filter_isDict_eq_written hmanaged,
    mapM_of_forall fun d hd => readLabels_of_isManaged (hmanaged d hd)]
  rfl

/-- The attribution of a managed file is one its documents bear out. -/
theorem artifactMission_attributed {format : Format τ σ} {text : τ} {docs : List (Yaml σ)}
    (hload : format.load text = some docs) (hmanaged : ∀ d ∈ written docs, isManaged d = true)
    {found : ArtifactMission σ} (hfound : artifactMission format (.regular text) = .ok found)
    (howned : found.Owned) : Attributed found (written docs) := by
  rw [artifactMission_managed hload hmanaged, attribution] at hfound
  split at hfound
  · rw [← Except.ok.inj hfound] at howned
    rcases howned with howned | howned <;> cases howned
  · next marks hmarks =>
    obtain ⟨stamps, hstamps, hfound⟩ := bind_eq_ok.mp hfound
    obtain ⟨ownerIds, hownerIds, hfound⟩ := bind_eq_ok.mp hfound
    rw [readStamps_eq_ok hstamps, readOwnerIds_eq_ok hownerIds, filter_labels hmanaged,
      List.map_map] at hfound
    exact agreement_owned hmarks (Except.ok.inj hfound) howned

end

/-! ## The files a run removes -/

section

variable [Scalars σ] {format : Format τ σ} {run : Reconciliation} {current : List String}
  {listing : List (String × Entry τ)}

/-- What the filters let through, one field for each. -/
structure Chosen (format : Format τ σ) (run : Reconciliation) (current : List String)
    (file : String × Entry τ) (found : ArtifactMission σ) : Prop where
  manifest : isManifestName file.1 = true
  fresh : file.1 ∉ current
  rendered : isRenderedArtifact format file.2 = true
  scope : inScope run found = true
  renderer : found.renderer = .str run.renderer
  owned : found.Owned
  retirable : found.scope = .str scopeInstallation →
    isInstallation run found.ownerId = true ∧ run.pruneGlobal = true

theorem isStale_eq_true {file : String × Entry τ} :
    isStale format run current file = .ok true ↔
      isManifestName file.1 = true ∧ file.1 ∉ current ∧
        isRenderedArtifact format file.2 = true ∧
        ∃ found, artifactMission format file.2 = .ok found ∧ inScope run found = true := by
  unfold isStale
  split
  · next hcond =>
    simp only [Bool.and_eq_true, Bool.not_eq_true', List.contains_eq_mem, decide_eq_false_iff_not]
      at hcond
    constructor
    · intro h
      obtain ⟨found, hfound, h⟩ := bind_eq_ok.mp h
      exact ⟨hcond.1.1, hcond.1.2, hcond.2, found, hfound, Except.ok.inj h⟩
    · intro ⟨_, _, _, found, hfound, hscope⟩
      exact bind_eq_ok.mpr ⟨found, hfound, congrArg _ hscope⟩
  · next hcond =>
    constructor
    · intro h
      cases h
    · intro ⟨hmanifest, hfresh, hrendered, _⟩
      refine absurd ?_ hcond
      rw [hmanifest, hrendered]
      simpa using hfresh

theorem mem_staleRenderedArtifacts {stale : List (String × Entry τ)}
    (h : staleRenderedArtifacts format run current listing = .ok stale)
    {file : String × Entry τ} :
    file ∈ stale ↔ file ∈ listing ∧ isStale format run current file = .ok true := by
  unfold staleRenderedArtifacts at h
  split at h
  · next hnone =>
    rw [← Except.ok.inj h]
    constructor
    · intro hfile
      exact absurd hfile List.not_mem_nil
    · intro ⟨_, hstale⟩
      obtain ⟨_, _, _, found, _, hscope⟩ := isStale_eq_true.mp hstale
      rw [not_inScope hnone] at hscope
      cases hscope
  · exact mem_of_filterM_eq_ok h

theorem isMine_eq_true {file : String × Entry τ} :
    isMine format run file = .ok true ↔ ∃ found, artifactMission format file.2 = .ok found ∧
      found.renderer = .str run.renderer ∧ found.Owned := by
  have htest : ∀ found : ArtifactMission σ, (found.renderer.eqStr run.renderer &&
      (found.owner == .mission || found.owner == .unmissioned)) = true ↔
        found.renderer = .str run.renderer ∧ found.Owned := fun found => by
    simp [ArtifactMission.Owned]
  unfold isMine
  constructor
  · intro h
    obtain ⟨found, hfound, h⟩ := bind_eq_ok.mp h
    exact ⟨found, hfound, (htest found).mp (Except.ok.inj h)⟩
  · intro ⟨found, hfound, hmine⟩
    exact bind_eq_ok.mpr ⟨found, hfound, congrArg _ ((htest found).mpr hmine)⟩

theorem mem_attributeStale {stale mine notOurs : List (String × Entry τ)}
    (h : attributeStale format run stale = .ok (mine, notOurs)) {file : String × Entry τ} :
    file ∈ mine ↔ file ∈ stale ∧ isMine format run file = .ok true := by
  apply mem_of_filterM_eq_ok
  exact bind_eq_ok.mpr ⟨(mine, notOurs), h, rfl⟩

theorem isTheirs_eq_true {file : String × Entry τ} :
    isTheirs format run file = .ok true ↔ ∃ found, artifactMission format file.2 = .ok found ∧
      found.scope = .str scopeInstallation ∧ isInstallation run found.ownerId = false := by
  unfold isTheirs
  constructor
  · intro h
    obtain ⟨found, hfound, h⟩ := bind_eq_ok.mp h
    have h := Except.ok.inj h
    rw [Bool.and_eq_true, Yaml.eqStr_iff, Bool.not_eq_true'] at h
    exact ⟨found, hfound, h⟩
  · intro ⟨found, hfound, hscope, howner⟩
    refine bind_eq_ok.mpr ⟨found, hfound, ?_⟩
    rw [Yaml.eqStr_iff.mpr hscope, howner]
    rfl

theorem isHeldBack_eq_true {file : String × Entry τ} :
    isHeldBack format run file = .ok true ↔ ∃ found, artifactMission format file.2 = .ok found ∧
      found.scope = .str scopeInstallation ∧ isInstallation run found.ownerId = true ∧
      run.pruneGlobal = false := by
  unfold isHeldBack
  constructor
  · intro h
    obtain ⟨found, hfound, h⟩ := bind_eq_ok.mp h
    have h := Except.ok.inj h
    rw [Bool.and_eq_true, Bool.and_eq_true, Yaml.eqStr_iff, Bool.not_eq_true'] at h
    exact ⟨found, hfound, h.1.1, h.1.2, h.2⟩
  · intro ⟨found, hfound, hscope, howner, hglobal⟩
    refine bind_eq_ok.mpr ⟨found, hfound, ?_⟩
    rw [Yaml.eqStr_iff.mpr hscope, howner, hglobal]
    rfl

/-- The files a run removes are the ones every filter lets through. -/
theorem mem_mine {files : StaleFiles τ} (h : staleFiles format run current listing = .ok files)
    (hnames : (listing.map Prod.fst).Nodup) {file : String × Entry τ} :
    file ∈ files.mine ↔ file ∈ listing ∧ ∃ found, artifactMission format file.2 = .ok found ∧
      Chosen format run current file found := by
  obtain ⟨stale, hstale, h⟩ := bind_eq_ok.mp h
  obtain ⟨⟨mine, notOurs⟩, hmine, h⟩ := bind_eq_ok.mp h
  obtain ⟨theirs, htheirs, h⟩ := bind_eq_ok.mp h
  obtain ⟨heldBack, hheld, h⟩ := bind_eq_ok.mp h
  rw [← Except.ok.inj h, List.mem_filter, mem_attributeStale hmine,
    mem_staleRenderedArtifacts hstale, Bool.not_eq_true', List.any_eq_false]
  have hskip : ∀ g, g ∈ theirs ++ heldBack ↔ (g ∈ mine ∧ isTheirs format run g = .ok true) ∨
      (g ∈ mine ∧ isHeldBack format run g = .ok true) := fun g => by
    rw [List.mem_append, mem_of_filterM_eq_ok htheirs, mem_of_filterM_eq_ok hheld]
  constructor
  · intro ⟨⟨⟨hlisted, hstale'⟩, hmine'⟩, hskipped⟩
    obtain ⟨hmanifest, hfresh, hrendered, found, hfound, hscope⟩ := isStale_eq_true.mp hstale'
    obtain ⟨found', hfound', hrenderer, howned⟩ := isMine_eq_true.mp hmine'
    obtain rfl : found = found' := Except.ok.inj (hfound.symm.trans hfound')
    have hmem : file ∈ mine := (mem_attributeStale hmine).mpr
      ⟨(mem_staleRenderedArtifacts hstale).mpr ⟨hlisted, hstale'⟩, hmine'⟩
    refine ⟨hlisted, found, hfound, hmanifest, hfresh, hrendered, hscope, hrenderer, howned,
      fun hinstallation => ?_⟩
    have hnot : file ∉ theirs ++ heldBack := fun hin => by
      simpa using hskipped file hin
    rw [hskip, not_or] at hnot
    have howner : isInstallation run found.ownerId = true := by
      by_contra hother
      rw [Bool.not_eq_true] at hother
      exact hnot.1 ⟨hmem, isTheirs_eq_true.mpr ⟨found, hfound, hinstallation, hother⟩⟩
    refine ⟨howner, ?_⟩
    by_contra hglobal
    rw [Bool.not_eq_true] at hglobal
    exact hnot.2 ⟨hmem, isHeldBack_eq_true.mpr ⟨found, hfound, hinstallation, howner, hglobal⟩⟩
  · intro ⟨hlisted, found, hfound, hchosen⟩
    refine ⟨⟨⟨hlisted, isStale_eq_true.mpr ⟨hchosen.manifest, hchosen.fresh, hchosen.rendered,
      found, hfound, hchosen.scope⟩⟩, isMine_eq_true.mpr ⟨found, hfound, hchosen.renderer,
      hchosen.owned⟩⟩, fun g hg heq => ?_⟩
    have hsame : g = file := by
      have hg' : g ∈ listing := by
        rcases (hskip g).mp hg with ⟨hg, _⟩ | ⟨hg, _⟩ <;>
          exact ((mem_staleRenderedArtifacts hstale).mp ((mem_attributeStale hmine).mp hg).1).1
      exact List.inj_on_of_nodup_map hnames hg' hlisted (by simpa using heq)
    rcases (hskip g).mp hg with ⟨_, htheirs'⟩ | ⟨_, hheld'⟩
    · obtain ⟨found', hfound', hscope, hother⟩ := isTheirs_eq_true.mp htheirs'
      rw [hsame, hfound] at hfound'
      obtain rfl : found = found' := Except.ok.inj hfound'
      rw [(hchosen.retirable hscope).1] at hother
      cases hother
    · obtain ⟨found', hfound', hscope, _, hglobal⟩ := isHeldBack_eq_true.mp hheld'
      rw [hsame, hfound] at hfound'
      obtain rfl : found = found' := Except.ok.inj hfound'
      rw [(hchosen.retirable hscope).2] at hglobal
      cases hglobal

/-- One owner for all documents: nobody, or the owner of the run. -/
theorem Attributed.ownerId_cases {found : ArtifactMission σ} {docs : List (Yaml σ)}
    (h : Attributed found docs) :
    (found.ownerId = .null → ∀ d ∈ docs, Unset ((annotationsOf d).at? ownerIdAnnotationKey)) ∧
      ∀ o, found.ownerId = .str o →
        ∀ d ∈ docs, (annotationsOf d).at? ownerIdAnnotationKey = some (.str o) := by
  constructor
  · intro hnull d hd
    have hsame := h.ownerId d hd
    rw [hnull] at hsame
    exact unset_of_get hsame.null
  · intro o ho d hd
    have hsame := h.ownerId d hd
    rw [ho] at hsame
    exact at?_of_get_str hsame.str

theorem Attributed.schema_cases {found : ArtifactMission σ} {docs : List (Yaml σ)}
    (h : Attributed found docs) :
    (∀ d ∈ docs, Unset ((labelsOf d).at? ownershipSchemaLabel)) ∨
      ∀ d ∈ docs, (labelsOf d).at? ownershipSchemaLabel = some (.str ownershipSchemaVersion) := by
  obtain ⟨schema, hknown, hsame⟩ := h.schema
  rw [schemaKnown, Bool.or_eq_true, Yaml.isNull_iff, Yaml.eqStr_iff] at hknown
  rcases hknown with rfl | rfl
  · exact .inl fun d hd => unset_of_get (hsame d hd).null
  · exact .inr fun d hd => at?_of_get_str (hsame d hd).str

/-- What the filters let through is removable. A run that looks at files without a mission has
to say whose installation it is. -/
theorem Chosen.removable {file : String × Entry τ} {found : ArtifactMission σ}
    (hfound : artifactMission format file.2 = .ok found)
    (h : Chosen format run current file found) (howners : ∃ owners, run.owners = some owners)
    (hinstallation : run.includeUnmissioned = true → ∃ o, run.installation = some o) :
    ∃ text docs, file.2 = .regular text ∧ format.load text = some docs ∧
      Removable Unset run (written docs) := by
  obtain ⟨text, docs, hregular, hload, hnonempty, hmanaged⟩ := rendered_eq_true h.rendered
  rw [hregular] at hfound
  have hattributed := artifactMission_attributed hload hmanaged hfound h.owned
  refine ⟨text, docs, hregular, hload, hnonempty, fun d hd => labelled_of_isManaged (hmanaged d hd),
    fun d hd => ?_, ⟨_, hattributed.scope⟩, hattributed.schema_cases, ?_⟩
  · have hsame := hattributed.renderer d hd
    rw [h.renderer] at hsame
    exact at?_of_get_str hsame.str
  · rcases hattributed.mark with ⟨howner, m, hm, hmarks⟩ | ⟨howner, hmarks⟩
    · left
      obtain ⟨⟨m', hmem, hm'⟩, hscope⟩ := inScope_mission h.scope howner
      obtain rfl : m' = m := Option.some.inj (hm'.symm.trans hm)
      obtain ⟨owners, howners⟩ := howners
      refine ⟨⟨m', hmem, hmarks⟩, ?_⟩
      rcases hscope owners howners with hnull | ⟨o, ho, hstr⟩
      · exact .inl (hattributed.ownerId_cases.1 hnull)
      · exact .inr ⟨owners, howners, o, ho, hattributed.ownerId_cases.2 o hstr⟩
    · right
      obtain ⟨hscope, hinclude⟩ := inScope_unmissioned h.scope howner
      obtain ⟨o, ho⟩ := hinstallation hinclude
      obtain ⟨howner, hglobal⟩ := h.retirable hscope
      rw [isInstallation, ho] at howner
      refine ⟨hmarks, fun d hd => ?_, o, ?_, hattributed.ownerId_cases.2 o ?_⟩
      · have hsame := hattributed.scope d hd
        rw [hscope] at hsame
        exact at?_of_get_str hsame.str
      · rw [Reconciliation.retires, if_pos hglobal, ho]
      · exact Yaml.eqStr_iff.mp howner

end

end MissionCompiler.Artifact

