import MissionCompiler.Artifact.Stale
import MissionCompiler.Artifact.Stamped

/-!
# Classifying any file

`_is_rendered_artifact` looks at one label; `_artifact_mission` reads five more values of
whatever type a file gives them. `Answerable` says of the documents of a file, without the
function, when it classifies them soundly: without an exception, and without taking a value that
is no text for an owner's. A directory of such files is scanned and written into without an
exception (`NeverCrashes`).
-/

namespace MissionCompiler.Artifact

open Lib Schema Names Compile Render

variable {τ σ : Type}

/-! ## Documents -/

def ownerIdOf (doc : Yaml σ) : Yaml σ := (annotationsOf doc).get ownerIdAnnotationKey

/-- The values a document is attributed by. -/
def provenance (doc : Yaml σ) : List (Option (Yaml σ)) :=
  [(labelsOf doc).at? missionFingerprintLabel, (labelsOf doc).at? rendererLabel,
    (labelsOf doc).at? ownerScopeLabel, (labelsOf doc).at? ownershipSchemaLabel,
    (annotationsOf doc).at? ownerIdAnnotationKey]

/-- A value that is not there, or is text. -/
def PlainOrAbsent (value : Option (Yaml σ)) : Prop := ∀ v, value = some v → ∃ s, v = .str s

/-- Documents of which no provenance value is anything but text. -/
def Plain (docs : List (Yaml σ)) : Prop :=
  ∀ d ∈ docs, ∀ value ∈ provenance d, PlainOrAbsent value

/-- A file says which one it is, and what a classification of it has to say. -/
structure Sound [Scalars σ] (format : Format τ σ) (text : τ) (docs : List (Yaml σ)) : Prop where
  answers : ∃ found, artifactMission format (.regular text) = .ok found
  garbled : ∀ found, artifactMission format (.regular text) = .ok found → ¬ Plain docs →
    found.owner = .mixed ∨ found.owner = .malformed

/-- A value a set can hold: neither a list nor a dict. -/
def Holdable (value : Yaml σ) : Prop := ∃ held, value.hashed = .ok held

/-- A document whose attribution raises nothing. -/
structure Readable [Scalars σ] (doc : Yaml σ) : Prop where
  renderer : Holdable ((labelsOf doc).get rendererLabel)
  scope : Holdable ((labelsOf doc).get ownerScopeLabel)
  schema : Holdable ((labelsOf doc).get ownershipSchemaLabel)
  annotations : (annotationsOf doc).orEmpty.isDict = true
  ownerId : Holdable (ownerIdOf doc)

/-- A document has no fingerprint, or text with something in it. -/
def Marked (doc : Yaml σ) : Prop := ∃ mark, markOf (labelsOf doc) = some mark

/-- Documents that do not say one thing: two stamps, two owners, a schema nobody knows, or two
fingerprints, one of them perhaps missing. -/
def Discordant [Scalars σ] (docs : List (Yaml σ)) : Prop :=
  1 < (distinct Stamp.same (docs.map fun d => stampOf (labelsOf d))).length ∨
    1 < (distinct Yaml.same (docs.map ownerIdOf)).length ∨
    (∃ d ∈ docs, schemaKnown ((labelsOf d).get ownershipSchemaLabel) = false) ∨
    ∃ d ∈ docs, ∃ e ∈ docs, (labelsOf d).at? missionFingerprintLabel ≠
      (labelsOf e).at? missionFingerprintLabel

/-- Documents that are classified soundly: a fingerprint is no name, or they can all be read and
either disagree or have nothing but text to say. -/
def Answerable [Scalars σ] (docs : List (Yaml σ)) : Prop :=
  (∃ d ∈ docs, ¬ Marked d) ∨ (∀ d ∈ docs, Readable d) ∧ (Discordant docs ∨ Plain docs)

/-! ## What is read of a document -/

theorem Stamp.hashed_total {stamp : Stamp σ} : (∃ held, stamp.hashed = .ok held) ↔
    Holdable stamp.renderer ∧ Holdable stamp.scope ∧ Holdable stamp.schema := by
  constructor
  · intro ⟨held, h⟩
    obtain ⟨renderer, hrenderer, h⟩ := bind_eq_ok.mp h
    obtain ⟨scope, hscope, h⟩ := bind_eq_ok.mp h
    obtain ⟨schema, hschema, h⟩ := bind_eq_ok.mp h
    exact ⟨⟨renderer, hrenderer⟩, ⟨scope, hscope⟩, ⟨schema, hschema⟩⟩
  · intro ⟨⟨renderer, hrenderer⟩, ⟨scope, hscope⟩, ⟨schema, hschema⟩⟩
    exact ⟨_, bind_eq_ok.mpr ⟨renderer, hrenderer, bind_eq_ok.mpr ⟨scope, hscope,
      bind_eq_ok.mpr ⟨schema, hschema, rfl⟩⟩⟩⟩

section

variable [Scalars σ]

theorem get_orEmpty_eq (y : Yaml σ) (key : String) : y.orEmpty.get key = y.get key := by
  unfold Yaml.orEmpty
  split
  · rfl
  · next hfalsy =>
    cases y with
    | dict entries =>
      cases entries with
      | nil => rfl
      | cons e entries => exact absurd rfl hfalsy
    | _ => rfl

/-- The owner id of a managed document is read exactly when its annotations are a dict, or
nothing. -/
theorem readOwnerId_of_isManaged {d : Yaml σ} (h : isManaged d = true) :
    readOwnerId d = (annotationsOf d).orEmpty.getAttr ownerIdAnnotationKey := by
  have hmeta := at?_labels (labelled_of_isManaged h)
  have hread : (d.get "metadata").orEmpty.getAttr "annotations" = .ok (annotationsOf d) := by
    rw [Yaml.orEmpty_of_at? hmeta]
    exact Yaml.getAttr_eq_ok.mpr ⟨Yaml.isDict_of_at? hmeta, rfl⟩
  rw [readOwnerId, hread]
  rfl

theorem readOwnerId_total {d : Yaml σ} (h : isManaged d = true) :
    (∃ held, (do let ownerId ← readOwnerId d; ownerId.hashed) = .ok held) ↔
      (annotationsOf d).orEmpty.isDict = true ∧ Holdable (ownerIdOf d) := by
  rw [readOwnerId_of_isManaged h]
  constructor
  · intro ⟨held, hheld⟩
    obtain ⟨ownerId, hread, hheld⟩ := bind_eq_ok.mp hheld
    obtain ⟨hdict, hget⟩ := Yaml.getAttr_eq_ok.mp hread
    rw [get_orEmpty_eq] at hget
    rw [ownerIdOf, hget]
    exact ⟨hdict, held, hheld⟩
  · intro ⟨hdict, held, hheld⟩
    refine ⟨held, bind_eq_ok.mpr ⟨ownerIdOf d, Yaml.getAttr_eq_ok.mpr ⟨hdict, ?_⟩, hheld⟩⟩
    exact get_orEmpty_eq _ _

/-! ## Concord -/

omit [Scalars σ] in
/-- A file whose fingerprints are one, or all missing, has an owner. -/
theorem claimant_of_forall_eq {marks : List (Option String)} {mark : Option String}
    (h : ∀ x ∈ marks, x = mark) (stamp : Stamp σ) (ownerId : Yaml σ) :
    (claimant marks stamp ownerId).Owned := by
  cases mark with
  | none =>
    have hnamed : (marks.filterMap id).dedup = [] := by
      rw [List.dedup_eq_nil, List.filterMap_eq_nil_iff]
      exact h
    rw [claimant, hnamed]
    exact .inr rfl
  | some m =>
    cases marks with
    | nil => exact .inr rfl
    | cons x marks =>
      rw [claimant_of_forall_some (List.cons_ne_nil x marks) h]
      exact .inl rfl

omit [Scalars σ] in
theorem schemaKnown_iff {schema : Yaml σ} :
    schemaKnown schema = true ↔ schema = .null ∨ schema = .str ownershipSchemaVersion := by
  rw [schemaKnown, Bool.or_eq_true, Yaml.isNull_iff, Yaml.eqStr_iff]

/-- The one element of a set is the default, or one of the elements it was made of. -/
theorem head_distinct {α : Type} (same : α → α → Bool) (xs : List α) (default : α) :
    (distinct same xs).head?.getD default = default ∨
      (distinct same xs).head?.getD default ∈ xs := by
  cases hset : distinct same xs with
  | nil => exact .inl rfl
  | cons x rest =>
    have hmem : x ∈ distinct same xs := by
      rw [hset]
      exact List.mem_cons_self
    exact .inr (mem_of_mem_distinct hmem)

/-- Documents that agree have an owner, and no others do. -/
theorem agreement_owned_iff {docs : List (Yaml σ)} {marks : List (Option String)}
    (hmarks : (docs.map labelsOf).mapM markOf = some marks) :
    (agreement marks (docs.map fun d => stampOf (labelsOf d)) (docs.map ownerIdOf)).Owned ↔
      ¬ Discordant docs := by
  constructor
  · intro howned hdiscordant
    have hattributed := agreement_owned hmarks rfl howned
    unfold agreement at howned
    split at howned
    · rcases howned with howned | howned <;> cases howned
    · next hone =>
      obtain ⟨hstamps, howners⟩ := not_or.mp hone
      rcases hdiscordant with h | h | ⟨d, hd, hschema⟩ | ⟨d, hd, e, he, hne⟩
      · exact hstamps h
      · exact howners h
      · obtain ⟨schema, hknown, hsame⟩ := hattributed.schema
        rcases schemaKnown_iff.mp hknown with rfl | rfl
        · rw [(hsame d hd).null] at hschema
          cases hschema
        · rw [(hsame d hd).str, schemaKnown_iff.mpr (.inr rfl)] at hschema
          cases hschema
      · rcases hattributed.mark with ⟨_, m, _, hall⟩ | ⟨_, hall⟩
        · exact hne ((hall d hd).trans (hall e he).symm)
        · exact hne ((hall d hd).trans (hall e he).symm)
  · intro hconcord
    simp only [Discordant, not_or] at hconcord
    obtain ⟨hstamps, howners, hschemas, hone⟩ := hconcord
    rw [agreement, if_neg (not_or.mpr ⟨hstamps, howners⟩), underSchema]
    have hschema : schemaKnown ((distinct Stamp.same (docs.map fun d =>
        stampOf (labelsOf d))).head?.getD ⟨.null, .null, .null⟩).schema = true := by
      rcases head_distinct Stamp.same (docs.map fun d => stampOf (labelsOf d))
        ⟨.null, .null, .null⟩ with h | h
      · rw [h]
        rfl
      · obtain ⟨d, hd, heq⟩ := List.mem_map.mp h
        rw [← heq]
        by_contra hunknown
        exact hschemas ⟨d, hd, Bool.eq_false_iff.mpr hunknown⟩
    rw [if_pos hschema]
    cases docs with
    | nil =>
      obtain rfl : ([] : List (Option String)) = marks := Option.some.inj hmarks
      exact .inr rfl
    | cons d docs =>
      have hforall := mapM_eq_some.mp hmarks
      rw [List.forall₂_map_left_iff] at hforall
      have hd : ∃ mark, markOf (labelsOf d) = some mark := by
        obtain ⟨mark, _, hmark⟩ := exists_of_mem_forall₂ hforall.flip List.mem_cons_self
        exact ⟨mark, hmark⟩
      obtain ⟨mark, hmark⟩ := hd
      have hall : ∀ x ∈ marks, x = mark := by
        intro x hx
        obtain ⟨e, he, hx⟩ := exists_of_mem_forall₂ hforall hx
        have hat : (labelsOf e).at? missionFingerprintLabel =
            (labelsOf d).at? missionFingerprintLabel := by
          by_contra hne
          exact hone ⟨e, he, d, List.mem_cons_self, hne⟩
        have hsame : markOf (labelsOf e) = markOf (labelsOf d) := by
          rw [markOf, markOf, hat]
        rw [hsame, hmark] at hx
        exact (Option.some.inj hx).symm
      exact claimant_of_forall_eq hall _ _

/-! ## When a classification is sound -/

variable {format : Format τ σ} {text : τ} {docs : List (Yaml σ)}

/-- Documents with a fingerprint that is no name are malformed, whatever else they hold. -/
theorem attribution_of_unmarked {docs : List (Yaml σ)} (h : ∃ d ∈ docs, ¬ Marked d) :
    attribution docs (docs.map labelsOf) = .ok (.unnamed .malformed) := by
  rw [attribution]
  cases hmarks : (docs.map labelsOf).mapM markOf with
  | none => rfl
  | some marks =>
    obtain ⟨d, hd, hunmarked⟩ := h
    have hforall := mapM_eq_some.mp hmarks
    rw [List.forall₂_map_left_iff] at hforall
    obtain ⟨mark, _, hmark⟩ := exists_of_mem_forall₂ hforall.flip hd
    exact absurd ⟨mark, hmark⟩ hunmarked

/-- Marked documents are attributed exactly when each can be read, and then by their sets. -/
theorem attribution_of_marked {docs : List (Yaml σ)} (hmanaged : ∀ d ∈ docs, isManaged d = true)
    (h : ∀ d ∈ docs, Marked d) : ∃ marks, (docs.map labelsOf).mapM markOf = some marks ∧
      ((∀ d ∈ docs, Readable d) → attribution docs (docs.map labelsOf) =
        .ok (agreement marks (docs.map fun d => stampOf (labelsOf d)) (docs.map ownerIdOf))) ∧
      ((∃ found, attribution docs (docs.map labelsOf) = .ok found) → ∀ d ∈ docs, Readable d) := by
  have hmarked : ∀ l ∈ docs.map labelsOf, ∃ mark, markOf l = some mark := by
    intro l hl
    obtain ⟨d, hd, rfl⟩ := List.mem_map.mp hl
    exact h d hd
  obtain ⟨marks, hmarks⟩ := mapM_some_total hmarked
  refine ⟨marks, hmarks, fun hreadable => ?_, fun ⟨found, hfound⟩ d hd => ?_⟩
  · have hstamps : ∃ stamps, readStamps (docs.map labelsOf) = .ok stamps := by
      rw [readStamps, filter_labels hmanaged, mapM_total]
      intro l hl
      obtain ⟨d, hd, rfl⟩ := List.mem_map.mp hl
      have hd := hreadable d hd
      exact Stamp.hashed_total.mpr ⟨hd.renderer, hd.scope, hd.schema⟩
    have howners : ∃ ownerIds, readOwnerIds docs = .ok ownerIds := by
      rw [readOwnerIds, mapM_total]
      intro d hd
      have hread := hreadable d hd
      exact (readOwnerId_total (hmanaged d hd)).mpr ⟨hread.annotations, hread.ownerId⟩
    obtain ⟨stamps, hstamps⟩ := hstamps
    obtain ⟨ownerIds, howners⟩ := howners
    rw [attribution, hmarks]
    refine bind_eq_ok.mpr ⟨stamps, hstamps, bind_eq_ok.mpr ⟨ownerIds, howners, ?_⟩⟩
    rw [readStamps_eq_ok hstamps, readOwnerIds_eq_ok howners, filter_labels hmanaged, List.map_map]
    rfl
  · rw [attribution, hmarks] at hfound
    obtain ⟨stamps, hstamps, hfound⟩ := bind_eq_ok.mp hfound
    obtain ⟨ownerIds, howners, _⟩ := bind_eq_ok.mp hfound
    rw [readStamps, filter_labels hmanaged] at hstamps
    obtain ⟨hrenderer, hscope, hschema⟩ := Stamp.hashed_total.mp
      (mapM_total.mp ⟨stamps, hstamps⟩ (labelsOf d) (List.mem_map_of_mem hd))
    obtain ⟨hannotations, hownerId⟩ := (readOwnerId_total (hmanaged d hd)).mp
      (mapM_total.mp ⟨ownerIds, howners⟩ d hd)
    exact ⟨hrenderer, hscope, hschema, hannotations, hownerId⟩

omit [Scalars σ] in
theorem not_owned_iff {found : ArtifactMission σ} :
    found.owner = .mixed ∨ found.owner = .malformed ↔ ¬ found.Owned := by
  unfold ArtifactMission.Owned
  cases found.owner <;> simp

/-- A rendered file is classified soundly exactly when its documents are answerable. -/
theorem sound_iff (hload : format.load text = some docs)
    (hmanaged : ∀ d ∈ written docs, isManaged d = true) :
    Sound format text (written docs) ↔ Answerable (written docs) := by
  have hclass := artifactMission_managed hload hmanaged
  by_cases hmarked : ∀ d ∈ written docs, Marked d
  · obtain ⟨marks, hmarks, hreads, hreadable⟩ := attribution_of_marked hmanaged hmarked
    have hnot : ¬ ∃ d ∈ written docs, ¬ Marked d := fun ⟨d, hd, h⟩ => h (hmarked d hd)
    constructor
    · intro hsound
      obtain ⟨found, hfound⟩ := hsound.answers
      have hread := hreadable ⟨found, hclass ▸ hfound⟩
      refine .inr ⟨hread, ?_⟩
      by_contra hneither
      obtain ⟨hconcord, hgarbled⟩ := not_or.mp hneither
      have hmixed := hsound.garbled _ (hclass.trans (hreads hread)) hgarbled
      exact not_owned_iff.mp hmixed ((agreement_owned_iff hmarks).mpr hconcord)
    · intro hanswerable
      obtain ⟨hread, hor⟩ := hanswerable.resolve_left hnot
      have hfound := hclass.trans (hreads hread)
      refine ⟨⟨_, hfound⟩, fun found hfound' hgarbled => ?_⟩
      obtain rfl := Except.ok.inj (hfound'.symm.trans hfound)
      refine not_owned_iff.mpr fun howned => ?_
      exact hor.elim ((agreement_owned_iff hmarks).mp howned) hgarbled
  · have hunmarked : ∃ d ∈ written docs, ¬ Marked d := by
      push Not at hmarked
      exact hmarked
    have hfound := hclass.trans (attribution_of_unmarked hunmarked)
    refine ⟨fun _ => .inl hunmarked, fun _ => ⟨⟨_, hfound⟩, fun found hfound' _ => ?_⟩⟩
    obtain rfl := Except.ok.inj (hfound'.symm.trans hfound)
    exact .inr rfl

/-! ## Directories -/

/-- The documents a render plans, with the names they are to have. -/
def Planned (host : Host) (planned : List (String × Option (List (Yaml σ)))) : Prop :=
  ∃ plan files, ((∃ options, plannedWorkflows host plan options = .ok files) ∨
      ∃ options, plannedJobs host plan options = .ok files) ∧
    planned = files.map fun file => (file.1, some (file.2.map Yaml.ofJson))

omit [Scalars σ] in
/-- What a name stands for in a listed directory. -/
def entryAt (listing : List (String × Entry τ)) (name : String) : Option (Entry τ) :=
  (listing.find? fun file => file.1 == name).map Prod.snd

/-- A directory on whose files the classification always answers, and soundly, so that neither the
scan for stale files nor the preflight raises anything of its own. -/
structure NeverCrashes (format : Format τ σ) (host : Host) (listing : List (String × Entry τ)) :
    Prop where
  sound : ∀ file ∈ listing, isRenderedArtifact format file.2 = true → ∀ text docs,
    file.2 = .regular text → format.load text = some docs → Sound format text (written docs)
  stale : ∀ run current e, staleRenderedArtifacts format run current listing ≠ .error e
  attributed : ∀ run current stale, staleRenderedArtifacts format run current listing = .ok stale →
    ∀ e, attributeStale format run stale ≠ .error e
  reported : ∀ run current e, staleFiles format run current listing ≠ .error e
  writable : ∀ planned, Planned host planned → ∀ e,
    preflightWritable format (entryAt listing) planned = .error e → e = .valueError

section

variable {listing : List (String × Entry τ)} {run : Reconciliation} {current : List String}

/-- Every rendered file of a directory has a classification. -/
def Classified (format : Format τ σ) (listing : List (String × Entry τ)) : Prop :=
  ∀ file ∈ listing, isRenderedArtifact format file.2 = true →
    ∃ found, artifactMission format file.2 = .ok found

theorem isStale_total (h : Classified format listing) :
    ∀ file ∈ listing, ∃ b, isStale format run current file = .ok b := by
  intro file hfile
  unfold isStale
  split
  · next hcond =>
    rw [Bool.and_eq_true] at hcond
    obtain ⟨found, hfound⟩ := h file hfile hcond.2
    exact ⟨_, bind_eq_ok.mpr ⟨found, hfound, rfl⟩⟩
  · exact ⟨false, rfl⟩

theorem staleRenderedArtifacts_total (h : Classified format listing) :
    ∃ stale, staleRenderedArtifacts format run current listing = .ok stale := by
  unfold staleRenderedArtifacts
  split
  · exact ⟨[], rfl⟩
  · exact filterM_total (isStale_total h)

/-- A stale file has a classification. -/
theorem classified_of_stale {stale : List (String × Entry τ)}
    (hstale : staleRenderedArtifacts format run current listing = .ok stale) :
    ∀ file ∈ stale, ∃ found, artifactMission format file.2 = .ok found := by
  intro file hfile
  obtain ⟨_, hfile⟩ := (mem_staleRenderedArtifacts hstale).mp hfile
  obtain ⟨_, _, _, found, hfound, _⟩ := isStale_eq_true.mp hfile
  exact ⟨found, hfound⟩

theorem attributeStale_total {stale : List (String × Entry τ)}
    (hstale : staleRenderedArtifacts format run current listing = .ok stale) :
    ∃ parts, attributeStale format run stale = .ok parts := by
  refine splitM_total fun file hfile => ?_
  obtain ⟨found, hfound⟩ := classified_of_stale hstale file hfile
  exact ⟨_, bind_eq_ok.mpr ⟨found, hfound, rfl⟩⟩

theorem staleFiles_total (h : Classified format listing) :
    ∃ files, staleFiles format run current listing = .ok files := by
  have hstale : ∃ stale, staleRenderedArtifacts format run current listing = .ok stale :=
    staleRenderedArtifacts_total h
  obtain ⟨stale, hstale⟩ := hstale
  obtain ⟨⟨mine, notOurs⟩, hmine⟩ := attributeStale_total hstale
  have hfound : ∀ file ∈ mine, ∃ found, artifactMission format file.2 = .ok found := by
    intro file hfile
    exact classified_of_stale hstale file ((mem_attributeStale hmine).mp hfile).1
  have htheirs : ∃ theirs, filterM (isTheirs format run) mine = .ok theirs := by
    refine filterM_total fun file hfile => ?_
    obtain ⟨found, hfound⟩ := hfound file hfile
    exact ⟨_, bind_eq_ok.mpr ⟨found, hfound, rfl⟩⟩
  have hheld : ∃ heldBack, filterM (isHeldBack format run) mine = .ok heldBack := by
    refine filterM_total fun file hfile => ?_
    obtain ⟨found, hfound⟩ := hfound file hfile
    exact ⟨_, bind_eq_ok.mpr ⟨found, hfound, rfl⟩⟩
  obtain ⟨theirs, htheirs⟩ := htheirs
  obtain ⟨heldBack, hheld⟩ := hheld
  exact ⟨_, bind_eq_ok.mpr ⟨stale, hstale, bind_eq_ok.mpr ⟨(mine, notOurs), hmine,
    bind_eq_ok.mpr ⟨theirs, htheirs, bind_eq_ok.mpr ⟨heldBack, hheld, rfl⟩⟩⟩⟩⟩

/-- What a preflight reads of the documents of a render. -/
theorem Planned.reads {host : Host} {planned : List (String × Option (List (Yaml σ)))}
    (h : Planned host planned) : ∀ file ∈ planned, ∃ mark ownerId,
      renderedMission file.2 = .ok mark ∧ renderedOwnerId file.2 = .ok ownerId := by
  obtain ⟨plan, files, hplanned, rfl⟩ := h
  intro file hfile
  obtain ⟨source, hsource, rfl⟩ := List.mem_map.mp hfile
  have hstamp : ∃ stamp : OwnerStamp, source.2 ≠ [] ∧ ∀ doc ∈ source.2, stamp.On doc := by
    rcases hplanned with ⟨options, hplanned⟩ | ⟨options, hplanned⟩
    · exact ⟨_, plannedWorkflows_stamped host hplanned source hsource⟩
    · obtain ⟨hne, hdocs | ⟨_, _, hdocs⟩⟩ := plannedJobs_stamped host hplanned source hsource
      · exact ⟨_, hne, hdocs⟩
      · exact ⟨_, hne, hdocs⟩
  obtain ⟨stamp, hne, hdocs⟩ := hstamp
  exact ⟨_, _, renderedMission_of_stamp hne hdocs, renderedOwnerId_of_stamp hne hdocs⟩

theorem sameOwner_total {theirs : ArtifactMission σ} {ours ownerId : Yaml σ}
    {rendered : Option (List (Yaml σ))} (h : renderedOwnerId rendered = .ok ownerId) :
    ∃ b, sameOwner theirs ours rendered = .ok b := by
  unfold sameOwner
  split
  · exact ⟨_, rfl⟩
  · unfold sameInstallation
    split
    · exact ⟨_, bind_eq_ok.mpr ⟨ownerId, h, rfl⟩⟩
    · exact ⟨false, rfl⟩
  · exact ⟨false, rfl⟩

theorem isConflict_total (h : Classified format listing) {name : String}
    {rendered : Option (List (Yaml σ))} {mark ownerId : Yaml σ}
    (hmark : renderedMission rendered = .ok mark)
    (howner : renderedOwnerId rendered = .ok ownerId) :
    ∃ b, isConflict format rendered (entryAt listing name) = .ok b := by
  cases hentry : entryAt listing name with
  | none => exact ⟨false, rfl⟩
  | some entry =>
    obtain ⟨file, hfind, hfile⟩ := Option.map_eq_some_iff.mp hentry
    have hmem := List.mem_of_find?_eq_some hfind
    subst hfile
    cases hkind : file.2 with
    | symlink target => exact ⟨true, rfl⟩
    | other => exact ⟨true, rfl⟩
    | regular text =>
      show ∃ b, (if isRenderedArtifact format (.regular text) then _ else _) = _
      split
      · next hrendered =>
        rw [← hkind] at hrendered
        obtain ⟨theirs, htheirs⟩ := h file hmem hrendered
        rw [hkind] at htheirs
        have hsame : ∃ same, sameOwner theirs mark rendered = .ok same := sameOwner_total howner
        obtain ⟨same, hsame⟩ := hsame
        refine ⟨!same, bind_eq_ok.mpr ⟨same, ?_, rfl⟩⟩
        exact bind_eq_ok.mpr ⟨theirs, htheirs, bind_eq_ok.mpr ⟨mark, hmark, hsame⟩⟩
      · exact ⟨true, rfl⟩

theorem preflightWritable_raises (h : Classified format listing) {host : Host}
    {planned : List (String × Option (List (Yaml σ)))} (hplanned : Planned host planned) {e : Exn}
    (herror : preflightWritable format (entryAt listing) planned = .error e) : e = .valueError := by
  have htotal : ∃ conflicts, filterM (fun file => isConflict format file.2
      (entryAt listing file.1)) planned = .ok conflicts := by
    refine filterM_total fun file hfile => ?_
    obtain ⟨mark, ownerId, hmark, howner⟩ := hplanned.reads file hfile
    exact isConflict_total h hmark howner
  obtain ⟨conflicts, hconflicts⟩ := htotal
  rw [preflightWritable, hconflicts] at herror
  cases conflicts with
  | nil => cases herror
  | cons conflict conflicts =>
    cases herror
    rfl

end

/-- The classification never crashes on a directory, and never takes for an owner what is no text,
exactly when the documents of each rendered file are answerable. -/
theorem neverCrashes_iff (format : Format τ σ) (host : Host) (listing : List (String × Entry τ)) :
    NeverCrashes format host listing ↔
      ∀ file ∈ listing, isRenderedArtifact format file.2 = true → ∀ text docs,
        file.2 = .regular text → format.load text = some docs → Answerable (written docs) := by
  constructor
  · intro hnever file hfile hrendered text docs htext hload
    obtain ⟨text', docs', htext', hload', _, hmanaged⟩ := rendered_eq_true hrendered
    obtain rfl : text' = text := Entry.regular.inj (htext'.symm.trans htext)
    obtain rfl : docs' = docs := Option.some.inj (hload'.symm.trans hload)
    exact (sound_iff hload hmanaged).mp (hnever.sound file hfile hrendered _ _ htext hload)
  · intro hanswerable
    have hsound : ∀ file ∈ listing, isRenderedArtifact format file.2 = true → ∀ text docs,
        file.2 = .regular text → format.load text = some docs →
          Sound format text (written docs) := by
      intro file hfile hrendered text docs htext hload
      obtain ⟨text', docs', htext', hload', _, hmanaged⟩ := rendered_eq_true hrendered
      obtain rfl : text' = text := Entry.regular.inj (htext'.symm.trans htext)
      obtain rfl : docs' = docs := Option.some.inj (hload'.symm.trans hload)
      exact (sound_iff hload hmanaged).mpr (hanswerable file hfile hrendered _ _ htext hload)
    have hclassified : Classified format listing := by
      intro file hfile hrendered
      obtain ⟨text, docs, htext, hload, _, _⟩ := rendered_eq_true hrendered
      rw [htext]
      exact (hsound file hfile hrendered _ _ htext hload).answers
    refine ⟨hsound, fun run current e herror => ?_, fun run current stale hstale e herror => ?_,
      fun run current e herror => ?_, fun planned hplanned e herror =>
        preflightWritable_raises hclassified hplanned herror⟩
    · obtain ⟨stale, hstale⟩ := staleRenderedArtifacts_total hclassified
      rw [hstale] at herror
      cases herror
    · obtain ⟨parts, hparts⟩ := attributeStale_total hstale
      rw [hparts] at herror
      cases herror
    · obtain ⟨files, hfiles⟩ := staleFiles_total hclassified
      rw [hfiles] at herror
      cases herror

end

/-! A file whose renderer label is a list. -/

/-- Texts that are their documents. -/
def plainFormat : Format (List (Yaml Number)) Number where
  load docs := some docs
  dump docs := docs.map Yaml.ofJson

def listedRenderer : Yaml Number :=
  .dict [(.str "metadata", .dict [
    (.str "labels", .dict [(.str managedByLabel, .str managedByValue),
      (.str rendererLabel, .list [.str rendererArgo])])])]

/-- The scan raises the exception that the check of a mark was written to prevent. -/
theorem listedRenderer_crashes :
    isRenderedArtifact plainFormat (.regular [listedRenderer]) = true ∧
      artifactMission plainFormat (.regular [listedRenderer]) = .error .typeError ∧
      staleRenderedArtifacts plainFormat ⟨rendererKueue, ["m"], none, true, none, false⟩ []
        [("old.yaml", .regular [listedRenderer])] = .error .typeError ∧
      ¬ NeverCrashes plainFormat sampleHost [("old.yaml", .regular [listedRenderer])] := by
  refine ⟨rfl, rfl, rfl, fun hnever => ?_⟩
  exact hnever.stale ⟨rendererKueue, ["m"], none, true, none, false⟩ [] .typeError rfl

end MissionCompiler.Artifact
