import MissionCompiler.Artifact.Removal
import MissionCompiler.Cli.Effects
import MissionCompiler.Render.Admission

/-!
# What a prune removes

Whatever is in the output directory, and whatever fails on the way: a run that has rendered, and
so comes to its scan, leaves every entry it did not write as it was, but for the removable ones.
-/

namespace MissionCompiler.Cli

open Lib Schema Names Compile Render Artifact Publish

variable {τ σ : Type} [Scalars σ] {c : Circumstances τ} {format : Format τ σ} {host : Host}

/-- What a command reconciles is its mission, by fingerprint and by raw id. -/
theorem Command.reconciliation_owners (host : Host) (command : Command) :
    (∃ owners, (command.reconciliation host).owners = some owners) ∧
      ((command.reconciliation host).includeUnmissioned = true →
        ∃ o, (command.reconciliation host).installation = some o) := by
  cases command with
  | renderArgo plan options argoLint prune => exact ⟨⟨_, rfl⟩, fun h => Bool.noConfusion h⟩
  | renderKueue plan options prune pruneGlobal => exact ⟨⟨_, rfl⟩, fun _ => ⟨_, rfl⟩⟩

/-- What a run may have done to an entry it did not write. -/
def LeftOrRemoved (format : Format τ σ) (unset : Option (Yaml σ) → Prop) (host : Host)
    (command : Command) (name : String) (before after : Option (Entry τ)) : Prop :=
  after = before ∨ after = none ∧ command.prune = true ∧ isManifestName name = true ∧
    ∃ text docs, before = some (.regular text) ∧ format.load text = some docs ∧
      Removable unset (command.reconciliation host) (written docs)

/-- A run that has rendered leaves the files it wrote, and removes of the others only what is
removable. -/
theorem Command.run_removes_only {command : Command} {dir rendered : Directory τ}
    {names : Rendered τ} (h : command.render c format host dir = (.ok names, rendered)) :
    ∃ planned, command.planned host = .ok planned ∧ ∀ name,
      (name ∈ planned.map Prod.fst →
        (command.run c format host dir).2.at? (.out, name) = contentOf format planned name) ∧
      (name ∉ planned.map Prod.fst → LeftOrRemoved format Unset host command name
        (dir.at? (.out, name)) ((command.run c format host dir).2.at? (.out, name))) := by
  obtain ⟨planned, hplanned, hnames, _, hout⟩ := Command.render_eq_ok h
  refine ⟨planned, hplanned, fun name => ?_⟩
  have hreport : ∃ result, reportStale c format (command.reconciliation host) command.prune
      names.1 rendered = (result, (command.run c format host dir).2) := by
    have hrun : command.run c format host dir = _ := Session.bind_of_ok _ h
    rw [hrun]
    cases hstale : reportStale c format (command.reconciliation host) command.prune names.1
        rendered with
    | mk result after =>
      refine ⟨result, ?_⟩
      cases result with
      | ok stale => rw [Session.bind_of_ok _ hstale]; rfl
      | error stop => rw [Session.bind_of_error _ hstale]
  obtain ⟨result, hreport⟩ := hreport
  rcases reportStale_out hreport name with hkept | ⟨hgone, hprune, files, hfiles, hmine⟩
  · constructor
    · intro hname
      obtain ⟨entry, hentry⟩ := contentOf_isSome format hname
      rw [hkept, hout name, hentry]
      rfl
    · intro hname
      refine .inl ?_
      rw [hkept, hout name, contentOf_eq_none.mpr hname]
      rfl
  · obtain ⟨file, hfile, rfl⟩ := List.mem_map.mp hmine
    obtain ⟨hlisted, found, hfound, hchosen⟩ :=
      (mem_mine hfiles (nodup_listing .out rendered)).mp hfile
    have hfresh : file.1 ∉ planned.map Prod.fst := hnames ▸ hchosen.fresh
    refine ⟨fun hname => absurd hname hfresh, fun _ => .inr ⟨hgone, hprune, hchosen.manifest, ?_⟩⟩
    obtain ⟨howners, hinstallation⟩ := command.reconciliation_owners host
    obtain ⟨text, docs, hregular, hload, hremovable⟩ :=
      hchosen.removable hfound howners hinstallation
    refine ⟨text, docs, ?_, hload, hremovable⟩
    have hentry := mem_listing.mp hlisted
    rw [hout file.1, contentOf_eq_none.mpr hfresh, hregular] at hentry
    exact hentry

/-! A plan that renders nothing, pruned over a file of its mission whose owner id is written with
no value. -/

/-- Texts that are their documents. -/
def sampleFormat : Format (List (Yaml Number)) Number where
  load docs := some docs
  dump docs := docs.map Yaml.ofJson

def sampleCircumstances : Circumstances (List (Yaml Number)) where
  faults _ := false
  survives _ := false
  lock := .acquired
  policy _ := .ok ()
  argoFound := true
  unreadable _ := []
  lint _ := .answered true ""

def downlinkPlan : MissionPlan where
  missionId := "m1"
  clientId := none
  events := [⟨⟨noon, .download, none, some 60, none, none, true, none, [], by decide⟩, by decide⟩]
  missionId_notBlank := repeatedPlan.missionId_notBlank
  events_ne_nil := by decide

/-- A rendered document of a mission, with the owner id an operator left in it. -/
def sampleDocument (scope : String) (ownerId : Yaml Number) : Yaml Number :=
  .dict [(.str "metadata", .dict [
    (.str "labels", .dict [(.str managedByLabel, .str managedByValue),
      (.str missionFingerprintLabel, .str (missionFingerprint sampleSha "m1")),
      (.str rendererLabel, .str rendererArgo), (.str ownerScopeLabel, .str scope)]),
    (.str "annotations", .dict [(.str ownerIdAnnotationKey, ownerId)])])]

/-- An output directory with one file in it. -/
def sampleDirectory (doc : Yaml Number) : Directory (List (Yaml Number)) :=
  ⟨[⟨(.out, "old.yaml"), .regular [doc]⟩].toAList, 0⟩

def nullOwner : Yaml Number := sampleDocument scopeMission .null

def downlinkPrune : Command := .renderArgo downlinkPlan ⟨false, none, none⟩ false true

theorem downlinkPrune_renders : ∃ names rendered, downlinkPrune.render sampleCircumstances
    sampleFormat sampleHost (sampleDirectory nullOwner) = (.ok names, rendered) :=
  Session.exists_of_isOk (by decide +kernel)

theorem downlinkPrune_removes_only :
    ∃ planned, downlinkPrune.planned sampleHost = .ok planned ∧ ∀ name,
      (name ∈ planned.map Prod.fst →
        (downlinkPrune.run sampleCircumstances sampleFormat sampleHost
          (sampleDirectory nullOwner)).2.at? (.out, name) = contentOf sampleFormat planned name) ∧
      (name ∉ planned.map Prod.fst → LeftOrRemoved sampleFormat Unset sampleHost downlinkPrune name
        ((sampleDirectory nullOwner).at? (.out, name))
        ((downlinkPrune.run sampleCircumstances sampleFormat sampleHost
          (sampleDirectory nullOwner)).2.at? (.out, name))) := by
  obtain ⟨names, rendered, hrender⟩ := downlinkPrune_renders
  exact Command.run_removes_only hrender

/-- An owner id that is there, and names nobody, does not keep a file. -/
theorem downlinkPrune_removes_null_owner :
    (downlinkPrune.planned sampleHost = .ok []) ∧
      (∃ names rendered, downlinkPrune.render sampleCircumstances sampleFormat sampleHost
        (sampleDirectory nullOwner) = (.ok names, rendered)) ∧
      ¬ LeftOrRemoved sampleFormat (fun value => value = none) sampleHost downlinkPrune "old.yaml"
        ((sampleDirectory nullOwner).at? (.out, "old.yaml"))
        ((downlinkPrune.run sampleCircumstances sampleFormat sampleHost
          (sampleDirectory nullOwner)).2.at? (.out, "old.yaml")) := by
  refine ⟨rfl, downlinkPrune_renders, fun h => ?_⟩
  have hbefore : (sampleDirectory nullOwner).at? (.out, "old.yaml") =
      some (.regular [nullOwner]) := rfl
  have hafter : ((downlinkPrune.run sampleCircumstances sampleFormat sampleHost
      (sampleDirectory nullOwner)).2.at? (.out, "old.yaml")).isNone = true := by decide +kernel
  rw [hbefore] at h
  rcases h with hsame | ⟨_, _, _, text, docs, htext, hload, hremovable⟩
  · rw [hsame] at hafter
    cases hafter
  · cases htext
    cases hload
    have hmem : nullOwner ∈ written [nullOwner] := List.mem_cons_self
    rcases hremovable.owner with hmission | hinstallation
    · rcases hmission.ownerId with habsent | ⟨_, _, o, _, hnamed⟩
      · cases habsent nullOwner hmem
      · cases hnamed nullOwner hmem
    · cases hinstallation.mark nullOwner hmem

end MissionCompiler.Cli
