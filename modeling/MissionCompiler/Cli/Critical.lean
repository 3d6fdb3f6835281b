import MissionCompiler.Cli.Views

/-!
# What a command does under the lock

A render command parts into what it does before it asks for the lock and what it does under it, from
the snapshot or the preflight to the last removal. Before it asks it leaves the output directory
alone, and does not look at it.
-/

namespace MissionCompiler.Cli

open Lib Schema Names Compile Render Artifact Publish

variable {τ σ : Type} [Scalars σ]

section

variable (c : Circumstances τ) (format : Format τ σ) (host : Host)

/-- The gate under the lock. -/
def lintUnderLock (plan : MissionPlan) (prune : Bool) (written : List String) :
    Run τ (Rendered τ) := do
  let carried ← snapshot c format (argoReconciliation host plan) prune written
  let lint ← lintSnapshot c carried
  preflight format ownershipReport .out (stagedDocuments format written)
  publishSet c written
  return (written, some lint)

/-- What the gate asks for the lock for, once it has rendered. -/
def gateAsks (plan : MissionPlan) (prune : Bool) (written : List String) :
    Run τ (Run τ (Rendered τ)) :=
  if written.isEmpty && prune then pure (pure ([], some .notApplicable))
  else if !c.argoFound then Session.stop .lintUnavailable
  else if written.isEmpty then Session.stop .noManifests
  else pure (lintUnderLock c format host plan prune written)

/-- `render-kueue` under the lock. -/
def publishJobs (planned : List (String × List Json)) : Run τ (Rendered τ) := do
  Session.lift ownershipReport (preflightUnique (planned.map Prod.fst))
  preflight format ownershipReport .out fun _ =>
    planned.map fun file => (file.1, format.load (format.dump file.2))
  makeStaging
  writeAll c format .staging planned
  publishSet c (planned.map Prod.fst)
  return (planned.map Prod.fst, none)

namespace Command

/-- Whether a command is a gate. -/
def gated : Command → Bool
  | .renderArgo _ _ argoLint _ => argoLint
  | .renderKueue _ _ _ _ => false

/-- What a command does before it asks for the lock. It comes to what the command renders under
it. -/
def asks : Command → Run τ (Run τ (Rendered τ))
  | .renderArgo plan options true prune => do
    makeStaging
    let written ← writeIndividualWorkflows c format host .staging plan options
    gateAsks c format host plan prune written
  | .renderArgo plan options false _ => pure do
    let written ← writeIndividualWorkflows c format host .out plan options
    return (written, none)
  | .renderKueue plan options _ _ => do
    Session.lift .raised (c.policy plan)
    let planned ← Session.lift .raised (plannedJobs host plan options)
    return publishJobs c format planned

/-- The lock, as a command takes it. -/
def takes (lock : Lock) (command : Command) : Run τ Unit :=
  if command.gated then takeLockOrStop lock else takeLock lock

/-- What a command does under the lock: it renders, and then looks for stale files. -/
def critical (command : Command) (rendering : Run τ (Rendered τ)) : Run τ (Report τ) := do
  let rendered ← rendering
  let stale ← reportStale c format (command.reconciliation host) command.prune rendered.1
  return ⟨rendered.1, rendered.2, stale⟩

end Command

end

variable {c : Circumstances τ} {format : Format τ σ} {host : Host}

/-! ## The parts of a command -/

/-- The gate asks for the lock between the two parts. -/
theorem gateRendered_eq (plan : MissionPlan) (prune : Bool) (written : List String) :
    gateRendered c format host plan prune written =
      gateAsks c format host plan prune written >>= fun rendering =>
        takeLockOrStop c.lock >>= fun _ => rendering := by
  unfold gateRendered gateAsks
  split
  · rfl
  · split
    · rfl
    · split
      · rfl
      · rfl

/-- A command renders, takes the lock and publishes. -/
theorem Command.render_eq (command : Command) : command.render c format host =
    command.asks c format host >>= fun rendering =>
      command.takes c.lock >>= fun _ => rendering := by
  cases command with
  | renderArgo plan options argoLint prune =>
    cases argoLint with
    | true =>
      show (makeStaging >>= fun _ => _ >>= fun written => gateRendered c format host plan prune
        written) = (makeStaging >>= fun _ => _ >>= fun written => gateAsks c format host plan prune
          written) >>= fun rendering => takeLockOrStop c.lock >>= fun _ => rendering
      simp only [bind_assoc, gateRendered_eq]
    | false => rfl
  | renderKueue plan options prune pruneGlobal =>
    show Cli.renderKueue c format host plan options = (_ >>= fun _ => _ >>= fun planned =>
      pure (publishJobs c format planned)) >>= fun rendering =>
        takeLock c.lock >>= fun _ => rendering
    simp only [bind_assoc, pure_bind]
    rfl

/-- A command is the part before the lock, the lock, and the part under it. -/
theorem Command.run_eq (command : Command) : command.run c format host =
    command.asks c format host >>= fun rendering =>
      command.takes c.lock >>= fun _ => command.critical c format host rendering := by
  unfold Command.run Command.critical
  rw [command.render_eq]
  simp only [bind_assoc]

/-! What becomes of the lock makes no difference to the steps that do not take it. -/

section

variable (lock : Lock)

omit [Scalars σ] in
/-- How the lock is taken makes no difference to the writing of a set of files. -/
theorem writeAll_with_lock (place : Place) (planned : List (String × List Json)) :
    writeAll { c with lock := lock } format place planned = writeAll c format place planned := by
  induction planned with
  | nil => rfl
  | cons file rest ih =>
    unfold writeAll
    rw [ih]

/-- How the lock is taken makes no difference to the manifests that are carried. -/
theorem carryManifests_with_lock (skipped : List String) (files : List (String × Entry τ)) :
    carryManifests { c with lock := lock } skipped files = carryManifests c skipped files := by
  induction files with
  | nil => rfl
  | cons file files ih =>
    have hhere : carryUnless { c with lock := lock } skipped file.1 file.2 =
        carryUnless c skipped file.1 file.2 := by
      unfold carryUnless
      cases file.2 <;> rfl
    unfold carryManifests
    rw [ih, hhere]

/-- How the lock is taken makes no difference to the dropping of what was carried. -/
theorem dropCarried_with_lock (carried : List String) :
    (dropCarried { c with lock := lock } carried : Run τ Unit) = dropCarried c carried := by
  induction carried with
  | nil => rfl
  | cons name carried ih =>
    unfold dropCarried
    rw [ih]

/-- How the lock is taken makes no difference to the workflows that are written. -/
theorem writeIndividualWorkflows_with_lock (place : Place) (plan : MissionPlan)
    (options : ArgoOptions) :
    writeIndividualWorkflows { c with lock := lock } format host place plan options =
      writeIndividualWorkflows c format host place plan options := by
  unfold writeIndividualWorkflows
  simp only [writeAll_with_lock]

/-- How the lock is taken makes no difference to the lint. -/
theorem lintSnapshot_with_lock (carried : List String) :
    lintSnapshot { c with lock := lock } carried = lintSnapshot c carried := by
  have hact : ∀ linted answer, actOnAnswer { c with lock := lock } carried linted answer =
      actOnAnswer c carried linted answer := by
    intro linted answer
    cases answer with
    | unavailable => rfl
    | answered accepted output =>
      unfold actOnAnswer
      rw [dropCarried_with_lock]
  unfold lintSnapshot
  simp only [hact]

/-- The gate under the lock does not take it again. -/
theorem lintUnderLock_with_lock (plan : MissionPlan) (prune : Bool) (written : List String) :
    lintUnderLock { c with lock := lock } format host plan prune written =
      lintUnderLock c format host plan prune written := by
  unfold lintUnderLock snapshot
  simp only [carryManifests_with_lock, lintSnapshot_with_lock]
  rfl

/-- What a command does before it asks for the lock does not depend on how it is taken. -/
theorem Command.asks_with_lock (command : Command) :
    command.asks { c with lock := lock } format host = command.asks c format host := by
  cases command with
  | renderArgo plan options argoLint prune =>
    cases argoLint with
    | true =>
      unfold asks gateAsks
      simp only [writeIndividualWorkflows_with_lock, lintUnderLock_with_lock]
    | false =>
      unfold asks
      simp only [writeIndividualWorkflows_with_lock]
  | renderKueue plan options prune pruneGlobal =>
    unfold asks publishJobs
    simp only [writeAll_with_lock]
    rfl

end

/-- A command that is given the lock. -/
theorem Command.run_acquired (command : Command) :
    command.run { c with lock := .acquired } format host =
      command.asks c format host >>= command.critical c format host := by
  have htakes : command.takes .acquired = (pure () : Run τ Unit) := by
    unfold takes
    split <;> rfl
  rw [command.run_eq, htakes, command.asks_with_lock]
  rfl

/-! ## Before the lock -/

/-- Before it asks for the lock a command leaves the output alone. -/
theorem Command.keeps_asks (command : Command) :
    Session.Keeps (SameIn .out) (command.asks c format host) := by
  have hrefl : ∀ dir : Directory τ, SameIn .out dir dir := SameIn.refl .out
  cases command with
  | renderArgo plan options argoLint prune =>
    cases argoLint with
    | true =>
      refine keeps_makeStaging.bind SameIn.trans fun _ => ?_
      refine (keeps_writeIndividualWorkflows (by decide) options).bind SameIn.trans
        fun written => ?_
      unfold gateAsks
      split
      · exact Session.keeps_pure hrefl _
      · split
        · exact Session.keeps_stop hrefl _
        · split
          · exact Session.keeps_stop hrefl _
          · exact Session.keeps_pure hrefl _
    | false => exact Session.keeps_pure hrefl _
  | renderKueue plan options prune pruneGlobal =>
    refine (Session.keeps_lift hrefl _ _).bind SameIn.trans fun _ => ?_
    exact (Session.keeps_lift hrefl _ _).bind SameIn.trans fun planned =>
      Session.keeps_pure hrefl _

/-- Before it asks for the lock a command does not look at the output. -/
theorem Command.respects_asks (command : Command) :
    Session.Respects (Alike (· ≠ .out)) (command.asks c format host) := by
  cases command with
  | renderArgo plan options argoLint prune =>
    cases argoLint with
    | true =>
      refine respects_makeStaging.bind fun _ => ?_
      refine (respects_writeIndividualWorkflows (by decide) plan options).bind fun written => ?_
      unfold gateAsks
      split
      · exact Session.respects_pure _
      · split
        · exact Session.respects_stop _
        · split
          · exact Session.respects_stop _
          · exact Session.respects_pure _
    | false => exact Session.respects_pure _
  | renderKueue plan options prune pruneGlobal =>
    refine (Session.respects_lift _ _).bind fun _ => ?_
    exact (Session.respects_lift _ _).bind fun planned => Session.respects_pure _

/-! ## Under the lock -/

/-- The gate sees its directories by their names. -/
theorem respects_lintUnderLock (plan : MissionPlan) (prune : Bool) (written : List String) :
    Session.Respects (Alike fun _ => True) (lintUnderLock c format host plan prune written) := by
  refine (respects_snapshot trivial _ prune written).bind fun carried => ?_
  refine (respects_lintSnapshot trivial carried).bind fun lint => ?_
  refine (respects_preflight trivial fun dir dir' h => ?_).bind fun _ => ?_
  · unfold stagedDocuments
    rw [stagedTexts_congr h trivial]
  · exact (respects_publishSet written).bind fun _ => Session.respects_pure _

/-- Under the lock `render-kueue` sees its directories by their names. -/
theorem respects_publishJobs (planned : List (String × List Json)) :
    Session.Respects (Alike fun _ => True) (publishJobs c format planned) := by
  refine (Session.respects_lift _ _).bind fun _ => ?_
  refine (respects_preflight trivial fun _ _ _ => rfl).bind fun _ => ?_
  refine respects_makeStaging.bind fun _ => ?_
  refine (respects_writeAll .staging planned).bind fun _ => ?_
  exact (respects_publishSet _).bind fun _ => Session.respects_pure _

/-- What a command asks for the lock for is made of its own steps. -/
theorem Command.respects_asked {command : Command} {rendering : Run τ (Rendered τ)}
    {dir : Directory τ} (h : (command.asks c format host dir).1 = .ok rendering) :
    Session.Respects (Alike fun _ => True) rendering := by
  obtain ⟨dir', h⟩ : ∃ dir', command.asks c format host dir = (.ok rendering, dir') :=
    ⟨_, Prod.ext h rfl⟩
  cases command with
  | renderArgo plan options argoLint prune =>
    cases argoLint with
    | true =>
      obtain ⟨_, _, _, h⟩ := Session.bind_eq_ok.mp h
      obtain ⟨written, t, _, h⟩ := Session.bind_eq_ok.mp h
      unfold gateAsks at h
      split at h
      · rw [(Session.pure_eq_ok.mp h).1]
        exact Session.respects_pure _
      · split at h
        · cases h
        · split at h
          · cases h
          · rw [(Session.pure_eq_ok.mp h).1]
            exact respects_lintUnderLock plan prune written
    | false =>
      rw [(Session.pure_eq_ok.mp h).1]
      exact (respects_writeIndividualWorkflows trivial plan options).bind
        fun written => Session.respects_pure _
  | renderKueue plan options prune pruneGlobal =>
    obtain ⟨_, _, _, h⟩ := Session.bind_eq_ok.mp h
    obtain ⟨planned, _, _, h⟩ := Session.bind_eq_ok.mp h
    rw [(Session.pure_eq_ok.mp h).1]
    exact respects_publishJobs planned

/-- Under the lock a command sees its directories by their names, as what it renders does. -/
theorem Command.respects_critical {command : Command} {rendering : Run τ (Rendered τ)}
    (h : Session.Respects (Alike fun _ => True) rendering) :
    Session.Respects (Alike fun _ => True) (command.critical c format host rendering) := by
  refine h.bind fun rendered => ?_
  exact (respects_reportStale trivial _ _ _).bind fun stale => Session.respects_pure _

end MissionCompiler.Cli
