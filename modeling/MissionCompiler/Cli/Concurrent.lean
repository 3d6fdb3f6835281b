import MissionCompiler.Cli.Critical
import MissionCompiler.Cli.LintGate
import MissionCompiler.Lib.Interleaving

/-!
# Concurrent renders

Any number of render commands share one output directory and one lock; each has staging and backup
directories of its own. Where the lock can be taken, their steps come to what the commands do one
after another, in the order in which they took it. Where it cannot, the gate does nothing, and the
other commands go on without it.
-/

namespace MissionCompiler.Cli

open Lib Schema Names Compile Render Artifact Publish

variable {τ σ : Type} {dir : Directory τ}

/-! ## Runs in steps -/

/-- A command line, and what its run meets. -/
structure Invocation (τ : Type) where
  command : Command
  circumstances : Circumstances τ

/-- How a run ends. -/
abbrev Ending (τ : Type) := Except Stop (Report τ)

variable [Scalars σ]

section

variable (format : Format τ σ) (host : Host)

/-- A run that is given the lock. -/
def Invocation.run (invocation : Invocation τ) : Run τ (Report τ) :=
  invocation.command.run { invocation.circumstances with lock := .acquired } format host

/-- A run divided into steps, of any size: on the way to the lock they come to what the command
does there, and from there on to what it does under the lock. -/
structure Division (invocation : Invocation τ) where
  before : Proc (Own τ) (Except Stop (Run τ (Rendered τ)))
  inside : Run τ (Rendered τ) → Proc (Out τ × Own τ) (Ending τ)
  before_does : before.CarriesOut ownOf
    (invocation.command.asks invocation.circumstances format host)
  inside_does : ∀ dir rendering,
    (invocation.command.asks invocation.circumstances format host dir).1 = .ok rendering →
      (inside rendering).CarriesOut viewOf
        (invocation.command.critical invocation.circumstances format host rendering)

variable {format host}

/-- A run as a client of the lock. Where nothing can lock, the gate is refused, and any other
command goes on. -/
def Division.client {invocation : Invocation τ} (division : Division format host invocation) :
    Client (Out τ) (Own τ) (Run τ (Rendered τ)) (Ending τ) where
  before := division.before.bind fun asked => .done (asked.mapError .error)
  inside := division.inside
  refused := .error .lockUnavailable
  unlocked rendering := if invocation.command.gated then .done (.error .lockUnavailable)
    else division.inside rendering

/-- Every run can be divided, if only into what it does before the lock and what it does under
it. -/
noncomputable def Division.coarse (invocation : Invocation τ) :
    Division format host invocation where
  before := .atOnce ownOf (invocation.command.asks invocation.circumstances format host)
    (.error .lockUnavailable)
  inside rendering := .atOnce viewOf
    (invocation.command.critical invocation.circumstances format host rendering)
    (.error .lockUnavailable)
  before_does := by
    apply Proc.carriesOut_atOnce
    simp only [ownOf_eq_iff]
    exact invocation.command.respects_asks
  inside_does dir rendering hasked := by
    apply Proc.carriesOut_atOnce
    simp only [viewOf_eq_iff]
    exact Command.respects_critical (Command.respects_asked hasked)

end

variable {format : Format τ σ} {host : Host} {ι : Type} {invocations : ι → Invocation τ}

/-- The output directory after the runs, one after another, each with the lock. -/
def inTurn (format : Format τ σ) (host : Host) (invocations : ι → Invocation τ) (order : List ι)
    (dir : Directory τ) : Directory τ :=
  order.foldl (fun dir i => ((invocations i).run format host (atTurn dir)).2) dir

theorem Division.client_before {invocation : Invocation τ}
    (division : Division format host invocation) (dir : Directory τ) :
    division.client.before.runAlone (ownOf dir) =
      ((invocation.command.asks invocation.circumstances format host dir).1.mapError .error,
        ownOf (invocation.command.asks invocation.circumstances format host dir).2) := by
  show (division.before.bind _).runAlone (ownOf dir) = _
  rw [Proc.runAlone_bind, division.before_does dir]
  rfl

theorem Division.client_asks {invocation : Invocation τ}
    (division : Division format host invocation) {rendering : Run τ (Rendered τ)}
    (h : (invocation.command.asks invocation.circumstances format host (atTurn ⟨∅, 0⟩)).1 =
      .ok rendering) : (division.client.before.runAlone Own.new).1 = .ok rendering := by
  rw [← (Prod.mk.inj (viewOf_atTurn (⟨∅, 0⟩ : Directory τ))).2, division.client_before, h]
  rfl

/-- A run by itself does what the command does. -/
theorem Division.client_alone {invocation : Invocation τ}
    (division : Division format host invocation) (dir : Directory τ) :
    division.client.alone Own.new (outOf dir) =
      ((invocation.run format host (atTurn dir)).1,
        outOf (invocation.run format host (atTurn dir)).2) := by
  have hrun : invocation.run format host =
      invocation.command.asks invocation.circumstances format host >>=
        invocation.command.critical invocation.circumstances format host :=
    invocation.command.run_acquired
  obtain ⟨hout, hown⟩ := Prod.mk.inj (viewOf_atTurn dir)
  have hkept : outOf (invocation.command.asks invocation.circumstances format host
      (atTurn dir)).2 = outOf dir :=
    (outOf_eq_of_sameIn (invocation.command.keeps_asks (atTurn dir))).trans hout
  have hbefore := division.client_before (atTurn dir)
  rw [hrun, Session.bind_apply, Client.alone, ← hown, hbefore]
  cases hasked : invocation.command.asks invocation.circumstances format host (atTurn dir) with
  | mk asked mine =>
    rw [hasked] at hkept
    cases asked with
    | error stop => exact Prod.ext rfl hkept.symm
    | ok rendering =>
      have hinside := division.inside_does (atTurn dir) rendering (by rw [hasked]) mine
      have hview : (outOf dir, ownOf mine) = viewOf mine := Prod.ext hkept.symm rfl
      show (((division.inside rendering).runAlone (outOf dir, ownOf mine)).1,
        ((division.inside rendering).runAlone (outOf dir, ownOf mine)).2.1) = _
      rw [hview, hinside]
      rfl

theorem serial_eq_inTurn (divisions : ∀ i, Division format host (invocations i))
    (order : List ι) (dir : Directory τ) :
    serial (fun i => (divisions i).client) (fun _ => Own.new) order (outOf dir) =
      outOf (inTurn format host invocations order dir) := by
  unfold serial inTurn
  induction order generalizing dir with
  | nil => rfl
  | cons i order ih =>
    rw [List.foldl_cons, List.foldl_cons, (divisions i).client_alone dir]
    exact ih _

/-! ## Interleavings -/

section

variable [DecidableEq ι] (divisions : ∀ i, Division format host (invocations i))

/-- The runs before any step, over an output directory. -/
def begun (dir : Directory τ) : System ι (Out τ) (Own τ) (Run τ (Rendered τ)) (Ending τ) :=
  System.start (fun i => (divisions i).client) (fun _ => Own.new) (outOf dir)

/-- An interleaving of the steps of the runs. -/
abbrev Interleaved (lockable : Bool) (dir : Directory τ)
    (changes : List (Change ι (Out τ)))
    (t : System ι (Out τ) (Own τ) (Run τ (Rendered τ)) (Ending τ)) : Prop :=
  Interleaving (fun i => (divisions i).client) lockable (begun divisions dir) changes t

end

/-- What a gate linted, and published, was over an output directory. -/
def LintedThere (format : Format τ σ) (host : Host) (plan : MissionPlan) (options : ArgoOptions)
    (prune : Bool) (dir : Directory τ) (linted : String → Option τ) : Prop :=
  ∃ planned published, plannedWorkflows host plan options = .ok planned ∧
    Passed format host plan prune planned (atTurn dir) published linted

/-- A run did what it does over an output directory: it ends as there, what it changes first it
changes there, and a gate that passed its lint linted what was there. -/
structure RanOver (format : Format τ σ) (host : Host) (invocation : Invocation τ)
    (dir : Directory τ) (i : ι) (changes : List (Change ι (Out τ))) (ending : Ending τ) :
    Prop where
  ends : ending = (invocation.run format host (atTurn dir)).1
  begins : ∀ change, FirstChange changes change → change.actor = i → change.old = outOf dir
  linted : ∀ plan options prune report linted,
    invocation.command = .renderArgo plan options true prune → ending = .ok report →
      report.lint = some (.passed linted) →
        LintedThere format host plan options prune dir linted

/-- Runs that came to what the same runs do one after another. -/
structure OneAfterAnother (format : Format τ σ) (host : Host) (invocations : ι → Invocation τ)
    (dir : Directory τ) (changes : List (Change ι (Out τ)))
    (t : System ι (Out τ) (Own τ) (Run τ (Rendered τ)) (Ending τ)) : Prop where
  undisturbed : ∀ change ∈ changes, change.old = change.new ∨ change.saw = change.old
  once : t.order.Nodup
  final : (∀ i p, t.phase i ≠ .inside p) →
    t.shared = outOf (inTurn format host invocations t.order dir)
  ended : ∀ i ending, t.phase i = .after ending →
    (∃ earlier later, t.order = earlier ++ i :: later ∧ RanOver format host (invocations i)
      (inTurn format host invocations earlier dir) i changes ending) ∨
    i ∉ t.order ∧ ∃ stop, ending = .error stop

/-- Gates that did nothing, and said so. -/
structure GatesRefused (invocations : ι → Invocation τ) (changes : List (Change ι (Out τ)))
    (t : System ι (Out τ) (Own τ) (Run τ (Rendered τ)) (Ending τ)) : Prop where
  unchanged : ∀ i, (invocations i).command.gated = true →
    ∀ change ∈ changes, change.actor = i → change.old = change.new
  refused : ∀ i ending, (invocations i).command.gated = true → t.phase i = .after ending →
    ∃ stop, ending = .error stop

section

variable [DecidableEq ι] {divisions : ∀ i, Division format host (invocations i)}
  {changes : List (Change ι (Out τ))}
  {t : System ι (Out τ) (Own τ) (Run τ (Rendered τ)) (Ending τ)}

/-- A client that stopped on its way to the lock, or was refused it, reports that. -/
theorem Division.stopped {invocation : Invocation τ} (division : Division format host invocation)
    {ending : Ending τ} (h : ending = division.client.refused ∨
      (division.client.before.runAlone Own.new).1 = .error ending) :
    ∃ stop, ending = .error stop := by
  rcases h with h | h
  · exact ⟨_, h⟩
  · rw [← (Prod.mk.inj (viewOf_atTurn (⟨∅, 0⟩ : Directory τ))).2, division.client_before] at h
    cases hasked : (invocation.command.asks invocation.circumstances format host
        (atTurn ⟨∅, 0⟩)).1 with
    | ok rendering =>
      rw [hasked] at h
      cases h
    | error stop =>
      rw [hasked] at h
      exact ⟨stop, (Except.error.inj h).symm⟩

/-- A gate that passed its lint over an output directory linted what was there. -/
theorem lintedThere_of_run {invocation : Invocation τ} {plan : MissionPlan} {options : ArgoOptions}
    {prune : Bool} {report : Report τ} {linted : String → Option τ}
    (hcommand : invocation.command = .renderArgo plan options true prune)
    (hends : .ok report = (invocation.run format host (atTurn dir)).1)
    (hpassed : report.lint = some (.passed linted)) :
    LintedThere format host plan options prune dir linted := by
  obtain ⟨after, hrun⟩ :
      ∃ after, invocation.run format host (atTurn dir) = (.ok report, after) :=
    ⟨_, Prod.ext hends.symm rfl⟩
  unfold Invocation.run at hrun
  rw [hcommand] at hrun
  obtain ⟨rendered, published, hrender, hrun⟩ := Session.bind_eq_ok.mp hrun
  obtain ⟨stale, _, _, hrun⟩ := Session.bind_eq_ok.mp hrun
  obtain ⟨rfl, _⟩ := Session.pure_eq_ok.mp hrun
  obtain ⟨planned, hplanned, _, hspec⟩ := renderGated_passed hrender hpassed
  exact ⟨planned, published, hplanned, hspec⟩

theorem Interleaved.ended (h : Interleaved divisions true dir changes t) {i : ι}
    {ending : Ending τ} (hafter : t.phase i = .after ending) :
    (∃ earlier later, t.order = earlier ++ i :: later ∧ RanOver format host (invocations i)
      (inTurn format host invocations earlier dir) i changes ending) ∨
    i ∉ t.order ∧ ∃ stop, ending = .error stop := by
  have hclient := h.serialized.client i
  unfold Client.Consistent at hclient
  rw [hafter] at hclient
  rcases hclient with ⟨earlier, later, horder, hending⟩ | ⟨hout, hending⟩
  · left
    rw [serial_eq_inTurn, (divisions i).client_alone] at hending
    refine ⟨earlier, later, horder, hending, fun change hfirst hactor => ?_,
      fun plan options prune report linted hcommand hok hpassed => ?_⟩
    · obtain ⟨earlier', later', horder', hold⟩ := h.first_change hfirst
      rw [hactor] at horder'
      rw [hold, h.turn_unique horder horder', serial_eq_inTurn]
    · exact lintedThere_of_run hcommand (hok ▸ hending) hpassed
  · exact .inr ⟨hout, (divisions i).stopped hending⟩

theorem Interleaved.oneAfterAnother (h : Interleaved divisions true dir changes t) :
    OneAfterAnother format host invocations dir changes t where
  undisturbed := h.changes_seen
  once := h.nodup
  final houtside := by
    have hfree : t.holder = none := by
      cases hholder : t.holder with
      | none => rfl
      | some i =>
        obtain ⟨p, hp⟩ := h.serialized.holds i hholder
        exact absurd hp (houtside i p)
    rw [h.serialized.free hfree, serial_eq_inTurn]
  ended i ending hafter := h.ended hafter

theorem Interleaved.gatesRefused (h : Interleaved divisions false dir changes t) :
    GatesRefused invocations changes t := by
  have hgate : ∀ i, (invocations i).command.gated = true → ∀ rendering,
      (divisions i).client.unlocked rendering = .done (divisions i).client.refused :=
    fun i hgated _ => if_pos hgated
  refine ⟨fun i hgated => (h.idle (hgate i hgated)).2, fun i ending hgated hafter => ?_⟩
  have hidle := (h.idle (hgate i hgated)).1
  unfold Client.Idle at hidle
  rw [hafter] at hidle
  exact (divisions i).stopped hidle

/-- Renders into one output directory, however their steps interleave. A run that does not go in,
because it stopped before it asked for the lock, waited too long or could not open it, changes
nothing. Where the lock can be taken, the runs come to what they do one after another, in the order
in which they took it; where it cannot, the gates refuse. -/
theorem concurrent_renders {lockable : Bool} (h : Interleaved divisions lockable dir changes t) :
    (∀ change ∈ changes, change.actor ∉ t.order → change.old = change.new) ∧
      (lockable = true → OneAfterAnother format host invocations dir changes t) ∧
      (lockable = false → GatesRefused invocations changes t) := by
  refine ⟨h.outside, fun hlocks => ?_, fun hunlockable => ?_⟩
  · subst hlocks
    exact h.oneAfterAnother
  · subst hunlockable
    exact h.gatesRefused

end

/-! A gate, and a render without one, each given its turn. -/

def sampleInvocations (gate : Bool) : Invocation (List (Yaml Number)) :=
  ⟨if gate then gatedPrune else downlinkPrune, sampleCircumstances⟩

noncomputable def sampleDivisions (gate : Bool) :
    Division sampleFormat sampleHost (sampleInvocations gate) :=
  Division.coarse _

theorem sampleInvocations_ask (gate : Bool) :
    ((sampleInvocations gate).command.asks sampleCircumstances sampleFormat sampleHost
      (atTurn ⟨∅, 0⟩)).1.isOk = true := by
  cases gate <;> decide +kernel

theorem gate_then_render : ∃ changes t,
    Interleaved sampleDivisions true (sampleDirectory nullOwner) changes t ∧
    (∀ gate, ∃ ending, t.phase gate = .after ending) ∧
    t.shared = outOf (inTurn sampleFormat sampleHost sampleInvocations [true, false]
      (sampleDirectory nullOwner)) := by
  have hasks : ∀ gate ∈ [true, false], ∃ rendering,
      ((sampleDivisions gate).client.before.runAlone Own.new).1 = .ok rendering := by
    intro gate _
    obtain ⟨rendering, hasked⟩ := exists_of_isOk (sampleInvocations_ask gate)
    exact ⟨rendering, (sampleDivisions gate).client_asks hasked⟩
  obtain ⟨changes, t, hsteps, _, horder, hafter, _⟩ :=
    exists_interleaving (show [true, false].Nodup by decide) hasks
  have hended : ∀ gate, ∃ ending, t.phase gate = .after ending :=
    fun gate => hafter gate (by cases gate <;> decide)
  refine ⟨changes, t, hsteps, hended, ?_⟩
  rw [← horder]
  refine ((concurrent_renders hsteps).2.1 rfl).final fun gate p hinside => ?_
  obtain ⟨ending, hending⟩ := hended gate
  cases hending.symm.trans hinside

/-! Two renders of the sample plan that differ in the namespace, where nothing can lock. One of
them writes between the two files of the other. -/

section

variable (c : Circumstances τ) (format : Format τ σ) (host : Host) (plan : MissionPlan)
  (options : ArgoOptions) (prune : Bool)

/-- An ungated render up to its first file: what it wrote or will have written, and the files it
has not written yet. -/
def renderFirst : Run τ (List String × List (String × List Json)) := do
  Session.lift .raised (c.policy plan)
  let planned ← Session.lift .raised (plannedWorkflows host plan options)
  Session.lift .raised (preflightUnique (planned.map Prod.fst))
  preflight format .raised .out fun _ =>
    planned.map fun file => (file.1, some (file.2.map Yaml.ofJson))
  writeAll c format .out (planned.take 1)
  return (planned.map Prod.fst, planned.drop 1)

/-- The other files of an ungated render, and what is stale then. -/
def renderOthers (first : List String × List (String × List Json)) : Run τ (Report τ) := do
  writeAll c format .out first.2
  let stale ← reportStale c format (argoReconciliation host plan) prune first.1
  return ⟨first.1, none, stale⟩

variable {c format host plan options prune}

omit [Scalars σ] in
theorem writeAll_append (place : Place) (xs ys : List (String × List Json)) :
    writeAll c format place (xs ++ ys) =
      writeAll c format place xs >>= fun _ => writeAll c format place ys := by
  induction xs with
  | nil => rfl
  | cons file xs ih =>
    show (_ >>= fun _ => writeAll c format place (xs ++ ys)) =
      (_ >>= fun _ => writeAll c format place xs) >>= _
    rw [ih, bind_assoc]

theorem critical_ungated :
    (Command.renderArgo plan options false prune).critical c format host (do
      let written ← writeIndividualWorkflows c format host .out plan options
      return (written, none)) =
      renderFirst c format host plan options >>= renderOthers c format host plan prune := by
  unfold Command.critical writeIndividualWorkflows renderFirst renderOthers
  simp only [bind_assoc, pure_bind]
  congr 1
  funext _
  congr 1
  funext planned
  congr 1
  funext _
  congr 1
  funext _
  nth_rewrite 1 [← List.take_append_drop 1 planned]
  rw [writeAll_append, bind_assoc]
  rfl

theorem respects_renderFirst :
    Session.Respects (Alike fun _ => True) (renderFirst c format host plan options) := by
  refine (Session.respects_lift _ _).bind fun _ => ?_
  refine (Session.respects_lift _ _).bind fun planned => ?_
  refine (Session.respects_lift _ _).bind fun _ => ?_
  refine (respects_preflight trivial fun _ _ _ => rfl).bind fun _ => ?_
  exact (respects_writeAll .out _).bind fun _ => Session.respects_pure _

theorem respects_renderOthers (first : List String × List (String × List Json)) :
    Session.Respects (Alike fun _ => True) (renderOthers c format host plan prune first) := by
  refine (respects_writeAll .out first.2).bind fun _ => ?_
  exact (respects_reportStale trivial _ _ _).bind fun stale => Session.respects_pure _

end

/-- An ungated render of a plan, in a namespace. -/
def renderIn (c : Circumstances τ) (plan : MissionPlan) (namespaceName : String) : Invocation τ :=
  ⟨.renderArgo plan ⟨false, some namespaceName, none⟩ false false, c⟩

section

variable (format : Format τ σ) (host : Host) (c : Circumstances τ) (plan : MissionPlan)
  (namespaceName : String)

/-- The step of an ungated render up to its first file. -/
noncomputable def firstStep :
    Proc (Out τ × Own τ) (Except Stop (List String × List (String × List Json))) :=
  .atOnce viewOf (renderFirst c format host plan ⟨false, some namespaceName, none⟩)
    (.error .lockUnavailable)

/-- The step of an ungated render from there on. -/
noncomputable def lastStep (first : List String × List (String × List Json)) :
    Proc (Out τ × Own τ) (Ending τ) :=
  .atOnce viewOf (renderOthers c format host plan false first) (.error .lockUnavailable)

theorem firstStep_does : (firstStep format host c plan namespaceName).CarriesOut viewOf
    (renderFirst c format host plan ⟨false, some namespaceName, none⟩) := by
  apply Proc.carriesOut_atOnce
  simp only [viewOf_eq_iff]
  exact respects_renderFirst

theorem lastStep_does (first : List String × List (String × List Json)) :
    (lastStep format host c plan first).CarriesOut viewOf
      (renderOthers c format host plan false first) := by
  apply Proc.carriesOut_atOnce
  simp only [viewOf_eq_iff]
  exact respects_renderOthers first

theorem critical_renderIn {rendering : Run τ (Rendered τ)} {dir : Directory τ}
    (h : ((renderIn c plan namespaceName).command.asks c format host dir).1 = .ok rendering) :
    (renderIn c plan namespaceName).command.critical c format host rendering =
      renderFirst c format host plan ⟨false, some namespaceName, none⟩ >>=
        renderOthers c format host plan false := by
  rw [← Except.ok.inj h]
  exact critical_ungated

/-- An ungated render in two steps. -/
noncomputable def Division.inTwo : Division format host (renderIn c plan namespaceName) where
  before := (Division.coarse _).before
  inside _ := (firstStep format host c plan namespaceName).andThen (lastStep format host c plan)
  before_does := (Division.coarse _).before_does
  inside_does dir rendering hasked := by
    show Proc.CarriesOut viewOf _ ((renderIn c plan namespaceName).command.critical c format host
      rendering)
    rw [critical_renderIn format host c plan namespaceName hasked]
    exact (firstStep_does format host c plan namespaceName).andThen
      (lastStep_does format host c plan)

theorem run_renderIn : (renderIn c plan namespaceName).run format host =
    renderFirst c format host plan ⟨false, some namespaceName, none⟩ >>=
      renderOthers c format host plan false :=
  (Command.run_acquired _).trans critical_ungated

theorem Division.inTwo_before : ∃ rendering,
    (Division.inTwo format host c plan namespaceName).client.before.runAlone Own.new =
      (.ok rendering, Own.new) := by
  obtain ⟨_, hown⟩ := Prod.mk.inj (viewOf_atTurn (⟨∅, 0⟩ : Directory τ))
  have hbefore := (Division.inTwo format host c plan namespaceName).client_before (atTurn ⟨∅, 0⟩)
  rw [hown] at hbefore
  exact ⟨_, hbefore.trans (Prod.ext rfl hown)⟩

end

/-- Two renders where nothing can lock: all of the second falls between the steps of the first. -/
theorem exists_interleaved_between (c : Circumstances τ) (plan : MissionPlan)
    (namespaceName : Bool → String) {dir dir' : Directory τ}
    {first : List String × List (String × List Json)}
    (hfirst : renderFirst c format host plan ⟨false, some (namespaceName false), none⟩
      (atTurn dir) = (.ok first, dir')) :
    ∃ changes t, Interleaved (fun second => Division.inTwo format host c plan
        (namespaceName second)) false dir changes t ∧
      (∀ second, ∃ ending, t.phase second = .after ending) ∧
      t.shared = outOf (renderOthers c format host plan false first (beside dir'
        ((renderIn c plan (namespaceName true)).run format host (atTurn dir')).2)).2 := by
  obtain ⟨k, hk⟩ := Division.inTwo_before format host c plan (namespaceName false)
  obtain ⟨k', hk'⟩ := Division.inTwo_before format host c plan (namespaceName true)
  have hgoes_on : ∀ second rendering, (Division.inTwo format host c plan
      (namespaceName second)).client.unlocked rendering =
        (firstStep format host c plan (namespaceName second)).andThen
          (lastStep format host c plan) := fun _ _ => rfl
  have hwhole : ((firstStep format host c plan (namespaceName true)).andThen
      (lastStep format host c plan)).CarriesOut viewOf
        ((renderIn c plan (namespaceName true)).run format host) := by
    rw [run_renderIn]
    exact (firstStep_does format host c plan _).andThen (lastStep_does format host c plan)
  have hnil : Interleaved (fun second => Division.inTwo format host c plan
    (namespaceName second)) false dir [] _ := .nil
  -- the first render goes on without the lock, and writes its first file
  obtain ⟨_, s₁, steps₁, phase₁, own₁, shared₁, others₁⟩ := hnil.go_on (i := false) rfl hk
  rw [hgoes_on] at phase₁
  have view₁ : (s₁.shared, s₁.own false) = viewOf (atTurn dir) := by
    rw [shared₁, own₁, viewOf_atTurn]
    rfl
  obtain ⟨_, s₂, steps₂, only₂, phase₂, view₂⟩ := steps₁.perform_session phase₁
    (firstStep_does format host c plan _) view₁ hfirst
  -- then comes the whole of the second one
  obtain ⟨shared₂, own₂⟩ := Prod.mk.inj view₂
  have htrue : true ≠ false := Bool.noConfusion
  have own_true : s₂.own true = Own.new := (only₂.own true htrue).trans (others₁ true htrue).2
  obtain ⟨_, s₃, steps₃, phase₃, own₃, shared₃, others₃⟩ := steps₂.go_on
    ((only₂.phase true htrue).trans (others₁ true htrue).1) (own_true ▸ hk')
  rw [hgoes_on] at phase₃
  have view₃ : (s₃.shared, s₃.own true) = viewOf (atTurn dir') := by
    rw [shared₃, own₃, own_true, shared₂, viewOf_atTurn]
  obtain ⟨_, s₄, steps₄, phase₄, shared₄, others₄⟩ :=
    steps₃.finish_session phase₃ hwhole view₃
  -- and then the other files of the first
  have phase_false : s₄.phase false = .inside (lastStep format host c plan first) := by
    rw [(others₄ false htrue.symm).1, (others₃ false htrue.symm).1, phase₂]
  have view₄ : (s₄.shared, s₄.own false) = viewOf (beside dir'
      ((renderIn c plan (namespaceName true)).run format host (atTurn dir')).2) := by
    rw [shared₄, (others₄ false htrue.symm).2, (others₃ false htrue.symm).2, own₂, viewOf_beside]
    rfl
  obtain ⟨_, s₅, steps₅, phase₅, shared₅, others₅⟩ :=
    steps₄.finish_session phase_false (lastStep_does format host c plan first) view₄
  refine ⟨_, s₅, steps₅, fun second => ?_, shared₅⟩
  cases second with
  | false => exact ⟨_, phase₅⟩
  | true => exact ⟨_, (others₅ true htrue).1.trans phase₄⟩

def isInNamespace (namespaceName name : String) (out : Out (List (Yaml Number))) : Bool :=
  match out name with
  | some (.regular (doc :: _)) => ((doc.get "metadata").get "namespace").eqStr namespaceName
  | _ => false

/-- Whether the two files of the sample plan are in different namespaces. -/
def isMixed (out : Out (List (Yaml Number))) : Bool :=
  isInNamespace "b" "m1-detect-2026-03-01t12-00-00z.yaml" out &&
    isInNamespace "a" "m1-detect-2026-03-01t12-00-00z-2.yaml" out

def namespaceOf (second : Bool) : String := if second then "b" else "a"

def twoRenders (second : Bool) : Invocation (List (Yaml Number)) :=
  renderIn sampleCircumstances repeatedPlan (namespaceOf second)

/-- Whether the files are mixed once the second render came between the files of the first. -/
def isMixedAfter : Except Stop (List String × List (String × List Json)) ×
    Directory (List (Yaml Number)) → Bool
  | (.ok first, dir) => isMixed (outOf (renderOthers sampleCircumstances sampleFormat sampleHost
      repeatedPlan false first (beside dir
        ((twoRenders true).run sampleFormat sampleHost (atTurn dir)).2)).2)
  | _ => false

theorem isMixedAfter_first : isMixedAfter (renderFirst sampleCircumstances sampleFormat sampleHost
    repeatedPlan ⟨false, some (namespaceOf false), none⟩ (atTurn ⟨∅, 0⟩)) = true := by
  decide +kernel

theorem not_isMixed_inTurn {order : List Bool} (h : order.Nodup) :
    isMixed (outOf (inTurn sampleFormat sampleHost twoRenders order ⟨∅, 0⟩)) = false := by
  have horders : ∀ order ∈ [[], [false], [true], [false, true], [true, false]],
      isMixed (outOf (inTurn sampleFormat sampleHost twoRenders order ⟨∅, 0⟩)) = false := by
    decide +kernel
  apply horders
  match order, h with
  | [], _ => decide
  | [a], _ => cases a <;> decide
  | [a, b], h => cases a <;> cases b <;> first | decide | exact absurd h (by decide)
  | a :: b :: d :: order, h =>
    simp only [List.nodup_cons, List.mem_cons, not_or] at h
    cases a <;> cases b <;> cases d <;> simp_all

/-- Where nothing can lock, the renders without a gate go on, and the output directory may come to
hold what no order of them gives. -/
theorem unlocked_renders_mix : ∃ changes t,
    Interleaved (fun second => Division.inTwo sampleFormat sampleHost sampleCircumstances
      repeatedPlan (namespaceOf second)) false ⟨∅, 0⟩ changes t ∧
    (∀ second, ∃ ending, t.phase second = .after ending) ∧
    ∀ order : List Bool, order.Nodup →
      t.shared ≠ outOf (inTurn sampleFormat sampleHost twoRenders order ⟨∅, 0⟩) := by
  have hmixed := isMixedAfter_first
  cases hfirst : renderFirst sampleCircumstances sampleFormat sampleHost repeatedPlan
      ⟨false, some (namespaceOf false), none⟩ (atTurn ⟨∅, 0⟩) with
  | mk result dir =>
    rw [hfirst] at hmixed
    cases result with
    | error stop => cases hmixed
    | ok first =>
      obtain ⟨changes, t, hsteps, hended, hshared⟩ := exists_interleaved_between
        sampleCircumstances repeatedPlan namespaceOf hfirst
      refine ⟨changes, t, hsteps, hended, fun order hnodup heq => ?_⟩
      have hnot := not_isMixed_inTurn hnodup
      rw [← heq, hshared] at hnot
      exact Bool.noConfusion (hnot.symm.trans hmixed)

end MissionCompiler.Cli
