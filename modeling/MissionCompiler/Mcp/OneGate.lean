import MissionCompiler.Mcp.Server

/-!
# One gate

What the three gating tools answer, stated over the plan they read and what the configured engine
says of it: the two that do work do it exactly for the plans that engine admits, and the third
foretells what they will answer.
-/

namespace MissionCompiler.Mcp

open Lib Schema Names Compile Cli

variable {ρ : Type} (server : Server ρ)

/-! ## What the tools may go on -/

/-- The configured engine admits a plan. -/
def ServerAdmits (s : Surroundings) (plan : MissionPlan) : Prop :=
  server.engine = "baseline" ∧
      Policy.Baseline.violations server.interpreter.str (dumpOf server plan) = .ok [] ∨
    server.engine = "opa" ∧ Policy.Decides server.interpreter.host s.opaAvailable
      (s.opa server.bundle server.decision (dumpOf server plan)) Policy.Admits

/-- The plan a tool read: of the file its path named when it was checked, what stood there when it
was read. -/
def ReadPlan (m : Moments) (path : String) (plan : MissionPlan) : Prop :=
  ∃ place, PlanFile server.toInstallation m.checks.toFiles path place ∧
    loadMissionPlan server.libs (pathText place) (contentAt server m.reads place) = .ok plan

/-- A tool may do its work on a plan: the operator lets callers do without a verdict, and this one
asked to, or the plan is admitted. -/
def MayWork (m : Moments) (unsafeSkipPolicy : Bool) (plan : MissionPlan) : Prop :=
  unsafeSkipPolicy = true ∧ m.asks.allowBypass = some "1" ∨ ServerAdmits server m.judges plan

variable {server} {m : Moments} {s : Surroundings} {path : String} {plan : MissionPlan}

theorem mapError_eq_ok {ε ε' α : Type} {x : Except ε α} {f : ε → ε'} {a : α} :
    x.mapError f = .ok a ↔ x = .ok a := by
  cases x <;> simp [Except.mapError]

theorem loadPlan_eq_ok : loadPlan server m path = .ok plan ↔ ReadPlan server m path plan := by
  rw [loadPlan, bind_eq_ok]
  simp only [checkPath, readPlan, mapError_eq_ok, validatePlanPath_iff, ReadPlan]

theorem evaluateOn_baseline {available : Bool} {run : Policy.OpaRun}
    {dump : List (String × Json)} : evaluateOn server "baseline" available run dump = .ok [] ↔
      Policy.Baseline.violations server.interpreter.str dump = .ok [] := by
  show (Policy.python _ >>= _) = _ ↔ _
  cases hfound : Policy.Baseline.violations server.interpreter.str dump with
  | error e =>
    have hpython : Policy.python (Policy.Baseline.violations server.interpreter.host.str dump) =
        .error (.raised e) := by
      show Policy.python (Policy.Baseline.violations server.interpreter.str dump) = _
      rw [hfound]
      rfl
    rw [hpython]
    exact iff_of_false (fun h => by cases h) (fun h => by cases h)
  | ok found =>
    have hpython : Policy.python (Policy.Baseline.violations server.interpreter.host.str dump) =
        .ok found := by
      show Policy.python (Policy.Baseline.violations server.interpreter.str dump) = _
      rw [hfound]
      rfl
    rw [hpython]
    show Except.ok (found.map Policy.Violation.toJson) = _ ↔ _
    simp

/-- With the engine `opa` the verdict is the violations of a decision that can be trusted. -/
theorem evaluateOn_opa {available : Bool} {run : Policy.OpaRun} {dump : List (String × Json)}
    {vs : List Json} : evaluateOn server "opa" available run dump = .ok vs ↔
      Policy.Decides server.interpreter.host available run fun value =>
        Policy.Trusted value vs := by
  rw [evaluateOn]
  split
  · next hoverrun =>
    simp only [Bool.and_eq_true, beq_iff_eq] at hoverrun
    refine iff_of_false (fun h => by cases h) ?_
    rintro ⟨-, -, value, ⟨document, hloads, -⟩, -⟩
    have hover := hoverrun.2
    rw [Policy.Interpreter.overruns] at hover
    have hloads : (server.interpreter.loads (Policy.evalPolicy run).2).toOption = some document :=
      hloads
    cases hresult : server.interpreter.loads (Policy.evalPolicy run).2 with
    | ok document =>
      rw [hresult] at hover
      cases hover
    | error e =>
      rw [hresult] at hloads
      cases hloads
  · rcases Policy.evaluatePolicyDecision_opa_failsClosed server.interpreter.host available run dump
      with ⟨found, hfound, honly⟩ | ⟨⟨message, hm⟩, hnone⟩
    · rw [hfound]
      exact ⟨fun h => (honly vs).mpr (Except.ok.inj h).symm, fun h => by rw [(honly vs).mp h]⟩
    · rw [hm]
      exact iff_of_false (fun h => by cases h) (hnone vs)

/-- The verdict admits a plan exactly where the configured engine does. An engine of another name
never does. -/
theorem serverPolicyViolations_admits :
    serverPolicyViolations server s plan = .ok [] ↔ ServerAdmits server s plan := by
  rw [serverPolicyViolations, ServerAdmits]
  by_cases hbaseline : server.engine = "baseline"
  · rw [if_neg (by simp [hbaseline]), hbaseline, evaluateOn_baseline]
    simp
  · by_cases hopa : server.engine = "opa"
    · rw [if_neg (by simp [hopa]), hopa, evaluateOn_opa]
      simp [Policy.Decides, Policy.admits_iff_trusted]
    · rw [if_pos (by simp [hbaseline, hopa])]
      refine iff_of_false (fun h => by cases h) ?_
      simp [hbaseline, hopa]

/-! ## Work -/

/-- A reply that holds no work. -/
def Reply.refuses : Reply → Bool
  | .undecidable _ _ | .denied _ _ => true
  | _ => false

/-- The gate lets through what may be worked on, and answers for the rest itself. -/
theorem gated_eq_ok {unsafeSkipPolicy : Bool} {missionId : Option String}
    {work : Except ToolError Reply} {reply : Reply} (hreply : reply.refuses = false) :
    gated server m unsafeSkipPolicy plan missionId work = .ok reply ↔
      MayWork server m unsafeSkipPolicy plan ∧ work = .ok reply := by
  rw [gated, MayWork, ← serverPolicyViolations_admits]
  by_cases hbypass : unsafeSkipPolicy = true ∧ m.asks.allowBypass = some "1"
  · have hasked : bypassRequested m.asks unsafeSkipPolicy = true := by
      simp [bypassRequested, hbypass]
    rw [hasked]
    simp [hbypass]
  · have hasked : bypassRequested m.asks unsafeSkipPolicy = false := by
      rw [Bool.eq_false_iff]
      intro hasked
      exact hbypass (by simpa [bypassRequested] using hasked)
    rw [hasked, or_iff_right hbypass]
    show goByVerdict missionId work (serverPolicyViolations server m.judges plan) = _ ↔ _
    cases hverdict : serverPolicyViolations server m.judges plan with
    | error e =>
      refine iff_of_false (fun h => ?_) (fun h => by cases h.1)
      cases e with
      | policyEngineUnavailable message =>
        rw [← Except.ok.inj h] at hreply
        cases hreply
      | policyViolation e => cases h
      | raised e => cases h
    | ok violations =>
      cases violations with
      | nil => exact ⟨fun h => ⟨rfl, h⟩, fun h => h.2⟩
      | cons v violations =>
        refine iff_of_false (fun h => ?_) (fun h => by cases h.1)
        have h : Except.ok (Reply.denied missionId (v :: violations)) = .ok reply := h
        rw [← Except.ok.inj h] at hreply
        cases hreply

/-- A compilation has an intent for each service of each acquisition. -/
def compiledReport (plan : MissionPlan) : Compiled :=
  ⟨plan.missionId, (pairs plan).length, (pairs plan).map fun p => p.2.serviceId⟩

theorem compileWork_eq (plan : MissionPlan) :
    compileWork server plan = .ok (.compiled (compiledReport plan)) := by
  have hpairs := @compiledFrom_pairs server.render.sha plan [] (pairs plan)
  have hservices : (compiledFrom server.render.sha plan [] (pairs plan)).map
      WorkflowIntent.serviceId = (pairs plan).map fun p => p.2.serviceId :=
    map_eq_map_of_forall₂ (hpairs.imp fun p intent h => by rw [h]; rfl)
  rw [compileWork, compilePlanToIntents_eq]
  show Except.ok (Reply.compiled ⟨_, _, _⟩) = _
  rw [compiledReport, hpairs.length_eq, hservices]

theorem renderWork_eq_ok {reply : Reply} : renderWork server plan = .ok reply ↔
    ∃ planned, Render.plannedWorkflows server.render plan ⟨false, none, none⟩ = .ok planned ∧
      (planned.map Prod.fst).Nodup ∧
        reply = .rendered (planned.map fun file => (file.1, manifestText server file.2)) := by
  rw [renderWork, bind_eq_ok]
  simp only [mapError_eq_ok]
  refine exists_congr fun planned => and_congr_right fun _ => ?_
  rw [bind_eq_ok]
  simp only [mapError_eq_ok]
  constructor
  · rintro ⟨_, hunique, hreply⟩
    exact ⟨nodup_of_preflightUnique hunique, (Except.ok.inj hreply).symm⟩
  · rintro ⟨hnodup, rfl⟩
    exact ⟨(), preflightUnique_of_nodup hnodup, rfl⟩

/-- Whatever changes around the server while a tool runs, and whatever its caller asks for, the
tools that do work do it exactly on a plan they read once, of a file below the plan directory, that
they may work on. -/
structure OneGate (server : Server ρ) : Prop where
  compiled : ∀ m path unsafeSkipPolicy report,
    compilePlan server m path unsafeSkipPolicy = .ok (.compiled report) ↔
      ∃ plan, ReadPlan server m path plan ∧ MayWork server m unsafeSkipPolicy plan ∧
        report = compiledReport plan
  rendered : ∀ m path unsafeSkipPolicy manifests,
    renderArgo server m path unsafeSkipPolicy = .ok (.rendered manifests) ↔
      ∃ plan planned, ReadPlan server m path plan ∧ MayWork server m unsafeSkipPolicy plan ∧
        Render.plannedWorkflows server.render plan ⟨false, none, none⟩ = .ok planned ∧
          (planned.map Prod.fst).Nodup ∧
            manifests = planned.map fun file => (file.1, manifestText server file.2)

theorem one_gate (server : Server ρ) : OneGate server where
  compiled m path unsafeSkipPolicy report := by
    rw [compilePlan, bind_eq_ok]
    refine exists_congr fun plan => ?_
    rw [loadPlan_eq_ok, gated_eq_ok rfl, compileWork_eq, Except.ok.injEq, Reply.compiled.injEq]
    exact and_congr_right' (and_congr_right' eq_comm)
  rendered m path unsafeSkipPolicy manifests := by
    rw [renderArgo, bind_eq_ok]
    refine exists_congr fun plan => ?_
    rw [loadPlan_eq_ok, gated_eq_ok rfl, renderWork_eq_ok]
    simp only [Reply.rendered.injEq, exists_and_left]

/-! ## One verdict -/

/-- Replies of `validate_plan`, `compile_plan` and `render_argo` that say the same of a plan: the
tool that only reports reports what the others go by. -/
inductive AnswersAlike (server : Server ρ) (s : Surroundings) (path : String) :
    Except ToolError Reply → Except ToolError Reply → Except ToolError Reply → Prop
  | failed (e : ToolError) : AnswersAlike server s path (.error e) (.error e) (.error e)
  | undecidable (plan : MissionPlan) (message : String) : AnswersAlike server s path
      (.ok (.undecidable message (some plan.missionId)))
      (.ok (.undecidable message (some plan.missionId))) (.ok (.undecidable message none))
  | denied (plan : MissionPlan) (violations : List Json) (some_violation : violations ≠ []) :
      AnswersAlike server s path
        (.ok (.validated ⟨plan.missionId, plan.events.length, false, violations, "policy_denied"⟩))
        (.ok (.denied (some plan.missionId) violations)) (.ok (.denied none violations))
  | allowed (plan : MissionPlan) (read : ReadPlan server (still s) path plan)
      (admitted : ServerAdmits server s plan) : AnswersAlike server s path
        (.ok (.validated ⟨plan.missionId, plan.events.length, true, [], "validated"⟩))
        (.ok (.compiled (compiledReport plan))) (renderWork server plan)

/-- Where nothing changes in between, and no bypass is both asked for and enabled, the three tools
say the same of every plan. -/
theorem tools_answer_alike {unsafeSkipPolicy : Bool}
    (hbypass : bypassRequested s unsafeSkipPolicy = false) :
    AnswersAlike server s path (validatePlan server (still s) path)
      (compilePlan server (still s) path unsafeSkipPolicy)
      (renderArgo server (still s) path unsafeSkipPolicy) := by
  have hasked : bypassRequested (still s).asks unsafeSkipPolicy = false := hbypass
  rw [validatePlan, compilePlan, renderArgo]
  cases hload : loadPlan server (still s) path with
  | error e => exact .failed e
  | ok plan =>
    have hgated : ∀ missionId work, gated server (still s) unsafeSkipPolicy plan missionId work =
        goByVerdict missionId work (serverPolicyViolations server s plan) := by
      intro missionId work
      rw [gated, hasked]
      rfl
    show AnswersAlike server s path (reportVerdict plan (serverPolicyViolations server s plan))
      (gated server (still s) unsafeSkipPolicy plan _ _)
      (gated server (still s) unsafeSkipPolicy plan _ _)
    rw [hgated, hgated]
    cases hverdict : serverPolicyViolations server s plan with
    | error e =>
      cases e with
      | policyEngineUnavailable message => exact .undecidable plan message
      | policyViolation e => exact .failed (.gate (.policyViolation e))
      | raised e => exact .failed (.gate (.raised e))
    | ok violations =>
      cases violations with
      | nil =>
        rw [compileWork_eq]
        exact .allowed plan (loadPlan_eq_ok.mp hload) (serverPolicyViolations_admits.mp hverdict)
      | cons v violations => exact .denied plan (v :: violations) (List.cons_ne_nil v violations)

/-! ## Plans that were validated -/

/-- A plan whose workflows fit: their names do not collide, and their annotations are within the
limit. -/
structure Fits (host : Render.Host) (plan : MissionPlan) : Prop where
  count : (pairs plan).length < 10 ^ 7
  names : NoCollision host.sha plan
  annotations : ∀ intent ∈ compiledFrom host.sha plan [] (pairs plan),
    ∀ orchidePriority ∈ (Render.scalePriorityOrchide intent.priority).toOption,
      ∀ mode ∈ (Render.executionMode intent).toOption,
        Render.annotationBytes (Render.workflowAnnotations host intent orchidePriority mode) ≤
          Render.maxAnnotationBytes

/-- The window shows typed violations exactly where the output holds a decision that can be
trusted. -/
theorem readWindow_typed {out : String} {vs : List Json} :
    readWindow server out = .ok (.typed vs) ↔
      ∃ value, Policy.Decided server.interpreter.host out value ∧ Policy.Trusted value vs := by
  rw [readWindow]
  cases hloads : server.interpreter.loads out with
  | error e =>
    have hhost : server.interpreter.host.loads out = none := by
      show (server.interpreter.loads out).toOption = none
      rw [hloads]
      rfl
    refine iff_of_false (fun h => ?_) ?_
    · cases e <;> cases h
    · rintro ⟨value, ⟨document, hdocument, -⟩, -⟩
      rw [hhost] at hdocument
      cases hdocument
  | ok document =>
    have hhost : server.interpreter.host.loads out = some document := by
      show (server.interpreter.loads out).toOption = some document
      rw [hloads]
      rfl
    have hdecided : ∀ value, Policy.Decided server.interpreter.host out value ↔
        Policy.decisionValue document = .ok value := by
      intro value
      rw [Policy.decisionValue_eq_ok, Policy.Decided, hhost]
      simp
    simp only [hdecided]
    show windowOf server document = _ ↔ _
    rw [windowOf]
    cases hvalue : Policy.decisionValue document with
    | error e =>
      refine iff_of_false (fun h => ?_) (fun ⟨_, h, _⟩ => by cases h)
      have h : (if e ∈ [Exn.valueError, .keyError, .indexError, .typeError] then
        .ok .unread else .error (ToolError.raised e)) = Except.ok (Window.typed vs) := h
      split at h
      · cases h
      · cases h
    | ok value =>
      rcases Policy.typedViolationsFromDecision_failsClosed server.interpreter.repr value with
        ⟨typed, htyped, honly⟩ | ⟨⟨message, hm⟩, hnone⟩
      · simp only [htyped, Except.ok.injEq, Window.typed.injEq, exists_eq_left']
        exact ⟨fun h => h ▸ (honly typed).mpr rfl, fun h => ((honly vs).mp h).symm⟩
      · simp only [hm, Except.ok.injEq, exists_eq_left']
        exact iff_of_false (fun h => by cases h) (hnone vs)

/-- The process of a call of `explain_policy`. -/
def explainRun (server : Server ρ) (m : Moments) (safeBundle : List String) (decision : String)
    (plan : MissionPlan) : Policy.OpaRun :=
  m.judges.opa (pathText safeBundle) decision (dumpOf server plan)

/-- Beside an exit code of zero, `explain_policy` shows the violations that the gate goes by with
the engine `opa` and the same process. -/
theorem explained_typed {bundle decision raw : String} {code : Int} {vs : List Json} :
    (explainPolicy server m path bundle decision = .ok (.explained ⟨code, raw, .typed vs⟩) ∧
        code = 0) ↔
      ∃ plan safeBundle, ReadPlan server m path plan ∧
        validateBundlePath server.toInstallation m.checks.toFiles bundle = .ok safeBundle ∧
          Policy.evalPolicy (explainRun server m safeBundle decision plan) = (code, raw) ∧
            evaluateOn server "opa" m.asks.opaAvailable
              (explainRun server m safeBundle decision plan) (dumpOf server plan) = .ok vs := by
  have hgate : ∀ run dump, (evaluateOn server "opa" m.asks.opaAvailable run dump = .ok vs ↔
      m.asks.opaAvailable = true ∧ (Policy.evalPolicy run).1 = 0 ∧
        readWindow server (Policy.evalPolicy run).2 = .ok (.typed vs)) := by
    intro run dump
    rw [evaluateOn_opa, readWindow_typed]
    rfl
  simp only [hgate]
  constructor
  · rintro ⟨h, rfl⟩
    rw [explainPolicy] at h
    obtain ⟨place, hplace, h⟩ := bind_eq_ok.mp h
    obtain ⟨safeBundle, hbundle, h⟩ := bind_eq_ok.mp h
    obtain ⟨plan, hplan, h⟩ := bind_eq_ok.mp h
    split at h
    · cases h
    · next havailable =>
      obtain ⟨window, hwindow, h⟩ := bind_eq_ok.mp h
      have hsame := Explanation.mk.inj (Reply.explained.inj (Except.ok.inj h))
      obtain ⟨hcode, hraw, rfl⟩ := hsame
      have hread : ReadPlan server m path plan :=
        loadPlan_eq_ok.mp (bind_eq_ok.mpr ⟨place, hplace, hplan⟩)
      refine ⟨plan, safeBundle, hread, mapError_eq_ok.mp hbundle, Prod.ext hcode hraw, ?_, hcode,
        hwindow⟩
      simpa using havailable
  · rintro ⟨plan, safeBundle, hread, hbundle, hrun, havailable, hzero, hwindow⟩
    obtain ⟨place, hplace, hplan⟩ := bind_eq_ok.mp (loadPlan_eq_ok.mpr hread)
    have hcode : code = 0 := by rw [← hzero, hrun]
    refine ⟨?_, hcode⟩
    rw [explainPolicy, bind_eq_ok]
    refine ⟨place, hplace, bind_eq_ok.mpr ⟨safeBundle, mapError_eq_ok.mpr hbundle, ?_⟩⟩
    refine bind_eq_ok.mpr ⟨plan, hplan, ?_⟩
    rw [if_neg (by simp [havailable])]
    refine bind_eq_ok.mpr ⟨.typed vs, hwindow, ?_⟩
    show Except.ok (Reply.explained ⟨(Policy.evalPolicy (explainRun _ _ _ _ _)).1,
      (Policy.evalPolicy (explainRun _ _ _ _ _)).2, _⟩) = _
    rw [hrun]

/-- Beside an exit code of zero, what `explain_policy` calls denied or not denied is what the gate
denies or admits, with the engine `opa` and the same process; and where that gate has no verdict,
the tool calls it neither. -/
theorem explanation_agrees (server : Server ρ) (m : Moments) (path bundle decision raw : String)
    (denied : Bool) :
    (∃ window, explainPolicy server m path bundle decision = .ok (.explained ⟨0, raw, window⟩) ∧
        window.denied = some (some denied)) ↔
      ∃ plan safeBundle violations, ReadPlan server m path plan ∧
        validateBundlePath server.toInstallation m.checks.toFiles bundle = .ok safeBundle ∧
          Policy.evalPolicy (explainRun server m safeBundle decision plan) = (0, raw) ∧
            evaluateOn server "opa" m.asks.opaAvailable
                (explainRun server m safeBundle decision plan) (dumpOf server plan) =
              .ok violations ∧ denied = !violations.isEmpty := by
  constructor
  · rintro ⟨window, hexplained, hdenied⟩
    cases window with
    | unread => cases hdenied
    | untrusted error => cases hdenied
    | typed violations =>
      obtain ⟨plan, safeBundle, hread, hbundle, hrun, hgate⟩ := explained_typed.mp ⟨hexplained, rfl⟩
      have hdenied := Option.some.inj (Option.some.inj hdenied)
      exact ⟨plan, safeBundle, violations, hread, hbundle, hrun, hgate, hdenied.symm⟩
  · rintro ⟨plan, safeBundle, violations, hread, hbundle, hrun, hgate, rfl⟩
    have hexplained := (explained_typed.mpr ⟨plan, safeBundle, hread, hbundle, hrun, hgate⟩).1
    exact ⟨.typed violations, hexplained, rfl⟩

/-! A server with one plan in its directory, judged by the baseline engine. -/

def sampleServer : Server Unit where
  repoRoot := ["srv"]
  allowedBundles := ["srv", "configs", "policies"]
  fuel := 16
  engine := "baseline"
  bundle := "configs/policies"
  decision := "data.orbitalmission"
  libs := ⟨fun _ => .ok "", fun _ => .ok (), fun _ => .ok repeatedPlan⟩
  interpreter := Policy.plainInterpreter
  render := Render.plainHost
  safeDumpAll _ := ""
  isoformat _ := ""

def sampleSurroundings : Surroundings where
  tree place :=
    if place = ["srv", "configs", "mission_plans", "m1.yaml"] then some (.file (.content []))
    else none
  workingDirectory := []
  planRootVariable := none
  missing _ := ""
  allowBypass := none
  opaAvailable := false
  opa _ _ _ := .notFound

/-- A caller that asks for a bypass gets none from an operator who did not enable it. -/
theorem sampleServer_answers_alike : AnswersAlike sampleServer sampleSurroundings "m1.yaml"
    (validatePlan sampleServer (still sampleSurroundings) "m1.yaml")
    (compilePlan sampleServer (still sampleSurroundings) "m1.yaml" true)
    (renderArgo sampleServer (still sampleSurroundings) "m1.yaml" true) :=
  tools_answer_alike rfl

end MissionCompiler.Mcp
