import MissionCompiler.Policy.BaselineDecision
import MissionCompiler.Policy.BundleDecision

/-!
# The two engines on every document

Each engine decides `PlanAdmissible` with its own notion of blank, the baseline only where no
class raises. So the engines agree on a document exactly when no step's class raises, and its
identifier is not blank to Python alone while its events are in order.
-/

namespace MissionCompiler.Policy

open Lib

/-- The mission identifier is a string of Python's spaces, one of them an information separator
(U+001C to U+001F), which is no space to Go. -/
def BlankToPythonOnly (plan : Json) : Prop :=
  ∃ s, plan.field "mission_id" = .str s ∧ (∀ c ∈ s.toList, isPySpace c = true) ∧
    ∃ c ∈ s.toList, 0x1C ≤ c.toNat ∧ c.toNat ≤ 0x1F

/-- Python's mission identifier is at least as often blank as Go's. -/
theorem MissionNamed.of_pyBlank {plan : Json} (h : MissionNamed pyBlank plan) :
    MissionNamed Rego.goBlank plan := by
  obtain ⟨hnull, hstr⟩ := h
  refine ⟨hnull, fun s hs => ?_⟩
  by_contra hblank
  rw [Bool.not_eq_false] at hblank
  have hpy := Rego.pyBlank_of_goBlank hblank
  rw [hstr s hs] at hpy
  exact Bool.noConfusion hpy

theorem missionNamed_iff_of_not_blankToPythonOnly {plan : Json} (h : ¬ BlankToPythonOnly plan) :
    MissionNamed pyBlank plan ↔ MissionNamed Rego.goBlank plan := by
  refine ⟨MissionNamed.of_pyBlank, fun ⟨hnull, hstr⟩ => ⟨hnull, fun s hs => ?_⟩⟩
  by_contra hblank
  rw [Bool.not_eq_false] at hblank
  obtain ⟨hspaces, hsep⟩ := Rego.pyBlank_not_goBlank_iff.mp ⟨hblank, hstr s hs⟩
  exact h ⟨s, hs, hspaces, hsep⟩

/-- An identifier blank to Python only names the mission to the bundle alone. -/
theorem BlankToPythonOnly.named {plan : Json} (h : BlankToPythonOnly plan) :
    MissionNamed Rego.goBlank plan ∧ ¬ MissionNamed pyBlank plan := by
  obtain ⟨s, hs, hspaces, hsep⟩ := h
  obtain ⟨hpy, hgo⟩ := Rego.pyBlank_not_goBlank_iff.mpr ⟨hspaces, hsep⟩
  refine ⟨⟨by rw [hs]; simp, fun t ht => ?_⟩, fun ⟨_, hstr⟩ => ?_⟩
  · rw [hs] at ht
    rw [← Json.str.inj ht]
    exact hgo
  · have hnot := hstr s hs
    rw [hpy] at hnot
    exact Bool.noConfusion hnot

/-- The engines decide a document alike: the baseline returns, and its list is empty exactly
when the bundle allows. Here `str` writes every number. CPython's refuses an integer of more than
4300 digits with a `ValueError`, as `json.loads` does, so that no plan which was decoded holds one.
-/
def DecideAlike (str : Json → String) (go : Rego.Printer) (plan : List (String × Json)) : Prop :=
  ∃ vs, Baseline.violations str plan = .ok vs ∧ (vs = [] ↔ Bundle.allow go (.obj plan) = true)

/-- The engines decide a document alike exactly when no step's class is a list or a dict, and
the identifier is not blank to Python alone in a plan whose events are otherwise admissible. -/
theorem decideAlike_iff (str : Json → String) (go : Rego.Printer) (plan : List (String × Json)) :
    DecideAlike str go plan ↔
      ClassesHashable (.obj plan) ∧
        ¬ (BlankToPythonOnly (.obj plan) ∧ EventsAdmissible (.obj plan)) := by
  constructor
  · rintro ⟨vs, hvs, halike⟩
    have hclasses : ClassesHashable (.obj plan) := by
      by_contra hraises
      obtain ⟨e, he⟩ := (Baseline.violations_raises str).mpr hraises
      rw [hvs] at he
      cases he
    refine ⟨hclasses, fun ⟨hblank, hevents⟩ => ?_⟩
    obtain ⟨hgo, hpy⟩ := hblank.named
    have hempty : vs = [] := halike.mpr ((Bundle.allow_iff go).mpr ⟨hgo, hevents⟩)
    rw [hempty, Baseline.violations_eq_nil str hclasses] at hvs
    exact hpy hvs.1
  · rintro ⟨hclasses, hnot⟩
    obtain ⟨vs, hvs⟩ : ∃ vs, Baseline.violations str plan = .ok vs := by
      cases hv : Baseline.violations str plan with
      | ok vs => exact ⟨vs, rfl⟩
      | error e => exact absurd hclasses ((Baseline.violations_raises str).mp ⟨e, hv⟩)
    refine ⟨vs, hvs, ?_⟩
    have hbase : vs = [] ↔ PlanAdmissible pyBlank (.obj plan) := by
      rw [← Baseline.violations_eq_nil str hclasses, hvs]
      simp
    rw [hbase, Bundle.allow_iff]
    by_cases hevents : EventsAdmissible (.obj plan)
    · have hsame := missionNamed_iff_of_not_blankToPythonOnly fun hb => hnot ⟨hb, hevents⟩
      exact and_congr_left' hsame
    · exact ⟨fun h => absurd h.2 hevents, fun h => absurd h.2 hevents⟩

/-- A plan with one acquisition, one service and one step of a given class. -/
def oneStepPlan (missionId : String) (resourceClass : Json) : List (String × Json) :=
  [("mission_id", .str missionId),
    ("events", .arr [.obj [("event_type", .str "acquisition"),
      ("services", .arr [.obj [("service_id", .str "detect"), ("priority", .num (.int 1)),
        ("steps", .arr [.obj [("name", .str "infer"), ("resource_class", resourceClass)]])]])]])]

/-- A step whose class is a list raises in the baseline, and the bundle allows it; an
identifier that is an information separator is denied by the baseline alone. -/
theorem engines_disagree :
    let str : Json → String := fun _ => ""
    let go : Rego.Printer := 
      ⟨fun _ => true, fun _ _ _ => rfl, fun _ => "", fun _ => "", fun _ => ""⟩
    ¬ DecideAlike str go (oneStepPlan "m" (.arr [])) ∧
      ¬ DecideAlike str go (oneStepPlan "\x1c" (.str "cpu")) := by
  intro str go
  constructor
  · have hraises : Baseline.violations str (oneStepPlan "m" (.arr [])) = .error .typeError := rfl
    rintro ⟨vs, hvs, _⟩
    rw [hraises] at hvs
    cases hvs
  · have hallow : Bundle.allow go (.obj (oneStepPlan "\x1c" (.str "cpu"))) = true := by decide
    have hdeny : Baseline.violations str (oneStepPlan "\x1c" (.str "cpu")) ≠ .ok [] := by decide
    rintro ⟨vs, hvs, halike⟩
    rw [halike.mpr hallow] at hvs
    exact hdeny hvs

end MissionCompiler.Policy
