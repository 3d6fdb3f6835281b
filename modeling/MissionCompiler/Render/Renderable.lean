import MissionCompiler.Render.Dag
import MissionCompiler.Render.Grammar
import MissionCompiler.Render.Stamps

/-!
# What is admitted can be rendered

A renderer raises where an intent has no step, a priority of zero, a mode it does not know or a
class without a driver, and where an operator's value is no name. Of an admitted plan none of
these is left: the schema, the policy and the compiler each exclude their part of them, and the
one refusal that remains is that of annotations over the limit.
-/

namespace MissionCompiler.Render

open Lib Schema Names Compile

/-! ## Results -/

/-- A render succeeds, or is refused for the size of its annotations. -/
def RendersWithin {α : Type} (annotations : List (String × String)) (result : Except Exn α) :
    Prop :=
  (∃ value, result = .ok value) ∨
    result = .error .valueError ∧ maxAnnotationBytes < annotationBytes annotations

theorem RendersWithin.of_ok {α : Type} {annotations : List (String × String)}
    {result : Except Exn α} (h : ∃ value, result = .ok value) : RendersWithin annotations result :=
  .inl h

theorem RendersWithin.bind {α β : Type} {annotations : List (String × String)}
    {first : Except Exn α} {next : α → Except Exn β} (h : RendersWithin annotations first)
    (hnext : ∀ a, first = .ok a → RendersWithin annotations (next a)) :
    RendersWithin annotations (first >>= next) := by
  rcases h with ⟨a, ha⟩ | ⟨herror, hsize⟩
  · have hrest := hnext a ha
    rw [ha]
    exact hrest
  · exact .inr ⟨bind_eq_error.mpr (.inl herror), hsize⟩

variable (host : Host)

/-- The annotations of a workflow. -/
def workflowAnnotations (intent : WorkflowIntent) (orchidePriority : Nat) (mode : String) :
    List (String × String) :=
  [("orbital/priority", toString intent.priority),
    ("orbital/orchide-priority", toString orchidePriority), ("orbital/execution-mode", mode),
    ("orbital/requires-gpu", hintText host intent "requires_gpu"),
    ("orbital/requires-fpga", hintText host intent "requires_fpga"),
    ("orbital/fallback-enabled", hintText host intent "fallback_enabled")] ++
      missionAnnotations intent.missionId

/-- A priority of zero is refused by the policy, and one over a hundred by the schema. -/
theorem Admitted.priority {str : Json → String} {go : Rego.Printer}
    {isoformat : Timestamp → String} {plan : MissionPlan} (h : Admitted str go isoformat plan)
    {p : MissionEvent × AIService} (hp : p ∈ pairs plan) : p.2.priority ≠ 0 := by
  obtain ⟨event, hevent, hp⟩ := List.mem_flatMap.mp hp
  obtain ⟨service, hservice, rfl⟩ := List.mem_map.mp hp
  have hadmissible := (h.service (List.mem_of_mem_filter hevent) hservice).priority
  intro hzero
  have hfield : service.dump.field "priority" = .num (.int 0) := by
    show Json.num (.int service.priority) = _
    rw [hzero]
    rfl
  rw [hfield] at hadmissible
  cases hadmissible

end MissionCompiler.Render
