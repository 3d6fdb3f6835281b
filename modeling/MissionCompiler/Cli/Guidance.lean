import Mathlib.Data.List.ReduceOption
import MissionCompiler.Lib.Yaml
import MissionCompiler.Render.Meaning
import MissionCompiler.Render.Stamps

/-!
# What a Kueue render says of itself

The end of `cmd_render_kueue`, with `kueue_step_projection`: which files are to be created and
which applied, and which steps no job runs. `Guides` is what an operator may take from it: the
verbs fit the documents, and of each service the report names the steps its job leaves out.
-/

namespace MissionCompiler.Cli

open Lib Schema Names Compile Render

variable {σ : Type} [Scalars σ]

/-! ## Verbs -/

/-- The test of a document in `named`. -/
def documentNamed (doc : Yaml σ) : Except Exn Bool :=
  if doc.isDict then do
    let name ← (doc.get "metadata").orEmpty.getAttr "name"
    return name.truthy
  else .ok false

/-- `all(…)` of the documents, which the first without a name ends. -/
def allNamed : List (Yaml σ) → Except Exn Bool
  | [] => .ok true
  | doc :: docs => do
    let here ← documentNamed doc
    if here then allNamed docs else return false

/-- `named`: the file holds documents, and each has a name. -/
def named (loaded : List (Yaml σ)) : Except Exn Bool :=
  let docs := loaded.filter Yaml.truthy
  if docs.isEmpty then .ok false else allNamed docs

def docGenerateName (doc : Json) : Json := (doc.field "metadata").field "generateName"

variable {intent : WorkflowIntent} {primary : WorkflowStep} {position : Nat}

/-- How a cluster is to name what a document describes: by its name, or for a job by the
beginning of one. -/
structure NamedAs (doc : Json) : Prop where
  metadata : ∃ first rest, doc.get? "metadata" = some (.obj (first :: rest))
  named : hasKind "Job" doc = false → ∃ name, name ≠ "" ∧ docName doc = .str name
  generated : hasKind "Job" doc = true →
    docName doc = .null ∧ ∃ name, name ≠ "" ∧ docGenerateName doc = .str name

theorem claimName_ne_empty (sha : Sha256) (name : String) {device : String}
    (h : device ∈ devices) : claimName sha name device ≠ "" := by
  have hwords : wordsOf (claimText name device) ≠ [] := by
    rw [wordsOf_claimText name h]
    simp
  obtain ⟨ws, hws, _, heq, _⟩ := cutName_form sha hwords (n := 62) (by omega) (by omega)
  rw [claimName, heq]
  intro hempty
  exact dashed_ne_nil hws.isWord hws.ne_nil (String.ofList_eq_empty_iff.mp hempty)

variable (host : Host)

theorem claimTemplate_named {name : String} (hname : name ≠ "")
    (namespaceName route renderer role missionId : String)
    (annotations : List (String × String)) (request : List (String × Json)) :
    NamedAs (claimTemplate host name namespaceName route renderer role missionId annotations
      request) where
  metadata := ⟨_, _, rfl⟩
  named := fun _ => ⟨name, hname, rfl⟩
  generated := fun hkind => Bool.noConfusion hkind

theorem templates_named {intent : WorkflowIntent} {ns : String} {draFallback : Bool}
    {templates : List Json}
    (h : renderResourceClaimTemplates host intent ns draFallback = .ok templates) :
    ∀ doc ∈ templates, hasKind "Job" doc = false ∧ NamedAs doc := by
  obtain ⟨scheduler, kueue, rfl, hscheduler, hkueue⟩ := renderResourceClaimTemplates_eq_ok host h
  intro doc hdoc
  rcases List.mem_append.mp hdoc with hdoc | hdoc
  · obtain ⟨annotations, alternatives, rfl⟩ := hscheduler doc hdoc
    exact ⟨rfl, claimTemplate_named host (claimName_ne_empty _ _ (by decide)) _ _ _ _ _ _ _⟩
  · split at hkueue
    · obtain ⟨rct, rfl, hrct⟩ := hkueue
      obtain ⟨annotations, request, heq⟩ := exactlyRct_eq_ok host hrct
      rw [List.mem_singleton.mp hdoc, heq]
      exact ⟨rfl, claimTemplate_named host (claimName_ne_empty _ _ (by decide)) _ _ _ _ _ _ _⟩
    · rw [hkueue] at hdoc
      exact absurd hdoc List.not_mem_nil

/-! ## Files -/

end MissionCompiler.Cli
