import MissionCompiler.Compile.Intents
import MissionCompiler.Lib.Patterns

/-!
# What an operator may ask for

The checks of values that are copied into a manifest as they stand: names, quantities, priority
classes, and the room annotations may take. The patterns are written as the regular expressions
of the source, and `re.fullmatch` is membership in their language.
-/

namespace MissionCompiler.Render

open Lib RegularExpression

/-! ## Patterns -/

def digits : RegularExpression Char := charClass "0123456789"

/-- `[a-z0-9]([-a-z0-9]*[a-z0-9])?`. -/
def rfc1123LabelRe : RegularExpression Char :=
  charClass lowerAlnum * optional (star (charClass ("-" ++ lowerAlnum)) * charClass lowerAlnum)

/-- `([0-9]+(\.[0-9]*)?|\.[0-9]+)`. -/
def numberRe : RegularExpression Char :=
  digits * star digits * optional (char '.' * star digits) + char '.' * (digits * star digits)

/-- `((Ki|Mi|Gi|Ti|Pi|Ei)|[munkMGTPE]|([eE][+-]?[0-9]{1,4}))?`. -/
def suffixRe : RegularExpression Char :=
  optional (oneOf ["Ki", "Mi", "Gi", "Ti", "Pi", "Ei"] + charClass "munkMGTPE" +
    charClass "eE" * optional (charClass "+-") *
      (digits * optional digits * optional digits * optional digits))

def quantityRe : RegularExpression Char := optional (charClass "+-") * numberRe * suffixRe

/-! ## Checks -/

/-- `_require_k8s_label`. -/
def requireK8sLabel (value : String) : Except Exn String :=
  if !fullmatch rfc1123LabelRe value.toList || value.length > 63 then .error .valueError
  else .ok value

/-- `_require_k8s_subdomain`. -/
def requireK8sSubdomain (value : String) (maxLen : Nat) : Except Exn String :=
  if 0 < value.length && value.length ≤ maxLen &&
      (value.toList.splitOn '.').all (fullmatch rfc1123LabelRe) then .ok value
  else .error .valueError

/-- `_require_quantity`. -/
def requireQuantity (value : String) : Except Exn String :=
  let text := pyStrip value
  if text.isEmpty || !fullmatch quantityRe text.toList then .error .valueError
  else if text.startsWith "-" then .error .valueError
  else .ok text

def maxAnnotationBytes : Nat := 262144

/-- The bytes annotations take in UTF-8, keys and values. -/
def annotationBytes (annotations : List (String × String)) : Nat :=
  (annotations.map fun e => e.1.utf8ByteSize + e.2.utf8ByteSize).sum

/-- `_require_annotations_fit`. -/
def requireAnnotationsFit (annotations : List (String × String)) :
    Except Exn (List (String × String)) :=
  if annotationBytes annotations > maxAnnotationBytes then .error .valueError else .ok annotations

/-! ## Priorities -/

/-- `scale_priority_orchide`. -/
def scalePriorityOrchide (priority : Nat) : Except Exn Nat :=
  if priority > 100 then .error .valueError
  else if priority = 0 then .error .valueError
  else if priority ≥ 76 then .ok 1
  else if priority ≥ 51 then .ok 2
  else if priority ≥ 26 then .ok 3
  else .ok 4

/-- `_PRIORITY_CLASS_TIERS`, with the buckets of `_PRIORITY_CLASS_BUCKETS`. -/
def priorityClassTiers : List (Nat × String × Nat × String) :=
  [(1, "mission-critical", 400, "76-100"), (2, "mission-high", 300, "51-75"),
    (3, "mission-normal", 200, "26-50"), (4, "mission-low", 100, "1-25")]

def orchidePriorityClassPrefix : String := "orbital-"

def priorityClassMappingVersion : String := "v2"

/-- `_priority_class_name`. -/
def priorityClassName (orchidePriority : Nat) (classPrefix : String) : Except Exn String :=
  match priorityClassTiers.lookup orchidePriority with
  | none => .error .keyError
  | some (tier, _) =>
    let name := classPrefix ++ tier
    if name.length > 63 || !fullmatch rfc1123LabelRe name.toList then .error .valueError
    else .ok name

example : requireK8sLabel "orbital-demo" = .ok "orbital-demo" := by decide +kernel

example : requireQuantity " 256Mi" = .ok "256Mi" ∧ requireQuantity "1K" = .error .valueError := by
  decide +kernel

end MissionCompiler.Render
