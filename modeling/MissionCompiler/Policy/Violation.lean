/-!
# Policy violations

The vocabulary both policy engines report in: the ten numbered rules, the severity tier and
provenance of each, and one record per offending node.
-/

namespace MissionCompiler.Policy

/-- The numbered rules of the policy table. The structural guards have no number. -/
inductive Rule where
  | rule1 | rule2 | rule3 | rule4 | rule5 | rule6 | rule7 | rule8 | rule9 | rule10
deriving DecidableEq, Repr

def Rule.number : Rule → Nat
  | .rule1 => 1
  | .rule2 => 2
  | .rule3 => 3
  | .rule4 => 4
  | .rule5 => 5
  | .rule6 => 6
  | .rule7 => 7
  | .rule8 => 8
  | .rule9 => 9
  | .rule10 => 10

inductive Severity where
  | T1 | T2 | T3 | T4
deriving DecidableEq, Repr

/-- Who a rule comes from: the authors (A) or the ORCHIDE description (D). -/
inductive Provenance where
  | A | D
deriving DecidableEq, Repr

/-- One occurrence-level violation, at the JSON pointer of the node it is about. -/
structure Violation where
  rule : Option Rule
  ruleId : String
  severity : Severity
  provenance : Provenance
  path : String
  message : String
deriving DecidableEq

/-- Everything a violation says but its wording. -/
def Violation.key (v : Violation) : Option Rule × String × Severity × Provenance × String :=
  (v.rule, v.ruleId, v.severity, v.provenance, v.path)

/-- A number printed with at least three digits: `{rule:03d}` and `%03d`. -/
def threeDigits (n : Nat) : String :=
  String.ofList (List.replicate (3 - (toString n).length) '0') ++ toString n

end MissionCompiler.Policy
