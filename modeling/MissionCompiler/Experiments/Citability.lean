import MissionCompiler.Lib.Dashed
import MissionCompiler.Lib.Lines

/-!
# Transcripts that can be cited

`_field` and `citability_problems`: what the runner reads of the provenance lines of a transcript,
and what stops the transcript from being evidence. A transcript without problems has one line for
each label, and the line says what the runner found out itself.
-/

namespace MissionCompiler.Experiments

open Lib

/-! ## The code -/

/-- `[^\S\n]`. -/
def isBlank (c : Char) : Bool := isPySpace c && c != '\n'

/-- The pattern of `_field` on one line: blanks around the label and around the value, which ends
where only blanks are left. -/
def fieldOfLine (label line : List Char) : Option (List Char) :=
  let rest := line.dropWhile isBlank
  if label.isPrefixOf rest then
    match (rest.drop label.length).dropWhile isBlank with
    | ':' :: value => some (stripChars isBlank value)
    | _ => none
  else none

/-- `_field`: the one value that is found, if there is one. -/
def field (transcript label : String) : Option String :=
  match (transcript.toList.splitOn '\n').filterMap (fieldOfLine label.toList) with
  | [value] => some (String.ofList value)
  | _ => none

/-- What the runner knows of an experiment beside its process. The pattern that a transcript has to
match somewhere is the test it stands for. -/
structure Experiment where
  name : String
  script : String
  inputs : List String
  timeout : Nat
  resultPath : Option String
  environmentMarker : String → Bool
  environmentDescription : String

/-- The first twelve characters. -/
def short (text : String) : String := String.ofList (text.toList.take 12)

/-- A line that is missing, or that says something wrong. -/
def lineProblems (claimed : Option String) (missing : String) (wrong : String → Option String) :
    List String :=
  match claimed with
  | none => [missing]
  | some claimed => (wrong claimed).toList

variable (repo : String) (repr : String → String)

def commitProblems (transcript head : String) : List String :=
  lineProblems (field transcript "compiler commit") "has no 'compiler commit' line" fun claimed =>
    if claimed ≠ head then some ("names commit " ++
      (if short claimed = "" then "(empty)" else short claimed) ++ ", but the run was at " ++
        short head)
    else none

def treeProblems (transcript : String) : List String :=
  lineProblems (field transcript "working tree") "has no 'working tree' line" fun claimed =>
    if claimed ≠ "clean" then some ("reports the working tree as " ++ repr claimed) else none

def harnessProblems (transcript digest : String) : List String :=
  lineProblems (field transcript "harness sha256") "has no 'harness sha256' line" fun claimed =>
    if claimed ≠ digest then some ("the harness on disk does not match the one the transcript " ++
      "names, so the script was edited while it ran")
    else none

def inputProblems (transcript : String) (exp : Experiment) (inputsSha : Option String) :
    List String :=
  if exp.inputs.isEmpty then []
  else match inputsSha with
    | none => ["declares harness inputs, but none of the patterns matched a file (" ++
        ", ".intercalate exp.inputs ++ ")"]
    | some sha => lineProblems (field transcript "inputs sha256")
        ("has no 'inputs sha256' line, so the templates it applied are outside its provenance")
        fun claimed =>
          if claimed ≠ sha then some ("the harness inputs on disk do not match the ones the " ++
            "transcript names, so a template was edited while it ran")
          else none

def moduleProblems (transcript : String) : List String :=
  lineProblems (field transcript "compiler module")
    "has no 'compiler module' line, so it does not say which copy ran" fun module =>
      if (repo ++ "/").toList.isPrefixOf module.toList then none
      else some ("ran a compiler from " ++ module ++ ", which is not in this repository -- the " ++
        "commit it names describes a different tree")

/-- `citability_problems`. -/
def citabilityProblems (transcript : String) (exp : Experiment) (head digest : String)
    (cleanAfter : Bool) (inputsSha : Option String) : List String :=
  commitProblems transcript head ++ treeProblems repr transcript ++
    (if !cleanAfter then ["the worktree was modified while the experiment was running"] else []) ++
    harnessProblems transcript digest ++ inputProblems transcript exp inputsSha ++
    (if !exp.environmentMarker transcript then ["does not record " ++ exp.environmentDescription]
      else []) ++
    moduleProblems repo transcript

/-! ## Lines that say something -/

/-- A line says a value of a label: blanks, the label, blanks, a colon, and the value between
blanks. -/
structure Says (label line value : List Char) : Prop where
  written : ∃ before between after trailing, (∀ c ∈ before, isBlank c = true) ∧
    (∀ c ∈ between, isBlank c = true) ∧ (∀ c ∈ after, isBlank c = true) ∧
      (∀ c ∈ trailing, isBlank c = true) ∧
        line = before ++ label ++ between ++ ':' :: (after ++ value ++ trailing)
  first : ∀ c, value.head? = some c → isBlank c = false
  last : ∀ c, value.getLast? = some c → isBlank c = false

/-- One line of a transcript says a value of a label, and no other line says any. -/
def OnlyLine (transcript label value : String) : Prop :=
  ∃ before line after, transcript.toList.splitOn '\n' = before ++ line :: after ∧
    Says label.toList line value.toList ∧
      ∀ other ∈ before ++ after, ∀ v, ¬ Says label.toList other v

/-- A label that begins as it is read. -/
def PlainLabel (label : List Char) : Prop := ∃ c rest, label = c :: rest ∧ isBlank c = false

theorem fieldOfLine_iff {label line value : List Char} (hlabel : PlainLabel label) :
    fieldOfLine label line = some value ↔ Says label line value := by
  obtain ⟨c, cs, rfl, hc⟩ := hlabel
  constructor
  · intro h
    obtain ⟨before, hbefore, hline, -⟩ := exists_front isBlank line
    rw [fieldOfLine] at h
    split at h
    · next hprefix =>
      obtain ⟨more, hmore⟩ := List.isPrefixOf_iff_prefix.mp hprefix
      rw [← hmore, List.drop_left] at h
      obtain ⟨between, hbetween, hrest, -⟩ := exists_front isBlank more
      split at h
      · next text htext =>
        obtain ⟨⟨after, trailing, hafter, htrailing, hvalue⟩, hfirst, hlast⟩ :=
          stripChars_eq_iff.mp (Option.some.inj h)
        refine ⟨⟨before, between, after, trailing, hbefore, hbetween, hafter, htrailing, ?_⟩,
          hfirst, hlast⟩
        rw [hline, ← hmore, hrest, htext, hvalue]
        simp
      · cases h
    · cases h
  · rintro ⟨⟨before, between, after, trailing, hbefore, hbetween, hafter, htrailing, rfl⟩, hfirst,
      hlast⟩
    have hcolon : isBlank ':' = false := by decide
    have hdrop : (before ++ (c :: cs) ++ between ++
        ':' :: (after ++ value ++ trailing)).dropWhile isBlank =
          c :: cs ++ (between ++ ':' :: (after ++ value ++ trailing)) := by
      rw [List.append_assoc, List.append_assoc, dropWhile_front hbefore]
      intro d hd
      obtain rfl := Option.some.inj hd
      exact hc
    have hbetween : (between ++ ':' :: (after ++ value ++ trailing)).dropWhile isBlank =
        ':' :: (after ++ value ++ trailing) := by
      refine dropWhile_front hbetween fun d hd => ?_
      obtain rfl := Option.some.inj hd
      exact hcolon
    rw [fieldOfLine]
    simp only [hdrop]
    rw [if_pos (List.isPrefixOf_iff_prefix.mpr (List.prefix_append ..)), List.drop_left]
    simp only [hbetween]
    rw [stripChars_eq_iff.mpr ⟨⟨after, trailing, hafter, htrailing, rfl⟩, hfirst, hlast⟩]

/-- One value is found exactly where one line says one. -/
theorem filterMap_eq_singleton {α β : Type} {f : α → Option β} {xs : List α} {y : β} :
    xs.filterMap f = [y] ↔ ∃ before x after, xs = before ++ x :: after ∧ f x = some y ∧
      ∀ other ∈ before ++ after, f other = none := by
  rw [List.filterMap_eq_cons_iff]
  constructor
  · rintro ⟨before, x, after, rfl, hbefore, hx, hafter⟩
    refine ⟨before, x, after, rfl, hx, fun other hother => ?_⟩
    rcases List.mem_append.mp hother with hother | hother
    · exact hbefore other hother
    · exact List.filterMap_eq_nil_iff.mp hafter other hother
  · rintro ⟨before, x, after, rfl, hx, hothers⟩
    exact ⟨before, x, after, rfl, fun other h => hothers other (List.mem_append_left _ h), hx,
      List.filterMap_eq_nil_iff.mpr fun other h => hothers other (List.mem_append_right _ h)⟩

theorem field_iff {transcript label value : String} (hlabel : PlainLabel label.toList) :
    field transcript label = some value ↔ OnlyLine transcript label value := by
  have hfound : field transcript label = some value ↔
      (transcript.toList.splitOn '\n').filterMap (fieldOfLine label.toList) = [value.toList] := by
    rw [field]
    split
    · next found hfound =>
      rw [hfound, Option.some.injEq, List.cons.injEq, ← String.toList_inj, String.toList_ofList]
      simp
    · next hnone =>
      refine iff_of_false (fun h => by cases h) fun h => hnone _ h
  rw [hfound, filterMap_eq_singleton, OnlyLine]
  refine exists_congr fun before => exists_congr fun line => exists_congr fun after => ?_
  rw [fieldOfLine_iff hlabel]
  refine and_congr_right fun _ => and_congr_right fun _ => forall₂_congr fun other _ => ?_
  rw [Option.eq_none_iff_forall_ne_some]
  exact forall_congr' fun v => not_congr (fieldOfLine_iff hlabel)

/-! ## Evidence -/

/-- A transcript says what the runner knows, a line for each label. -/
structure Citable (repo : String) (transcript : String) (exp : Experiment) (head digest : String)
    (cleanAfter : Bool) (inputsSha : Option String) : Prop where
  commit : OnlyLine transcript "compiler commit" head
  tree : OnlyLine transcript "working tree" "clean"
  unmodified : cleanAfter = true
  harness : OnlyLine transcript "harness sha256" digest
  inputs : exp.inputs ≠ [] → ∃ sha, inputsSha = some sha ∧ OnlyLine transcript "inputs sha256" sha
  environment : exp.environmentMarker transcript = true
  copy : ∃ module, OnlyLine transcript "compiler module" module ∧
    (repo ++ "/").toList <+: module.toList

theorem lineProblems_nil {claimed : Option String} {missing : String}
    {wrong : String → Option String} : lineProblems claimed missing wrong = [] ↔
      ∃ value, claimed = some value ∧ wrong value = none := by
  cases claimed with
  | none => simp [lineProblems]
  | some value => simp [lineProblems]

/-- A line has to say one value. -/
theorem lineProblems_value {transcript label value missing : String} {text : String → String}
    (hlabel : PlainLabel label.toList) :
    lineProblems (field transcript label) missing
        (fun claimed => if claimed ≠ value then some (text claimed) else none) = [] ↔
      OnlyLine transcript label value := by
  rw [lineProblems_nil, ← field_iff hlabel]
  simp

theorem plainLabel_of {label : String} (h : (label.toList.head?.any fun c => !isBlank c) = true) :
    PlainLabel label.toList := by
  cases hlabel : label.toList with
  | nil => simp [hlabel] at h
  | cons c cs => exact ⟨c, cs, rfl, by simpa [hlabel] using h⟩

theorem inputProblems_nil {transcript : String} {exp : Experiment} {inputsSha : Option String} :
    inputProblems transcript exp inputsSha = [] ↔ (exp.inputs ≠ [] →
      ∃ sha, inputsSha = some sha ∧ OnlyLine transcript "inputs sha256" sha) := by
  unfold inputProblems
  by_cases hnone : exp.inputs.isEmpty = true
  · rw [if_pos hnone]
    exact iff_of_true rfl fun hsome => absurd (List.isEmpty_iff.mp hnone) hsome
  · rw [if_neg hnone]
    have hsome : exp.inputs ≠ [] := fun hnil => hnone (List.isEmpty_iff.mpr hnil)
    cases inputsSha with
    | none =>
      refine iff_of_false (List.cons_ne_nil _ _) fun h => ?_
      obtain ⟨sha, hsha, -⟩ := h hsome
      cases hsha
    | some sha =>
      refine (lineProblems_value (plainLabel_of (by decide))).trans
        ⟨fun h _ => ⟨sha, rfl, h⟩, fun h => ?_⟩
      obtain ⟨sha', hsha, h⟩ := h hsome
      rw [Option.some.inj hsha]
      exact h

/-- Nothing stops a transcript from being evidence exactly when each provenance line is there once
and says what the runner found out itself. -/
theorem citabilityProblems_nil_iff (repo : String) (repr : String → String) (transcript : String)
    (exp : Experiment) (head digest : String) (cleanAfter : Bool) (inputsSha : Option String) :
    citabilityProblems repo repr transcript exp head digest cleanAfter inputsSha = [] ↔
      Citable repo transcript exp head digest cleanAfter inputsSha := by
  have hcommit : commitProblems transcript head = [] ↔
      OnlyLine transcript "compiler commit" head := lineProblems_value (plainLabel_of (by decide))
  have htree : treeProblems repr transcript = [] ↔ OnlyLine transcript "working tree" "clean" :=
    lineProblems_value (plainLabel_of (by decide))
  have hharness : harnessProblems transcript digest = [] ↔
      OnlyLine transcript "harness sha256" digest := lineProblems_value (plainLabel_of (by decide))
  have hmodule : moduleProblems repo transcript = [] ↔ ∃ module,
      OnlyLine transcript "compiler module" module ∧ (repo ++ "/").toList <+: module.toList := by
    rw [moduleProblems, lineProblems_nil]
    refine exists_congr fun module => ?_
    rw [field_iff (plainLabel_of (by decide))]
    simp [List.isPrefixOf_iff_prefix]
  have hclean : (if !cleanAfter then
      ["the worktree was modified while the experiment was running"] else []) = [] ↔
        cleanAfter = true := by
    cases cleanAfter <;> simp
  have henvironment : (if !exp.environmentMarker transcript then
      ["does not record " ++ exp.environmentDescription] else []) = [] ↔
        exp.environmentMarker transcript = true := by
    cases exp.environmentMarker transcript <;> simp
  rw [citabilityProblems, List.append_eq_nil_iff, List.append_eq_nil_iff, List.append_eq_nil_iff,
    List.append_eq_nil_iff, List.append_eq_nil_iff, List.append_eq_nil_iff, hcommit, htree, hclean,
    hharness, inputProblems_nil, henvironment, hmodule]
  constructor
  · rintro ⟨⟨⟨⟨⟨⟨hcommit, htree⟩, hclean⟩, hharness⟩, hinputs⟩, henvironment⟩, hmodule⟩
    exact ⟨hcommit, htree, hclean, hharness, hinputs, henvironment, hmodule⟩
  · rintro ⟨hcommit, htree, hclean, hharness, hinputs, henvironment, hmodule⟩
    exact ⟨⟨⟨⟨⟨⟨hcommit, htree⟩, hclean⟩, hharness⟩, hinputs⟩, henvironment⟩, hmodule⟩

end MissionCompiler.Experiments
