import MissionCompiler.Experiments.Citability
import MissionCompiler.Experiments.Worktree

/-!
# The experiment runner

`run`, `file_results` and `main`: each experiment between two looks at git and at the files it
rests on, and the results directory and the tree that an invocation leaves behind. What the
runner finds at each look is whatever it is, so an experiment may change anything that is looked at
while it runs. The results directory takes what is written there, and neither it nor what is filed
is changed by an experiment itself. Only evidence is filed, and nothing is filed before every
experiment has ended.
-/

namespace MissionCompiler.Experiments

open Lib

/-! ## What the runner looks at -/

/-- A file that the patterns of an experiment match: its name and its digest. -/
structure InputFile where
  name : String
  sha : String

/-- How the process of an experiment ended, with what it printed. -/
inductive Process where
  | exited (returncode : Int) (transcript : String)
  | timedOut (transcript : String)

/-- What the runner finds at each of its looks, in their order. Where nothing is found a call of the
system raised, and the invocation dies of it. -/
structure Looks where
  scriptExists : Bool
  statusBefore : GitRun
  revParse : GitRun
  digestBefore : Option String
  inputsBefore : Option (List InputFile)
  process : Option Process
  statusAfter : GitRun
  digestAfter : Option String
  inputsAfter : Option (List InputFile)

inductive Outcome where
  | ok
  | failed
  | notCitable
  | skipped
deriving DecidableEq, Repr

/-- The results directory: by experiment, the transcripts `name.txt`, `name.rejected.txt` and
`name.timed-out.txt`. -/
structure Shelf where
  results : String → Option String
  rejected : String → Option String
  timedOut : String → Option String

/-- A transcript that is to be filed, and where. -/
structure Filing where
  path : String
  transcript : String

/-- What is the same for a whole invocation: `REPO`, the results directory and the paths forgiven
for it, and the library functions. -/
structure Setting where
  repo : String
  resultsDir : String
  filed : List String
  repr : String → String
  sha256 : String → String

variable (setting : Setting)

/-! ## One experiment -/

/-- `inputs_digest`. -/
def inputsDigest (files : List InputFile) : String :=
  setting.sha256 ("\n".intercalate ((files.map fun file => file.sha ++ "  " ++ file.name).mergeSort
    fun a b => a ≤ b) ++ "\n")

/-- The digest of some inputs, if there are any. -/
def inputsSha (files : List InputFile) : Option String :=
  if files.isEmpty then none else some (inputsDigest setting files)

/-- `[0-9a-f]{40}`. -/
def isCommit (head : String) : Bool :=
  head.toList.length == 40 && head.toList.all fun c =>
    ('0' ≤ c && c ≤ '9') || ('a' ≤ c && c ≤ 'f')

/-- How the run of an experiment begins: it ends there, it dies, or it is ready for the process. -/
inductive Start where
  | ends (outcome : Outcome) (detail : String)
  | dies
  | ready (head digest : String) (inputs : List InputFile)

/-- The first half of `run`. -/
def start (exp : Experiment) (looks : Looks) : Start :=
  if !looks.scriptExists then .ends .skipped (exp.script ++ " is not on this branch")
  else match dirt setting.filed looks.statusBefore with
    | .error e => .ends .notCitable e
    | .ok (first :: rest) => .ends .notCitable
        ("the worktree is dirty; commit or stash before running (" ++ toString (rest.length + 1) ++
          " entr" ++ (if rest.isEmpty then "y" else "ies") ++ ", e.g. " ++ first ++ ")")
    | .ok [] => match git ["rev-parse", "HEAD"] looks.revParse with
      | .error e => .ends .notCitable e
      | .ok head =>
        if !isCommit head then
          .ends .notCitable ("git returned an unusable commit: " ++ setting.repr head)
        else match looks.digestBefore, looks.inputsBefore with
          | some digest, some inputs => .ready head digest inputs
          | _, _ => .dies

/-- The problems of a transcript, and those of files that changed while it was printed. -/
def problemsOf (exp : Experiment) (transcript head digestBefore digestAfter : String)
    (inputsBefore inputsAfter : List InputFile) (cleanAfter : Bool) : List String :=
  citabilityProblems setting.repo setting.repr transcript exp head digestBefore cleanAfter
      (inputsSha setting inputsBefore) ++
    (if digestBefore ≠ digestAfter then ["the harness changed on disk while it was running"]
      else []) ++
    (if inputsSha setting inputsBefore ≠ inputsSha setting inputsAfter then
      ["the harness inputs changed on disk while it was running (" ++
        toString inputsBefore.length ++ " file(s) before, " ++ toString inputsAfter.length ++
          " after)"]
      else [])

/-- What has come of the experiments so far. -/
structure Progress where
  shelf : Shelf
  pending : List Filing
  worst : Nat

def Shelf.keep (shelf : Shelf) (name transcript : String) : Shelf where
  results := Function.update shelf.results name (some transcript)
  rejected := shelf.rejected
  timedOut := shelf.timedOut

/-- The rejected transcript is kept, and the previous result is not. -/
def Shelf.reject (shelf : Shelf) (name transcript : String) : Shelf where
  results := Function.update shelf.results name none
  rejected := Function.update shelf.rejected name (some transcript)
  timedOut := shelf.timedOut

def Shelf.expire (shelf : Shelf) (name transcript : String) : Shelf where
  results := shelf.results
  rejected := shelf.rejected
  timedOut := Function.update shelf.timedOut name (some transcript)

def Progress.onShelf (s : Progress) (shelf : Shelf) : Progress := ⟨shelf, s.pending, s.worst⟩

def Progress.queue (s : Progress) (filing : Filing) : Progress :=
  ⟨s.shelf, s.pending ++ [filing], s.worst⟩

/-- The end of `run`, of a process that exited, by the problems of its transcript. -/
def settle (exp : Experiment) (returncode : Int) (transcript : String) (problems : List String)
    (s : Progress) : (Outcome × String) × Progress :=
  let out := setting.resultsDir ++ "/" ++ exp.name ++ ".txt"
  if !problems.isEmpty then
    let detail := "; ".intercalate problems ++ " (transcript kept at " ++ setting.resultsDir ++
      "/" ++ exp.name ++ ".rejected.txt)"
    ((.notCitable, if returncode ≠ 0 then "exit " ++ toString returncode ++ ", and " ++ detail
      else detail), s.onShelf (s.shelf.reject exp.name transcript))
  else
    let kept := s.onShelf (s.shelf.keep exp.name transcript)
    if returncode ≠ 0 then
      ((.failed, "exit " ++ toString returncode ++ "; transcript at " ++ out), kept)
    else match exp.resultPath with
      | some path =>
        ((.ok, out ++ " -> will be filed at " ++ path), kept.queue ⟨path, transcript⟩)
      | none => ((.ok, out), kept)

/-- `run`. It dies where a call of the system raised. -/
def run (exp : Experiment) (looks : Looks) (s : Progress) :
    Option ((Outcome × String) × Progress) :=
  match start setting exp looks with
  | .ends outcome detail => some ((outcome, detail), s)
  | .dies => none
  | .ready head digest inputs => match looks.process with
    | none => none
    | some (.timedOut transcript) => some ((.failed, "did not finish within " ++
        toString exp.timeout ++ "s; partial transcript at " ++ setting.resultsDir ++ "/" ++
          exp.name ++ ".timed-out.txt. Its teardown may not have run -- check for leftover " ++
            "objects."), s.onShelf (s.shelf.expire exp.name transcript))
    | some (.exited returncode transcript) => match dirt setting.filed looks.statusAfter with
      | .error e => some ((.notCitable,
          "could not re-check the worktree after the run: " ++ e), s)
      | .ok dirty => match looks.digestAfter, looks.inputsAfter with
        | some digestAfter, some inputsAfter =>
          some (settle setting exp returncode transcript
            (problemsOf setting exp transcript head digest digestAfter inputs inputsAfter
              dirty.isEmpty) s)
        | _, _ => none

/-! ## An invocation -/

/-- What an outcome adds to the exit status. -/
def Outcome.status : Outcome → Nat
  | .failed => 1
  | .notCitable => 2
  | _ => 0

/-- The loop of `main`, and whether it came to its end. -/
def runAll : List (Experiment × Looks) → Progress → Bool × Progress
  | [], s => (true, s)
  | (exp, looks) :: rest, s => match run setting exp looks s with
    | none => (false, s)
    | some ((outcome, _), s) => runAll rest ⟨s.shelf, s.pending, max s.worst outcome.status⟩

/-- `file_results`, which dies at a path it cannot write. -/
def fileResults (writable : String → Bool) :
    List Filing → (String → Option String) → Bool × (String → Option String)
  | [], tree => (true, tree)
  | filing :: rest, tree =>
    if writable filing.path then
      fileResults writable rest (Function.update tree filing.path (some filing.transcript))
    else (false, tree)

/-- What an invocation leaves: its exit status, the tree and the results directory. -/
structure Invocation where
  status : Nat
  tree : String → Option String
  shelf : Shelf

/-- The names that are asked for and not known. -/
def unknownNames (registered : List (Experiment × Looks)) (only : List String) : List String :=
  only.filter fun name => !(registered.map fun e => e.1.name).contains name

/-- The experiments that are asked for, or all of them. -/
def chosen (registered : List (Experiment × Looks)) (only : List String) :
    List (Experiment × Looks) :=
  registered.filter fun e => only.isEmpty || only.contains e.1.name

/-- `main`, without `--list`. A traceback exits 1. -/
def main (registered : List (Experiment × Looks)) (only : List String) (writable : String → Bool)
    (tree : String → Option String) (shelf : Shelf) : Invocation :=
  if !(unknownNames registered only).isEmpty then ⟨1, tree, shelf⟩
  else match runAll setting (chosen registered only) ⟨shelf, [], 0⟩ with
    | (false, s) => ⟨1, tree, s.shelf⟩
    | (true, s) => match fileResults writable s.pending tree with
      | (true, filed) => ⟨s.worst, filed, s.shelf⟩
      | (false, filed) => ⟨1, filed, s.shelf⟩

/-! ## What one experiment does -/

/-- A transcript with everything behind it that the runner asks for: the process printed it, git
called the tree clean before and after, and the transcript says once each the commit and the
digests that the runner found before, and found again after. -/
structure Backed (exp : Experiment) (looks : Looks) (returncode : Int) (transcript : String) :
    Prop where
  present : looks.scriptExists = true
  printed : looks.process = some (.exited returncode transcript)
  cleanBefore : dirt setting.filed looks.statusBefore = .ok []
  cleanAfter : dirt setting.filed looks.statusAfter = .ok []
  pinned : ∃ head digest inputs inputsAfter,
    git ["rev-parse", "HEAD"] looks.revParse = .ok head ∧ isCommit head = true ∧
      looks.digestBefore = some digest ∧ looks.digestAfter = some digest ∧
        looks.inputsBefore = some inputs ∧ looks.inputsAfter = some inputsAfter ∧
          inputsSha setting inputsAfter = inputsSha setting inputs ∧
            Citable setting.repo transcript exp head digest true (inputsSha setting inputs)

/-- The script is there, and git and the script's files are as they should be. -/
def Ready (e : Experiment × Looks) : Prop :=
  ∃ head digest inputs, start setting e.1 e.2 = .ready head digest inputs

/-- The transcript of an experiment was judged: its process exited, and every look gave an
answer. -/
def Judged (e : Experiment × Looks) (returncode : Int) (transcript : String) : Prop :=
  Ready setting e ∧ e.2.process = some (.exited returncode transcript) ∧
    (∃ dirty, dirt setting.filed e.2.statusAfter = .ok dirty) ∧
      (∃ digest, e.2.digestAfter = some digest) ∧ ∃ inputs, e.2.inputsAfter = some inputs

/-- A call of the system raises while an experiment runs. -/
def Dies (e : Experiment × Looks) : Prop :=
  start setting e.1 e.2 = .dies ∨ Ready setting e ∧ (e.2.process = none ∨
    (∃ returncode transcript, e.2.process = some (.exited returncode transcript)) ∧
      (∃ dirty, dirt setting.filed e.2.statusAfter = .ok dirty) ∧
        (e.2.digestAfter = none ∨ e.2.inputsAfter = none))

/-- An experiment that is not on this branch, or that succeeded with a backed transcript. -/
def Clean (e : Experiment × Looks) : Prop :=
  e.2.scriptExists = false ∨ ∃ transcript, Backed setting e.1 e.2 0 transcript

/-- An experiment whose transcript can be cited, if there is one at all: it is not on this branch,
it ran out of time, or its transcript is backed. -/
def Settled (e : Experiment × Looks) : Prop :=
  e.2.scriptExists = false ∨
    Ready setting e ∧ (∃ transcript, e.2.process = some (.timedOut transcript)) ∨
      ∃ returncode transcript, Backed setting e.1 e.2 returncode transcript

/-- What a run of an experiment comes to. -/
inductive Ran (e : Experiment × Looks) (s : Progress) : Outcome → Progress → Prop
  | skipped (absent : e.2.scriptExists = false) : Ran e s .skipped s
  | unread (unsettled : ¬ Settled setting e)
      (unjudged : ∀ returncode transcript, ¬ Judged setting e returncode transcript) :
      Ran e s .notCitable s
  | expired {transcript : String} (ready : Ready setting e)
      (timed_out : e.2.process = some (.timedOut transcript)) :
      Ran e s .failed (s.onShelf (s.shelf.expire e.1.name transcript))
  | rejected {returncode : Int} {transcript : String}
      (judged : Judged setting e returncode transcript)
      (unbacked : ¬ Backed setting e.1 e.2 returncode transcript) :
      Ran e s .notCitable (s.onShelf (s.shelf.reject e.1.name transcript))
  | failed {returncode : Int} {transcript : String}
      (judged : Judged setting e returncode transcript)
      (backed : Backed setting e.1 e.2 returncode transcript) (nonzero : returncode ≠ 0) :
      Ran e s .failed (s.onShelf (s.shelf.keep e.1.name transcript))
  | ok {transcript : String} (judged : Judged setting e 0 transcript)
      (backed : Backed setting e.1 e.2 0 transcript) :
      Ran e s .ok ⟨s.shelf.keep e.1.name transcript,
        s.pending ++ (e.1.resultPath.map fun path => ⟨path, transcript⟩).toList, s.worst⟩

variable {setting} {exp : Experiment} {looks : Looks} {s s' : Progress} {outcome : Outcome}
  {detail : String}

theorem start_eq_ready {head digest : String} {inputs : List InputFile} :
    start setting exp looks = .ready head digest inputs ↔
      looks.scriptExists = true ∧ dirt setting.filed looks.statusBefore = .ok [] ∧
        git ["rev-parse", "HEAD"] looks.revParse = .ok head ∧ isCommit head = true ∧
          looks.digestBefore = some digest ∧ looks.inputsBefore = some inputs := by
  rw [start]
  constructor
  · intro h
    split at h
    · cases h
    · next hexists =>
      split at h
      · cases h
      · cases h
      · next hdirt =>
        split at h
        · cases h
        · next found hfound =>
          split at h
          · cases h
          · next hcommit =>
            split at h
            · next digest' inputs' hdigest hinputs =>
              obtain ⟨rfl, rfl, rfl⟩ := Start.ready.inj h
              exact ⟨by simpa using hexists, hdirt, hfound, by simpa using hcommit, hdigest,
                hinputs⟩
            · cases h
  · rintro ⟨hexists, hdirt, hfound, hcommit, hdigest, hinputs⟩
    rw [hexists, hdirt, hfound]
    show (if !isCommit head then _ else _) = _
    rw [hcommit, hdigest, hinputs]
    rfl

theorem start_eq_ends (h : start setting exp looks = .ends outcome detail) :
    outcome = .skipped ∧ looks.scriptExists = false ∨
      outcome = .notCitable ∧ looks.scriptExists = true := by
  rw [start] at h
  split at h
  · next hexists =>
    obtain ⟨rfl, -⟩ := Start.ends.inj h
    exact .inl ⟨rfl, by simpa using hexists⟩
  · next hexists =>
    refine .inr ⟨?_, by simpa using hexists⟩
    split at h
    · exact (Start.ends.inj h).1.symm
    · exact (Start.ends.inj h).1.symm
    · split at h
      · exact (Start.ends.inj h).1.symm
      · split at h
        · exact (Start.ends.inj h).1.symm
        · split at h
          · cases h
          · cases h

/-- The problems that are found are those that keep a transcript from being backed. -/
theorem problemsOf_nil_iff {transcript head digestBefore digestAfter : String}
    {inputsBefore inputsAfter : List InputFile} {cleanAfter : Bool} :
    problemsOf setting exp transcript head digestBefore digestAfter inputsBefore inputsAfter
        cleanAfter = [] ↔
      Citable setting.repo transcript exp head digestBefore cleanAfter
          (inputsSha setting inputsBefore) ∧ digestBefore = digestAfter ∧
        inputsSha setting inputsBefore = inputsSha setting inputsAfter := by
  rw [problemsOf, List.append_eq_nil_iff, List.append_eq_nil_iff, citabilityProblems_nil_iff,
    and_assoc]
  refine and_congr_right fun _ => and_congr ?_ ?_
  · by_cases h : digestBefore = digestAfter <;> simp [h]
  · by_cases h : inputsSha setting inputsBefore = inputsSha setting inputsAfter <;> simp [h]

theorem backed_iff {returncode : Int} {transcript head digestBefore digestAfter : String}
    {inputsBefore inputsAfter : List InputFile} {dirty : List String}
    (hstart : start setting exp looks = .ready head digestBefore inputsBefore)
    (hprocess : looks.process = some (.exited returncode transcript))
    (hdirty : dirt setting.filed looks.statusAfter = .ok dirty)
    (hdigest : looks.digestAfter = some digestAfter)
    (hinputs : looks.inputsAfter = some inputsAfter) :
    problemsOf setting exp transcript head digestBefore digestAfter inputsBefore inputsAfter
        dirty.isEmpty = [] ↔ Backed setting exp looks returncode transcript := by
  obtain ⟨hpresent, hclean, hhead, hcommit, hbefore, hfiles⟩ := start_eq_ready.mp hstart
  rw [problemsOf_nil_iff]
  constructor
  · rintro ⟨hcitable, rfl, hsame⟩
    have hnone : dirty = [] := List.isEmpty_iff.mp hcitable.unmodified
    subst hnone
    exact ⟨hpresent, hprocess, hclean, hdirty, head, digestBefore, inputsBefore, inputsAfter, hhead,
      hcommit, hbefore, hdigest, hfiles, hinputs, hsame.symm, hcitable⟩
  · rintro ⟨-, -, -, hnone, head', digest, inputs, inputs', hhead', -, hbefore', hafter', hfiles',
      hinputs', hsame, hcitable⟩
    rw [hdirty] at hnone
    rw [hhead] at hhead'
    rw [hbefore] at hbefore'
    rw [hdigest] at hafter'
    rw [hfiles] at hfiles'
    rw [hinputs] at hinputs'
    obtain rfl := Except.ok.inj hnone
    obtain rfl := Except.ok.inj hhead'
    obtain rfl := Option.some.inj hbefore'
    obtain rfl := Option.some.inj hafter'
    obtain rfl := Option.some.inj hfiles'
    obtain rfl := Option.some.inj hinputs'
    exact ⟨hcitable, rfl, hsame.symm⟩

theorem Ready.present {e : Experiment × Looks} (h : Ready setting e) : e.2.scriptExists = true := by
  obtain ⟨head, digest, inputs, hstart⟩ := h
  exact (start_eq_ready.mp hstart).1

/-- What is backed was judged. -/
theorem Backed.judged {e : Experiment × Looks} {returncode : Int} {transcript : String}
    (h : Backed setting e.1 e.2 returncode transcript) :
    Judged setting e returncode transcript := by
  obtain ⟨hpresent, hprinted, hclean, hafter, head, digest, inputs, inputsAfter, hhead, hcommit,
    hbefore, hdigest, hfiles, hinputs, -⟩ := h
  exact ⟨⟨head, digest, inputs,
      start_eq_ready.mpr ⟨hpresent, hclean, hhead, hcommit, hbefore, hfiles⟩⟩,
    hprinted, ⟨_, hafter⟩, ⟨_, hdigest⟩, _, hinputs⟩

theorem ran_of_settle {returncode : Int} {transcript : String} {problems : List String}
    (judged : Judged setting (exp, looks) returncode transcript)
    (hproblems : problems = [] ↔ Backed setting exp looks returncode transcript)
    (h : settle setting exp returncode transcript problems s = ((outcome, detail), s')) :
    Ran setting (exp, looks) s outcome s' := by
  rw [settle] at h
  split at h
  · next hsome =>
    have hunbacked : ¬ Backed setting exp looks returncode transcript := by
      intro hbacked
      rw [hproblems.mpr hbacked] at hsome
      cases hsome
    obtain ⟨hreport, rfl⟩ := Prod.mk.inj h
    obtain ⟨rfl, -⟩ := Prod.mk.inj hreport
    exact .rejected judged hunbacked
  · next hnone =>
    have hbacked := hproblems.mp (by simpa using hnone)
    split at h
    · next hnonzero =>
      obtain ⟨hreport, rfl⟩ := Prod.mk.inj h
      obtain ⟨rfl, -⟩ := Prod.mk.inj hreport
      exact .failed judged hbacked hnonzero
    · next hzero =>
      obtain rfl := not_not.mp hzero
      have hran : Ran setting (exp, looks) s .ok _ := .ok judged hbacked
      split at h
      · next path hpath =>
        obtain ⟨hreport, rfl⟩ := Prod.mk.inj h
        obtain ⟨rfl, -⟩ := Prod.mk.inj hreport
        rw [hpath] at hran
        exact hran
      · next hpath =>
        obtain ⟨hreport, rfl⟩ := Prod.mk.inj h
        obtain ⟨rfl, -⟩ := Prod.mk.inj hreport
        rw [hpath, Option.map_none, Option.toList_none, List.append_nil] at hran
        exact hran

theorem run_ran (h : run setting exp looks s = some ((outcome, detail), s')) :
    Ran setting (exp, looks) s outcome s' := by
  rw [run] at h
  split at h
  · next ended text hstart =>
    obtain ⟨hreport, rfl⟩ := Prod.mk.inj (Option.some.inj h)
    obtain ⟨rfl, -⟩ := Prod.mk.inj hreport
    have hunready : ¬ Ready setting (exp, looks) := by
      rintro ⟨head, digest, inputs, hready⟩
      rw [hstart] at hready
      cases hready
    rcases start_eq_ends hstart with ⟨rfl, habsent⟩ | ⟨rfl, hpresent⟩
    · exact .skipped habsent
    · refine .unread ?_ fun _ _ hjudged => hunready hjudged.1
      rintro (habsent | ⟨hready, -⟩ | ⟨returncode, transcript, hbacked⟩)
      · rw [hpresent] at habsent
        cases habsent
      · exact hunready hready
      · exact hunready hbacked.judged.1
  · cases h
  · next head digest inputs hstart =>
    have hready : Ready setting (exp, looks) := ⟨head, digest, inputs, hstart⟩
    split at h
    · cases h
    · next transcript hprocess =>
      obtain ⟨hreport, rfl⟩ := Prod.mk.inj (Option.some.inj h)
      obtain ⟨rfl, -⟩ := Prod.mk.inj hreport
      exact .expired hready hprocess
    · next returncode transcript hprocess =>
      split at h
      · next e hstatus =>
        obtain ⟨hreport, rfl⟩ := Prod.mk.inj (Option.some.inj h)
        obtain ⟨rfl, -⟩ := Prod.mk.inj hreport
        have hunjudged : ∀ returncode transcript,
            ¬ Judged setting (exp, looks) returncode transcript := by
          rintro returncode text ⟨-, -, ⟨dirty, hdirty⟩, -⟩
          rw [hstatus] at hdirty
          cases hdirty
        refine .unread ?_ hunjudged
        rintro (habsent | ⟨-, text, hexpired⟩ | ⟨returncode, text, hbacked⟩)
        · rw [hready.present] at habsent
          cases habsent
        · rw [hprocess] at hexpired
          cases hexpired
        · exact hunjudged _ _ hbacked.judged
      · next dirty hdirty =>
        split at h
        · next digestAfter inputsAfter hdigest hinputs =>
          have hjudged : Judged setting (exp, looks) returncode transcript :=
            ⟨hready, hprocess, ⟨_, hdirty⟩, ⟨_, hdigest⟩, _, hinputs⟩
          exact ran_of_settle hjudged (backed_iff hstart hprocess hdirty hdigest hinputs)
            (Option.some.inj h)
        · cases h

/-- Whether the invocation dies of an experiment depends on what is found, and on nothing else. -/
theorem run_eq_none : run setting exp looks s = none ↔ Dies setting (exp, looks) := by
  rw [run, Dies]
  cases hstart : start setting exp looks with
  | ends outcome detail =>
    have hunready : ¬ Ready setting (exp, looks) := by
      rintro ⟨head, digest, inputs, hready⟩
      rw [hstart] at hready
      cases hready
    simp [hunready]
  | dies => simp
  | ready head digest inputs =>
    have hready : Ready setting (exp, looks) := ⟨head, digest, inputs, hstart⟩
    cases hprocess : looks.process with
    | none => simp [hready]
    | some process =>
      cases process with
      | timedOut transcript => simp
      | exited returncode transcript =>
        cases hstatus : dirt setting.filed looks.statusAfter with
        | error e => simp
        | ok dirty =>
          cases hdigest : looks.digestAfter with
          | none => simp [hready]
          | some digestAfter => cases hinputs : looks.inputsAfter <;> simp [hready]

variable {e : Experiment × Looks}

/-- A process prints one transcript, and ends with one exit code. -/
theorem Judged.unique {returncode returncode' : Int} {transcript transcript' : String}
    (h : Judged setting e returncode transcript) (h' : Judged setting e returncode' transcript') :
    returncode' = returncode ∧ transcript' = transcript := by
  obtain ⟨-, hprinted, -⟩ := h
  obtain ⟨-, hprinted', -⟩ := h'
  rw [hprinted] at hprinted'
  exact ⟨(Process.exited.inj (Option.some.inj hprinted')).1.symm,
    (Process.exited.inj (Option.some.inj hprinted')).2.symm⟩

theorem Judged.not_dies {returncode : Int} {transcript : String}
    (h : Judged setting e returncode transcript) : ¬ Dies setting e := by
  obtain ⟨⟨head, digest, inputs, hready⟩, hprinted, -, ⟨digestAfter, hdigest⟩, inputsAfter,
    hinputs⟩ := h
  rintro (hdead | ⟨-, hdead | ⟨-, -, hdead | hdead⟩⟩)
  · rw [hready] at hdead
    cases hdead
  · rw [hprinted] at hdead
    cases hdead
  · rw [hdigest] at hdead
    cases hdead
  · rw [hinputs] at hdead
    cases hdead

/-- The exit status tells a clean run from a failed one, and both from one without evidence. -/
theorem Ran.status (h : Ran setting e s outcome s') :
    (outcome.status = 0 ↔ Clean setting e) ∧ (outcome.status = 2 ↔ ¬ Settled setting e) := by
  cases h with
  | skipped absent =>
    exact ⟨iff_of_true rfl (.inl absent), iff_of_false (by decide) (not_not.mpr (.inl absent))⟩
  | unread unsettled unjudged =>
    refine ⟨iff_of_false (by decide) ?_, iff_of_true rfl unsettled⟩
    rintro (absent | ⟨transcript, hbacked⟩)
    · exact unsettled (.inl absent)
    · exact unsettled (.inr (.inr ⟨0, transcript, hbacked⟩))
  | @expired transcript ready timed_out =>
    refine ⟨iff_of_false (by decide) ?_, iff_of_false (by decide) (not_not.mpr ?_)⟩
    · rintro (absent | ⟨text, hbacked⟩)
      · rw [ready.present] at absent
        cases absent
      · rw [hbacked.printed] at timed_out
        cases timed_out
    · exact .inr (.inl ⟨ready, transcript, timed_out⟩)
  | @rejected returncode transcript judged unbacked =>
    have hnot : ∀ returncode' transcript', ¬ Backed setting e.1 e.2 returncode' transcript' := by
      intro returncode' transcript' hbacked
      obtain ⟨rfl, rfl⟩ := judged.unique hbacked.judged
      exact unbacked hbacked
    refine ⟨iff_of_false (by decide) ?_, iff_of_true rfl ?_⟩
    · rintro (absent | ⟨text, hbacked⟩)
      · rw [judged.1.present] at absent
        cases absent
      · exact hnot _ _ hbacked
    · rintro (absent | ⟨-, text, hexpired⟩ | ⟨returncode', text, hbacked⟩)
      · rw [judged.1.present] at absent
        cases absent
      · rw [judged.2.1] at hexpired
        cases hexpired
      · exact hnot _ _ hbacked
  | @failed returncode transcript judged backed nonzero =>
    refine ⟨iff_of_false (by decide) ?_, iff_of_false (by decide) (not_not.mpr ?_)⟩
    · rintro (absent | ⟨text, hbacked⟩)
      · rw [judged.1.present] at absent
        cases absent
      · exact nonzero (judged.unique hbacked.judged).1.symm
    · exact .inr (.inr ⟨returncode, transcript, backed⟩)
  | @ok transcript judged backed =>
    exact ⟨iff_of_true rfl (.inr ⟨transcript, backed⟩), iff_of_false (by decide)
      (not_not.mpr (.inr (.inr ⟨0, transcript, backed⟩)))⟩

/-! ## What the experiments come to -/

/-- What holds of the runner's books after some experiments: everything queued and every result is
backed, a transcript that was judged is either a result or rejected, and the worst outcome is what
the exit status stands for. -/
structure Sound (setting : Setting) (shelf : Shelf) (ran : List (Experiment × Looks))
    (s : Progress) : Prop where
  pending : ∀ filing ∈ s.pending, ∃ e ∈ ran, e.1.resultPath = some filing.path ∧
    Backed setting e.1 e.2 0 filing.transcript
  queued : ∀ e ∈ ran, ∀ path transcript, e.1.resultPath = some path →
    Backed setting e.1 e.2 0 transcript → ⟨path, transcript⟩ ∈ s.pending
  results : ∀ name, s.shelf.results name = shelf.results name ∨ s.shelf.results name = none ∨
    ∃ e ∈ ran, e.1.name = name ∧ ∃ returncode transcript,
      s.shelf.results name = some transcript ∧ Backed setting e.1 e.2 returncode transcript
  judged : (ran.map fun e => e.1.name).Nodup → ∀ e ∈ ran, ∀ returncode transcript,
    Judged setting e returncode transcript →
      Backed setting e.1 e.2 returncode transcript ∧
          s.shelf.results e.1.name = some transcript ∨
        ¬ Backed setting e.1 e.2 returncode transcript ∧ s.shelf.results e.1.name = none ∧
          s.shelf.rejected e.1.name = some transcript
  bound : s.worst ≤ 2
  clean : s.worst = 0 ↔ ∀ e ∈ ran, Clean setting e
  uncitable : s.worst = 2 ↔ ∃ e ∈ ran, ¬ Settled setting e

theorem Sound.start (shelf : Shelf) : Sound setting shelf [] ⟨shelf, [], 0⟩ where
  pending _ h := absurd h List.not_mem_nil
  queued _ h := absurd h List.not_mem_nil
  results _ := .inl rfl
  judged _ _ h := absurd h List.not_mem_nil
  bound := Nat.zero_le 2
  clean := by simp
  uncitable := by simp

variable {shelf : Shelf} {ran : List (Experiment × Looks)}

/-- What one more experiment adds to the exit status. -/
theorem Sound.worse (h : Sound setting shelf ran s) (hran : Ran setting e s outcome s') :
    max s.worst outcome.status ≤ 2 ∧
      (max s.worst outcome.status = 0 ↔ ∀ f ∈ ran ++ [e], Clean setting f) ∧
        (max s.worst outcome.status = 2 ↔ ∃ f ∈ ran ++ [e], ¬ Settled setting f) := by
  obtain ⟨hzero, htwo⟩ := hran.status
  have hstatus : outcome.status ≤ 2 := by cases outcome <;> decide
  have hbound := h.bound
  refine ⟨by omega, ?_, ?_⟩
  · rw [List.forall_mem_append, List.forall_mem_singleton, ← hzero, ← h.clean]
    omega
  · simp only [List.mem_append, List.mem_singleton, or_and_right, exists_or, exists_eq_left]
    rw [← htwo, ← h.uncitable]
    omega

/-- The books after one more experiment, by what it does to its own entries. -/
theorem Sound.next (h : Sound setting shelf ran s) (hran : Ran setting e s outcome s')
    {after : Shelf} {pending : List Filing} (hold : ∀ filing ∈ s.pending, filing ∈ pending)
    (hnew : ∀ filing ∈ pending, filing ∈ s.pending ∨
      e.1.resultPath = some filing.path ∧ Backed setting e.1 e.2 0 filing.transcript)
    (hqueued : ∀ path transcript, e.1.resultPath = some path →
      Backed setting e.1 e.2 0 transcript → ⟨path, transcript⟩ ∈ pending)
    (hothers : ∀ name, name ≠ e.1.name → after.results name = s.shelf.results name ∧
      after.rejected name = s.shelf.rejected name)
    (hmine : after.results e.1.name = s.shelf.results e.1.name ∨ after.results e.1.name = none ∨
      ∃ returncode transcript, after.results e.1.name = some transcript ∧
        Backed setting e.1 e.2 returncode transcript)
    (hjudged : ∀ returncode transcript, Judged setting e returncode transcript →
      Backed setting e.1 e.2 returncode transcript ∧ after.results e.1.name = some transcript ∨
        ¬ Backed setting e.1 e.2 returncode transcript ∧ after.results e.1.name = none ∧
          after.rejected e.1.name = some transcript) :
    Sound setting shelf (ran ++ [e]) ⟨after, pending, max s.worst outcome.status⟩ := by
  have hlast : e ∈ ran ++ [e] := List.mem_append_right _ (List.mem_singleton_self e)
  have hearlier : ∀ f ∈ ran, f ∈ ran ++ [e] := fun f hf => List.mem_append_left _ hf
  obtain ⟨hbound, hclean, huncitable⟩ := h.worse hran
  refine ⟨fun filing hfiling => ?_, fun f hf path transcript hpath hbacked => ?_, fun name => ?_,
    fun hnodup f hf returncode transcript hf' => ?_, hbound, hclean, huncitable⟩
  · rcases hnew filing hfiling with hfiling | hfiling
    · obtain ⟨f, hf, hbacked⟩ := h.pending filing hfiling
      exact ⟨f, hearlier f hf, hbacked⟩
    · exact ⟨e, hlast, hfiling⟩
  · rcases List.mem_append.mp hf with hf | hf
    · exact hold _ (h.queued f hf path transcript hpath hbacked)
    · obtain rfl := List.mem_singleton.mp hf
      exact hqueued path transcript hpath hbacked
  · have hresults : after.results name = s.shelf.results name ∨ after.results name = none ∨
        ∃ f ∈ ran ++ [e], f.1.name = name ∧ ∃ returncode transcript,
          after.results name = some transcript ∧
            Backed setting f.1 f.2 returncode transcript := by
      by_cases hname : name = e.1.name
      · subst hname
        refine hmine.imp_right (Or.imp_right ?_)
        rintro ⟨returncode, transcript, hbacked⟩
        exact ⟨e, hlast, rfl, returncode, transcript, hbacked⟩
      · exact .inl (hothers name hname).1
    rcases hresults with hsame | hresults
    · rw [show (Progress.mk after pending _).shelf.results name = _ from hsame]
      refine (h.results name).imp_right (Or.imp_right ?_)
      rintro ⟨f, hf, hfile⟩
      exact ⟨f, hearlier f hf, hfile⟩
    · exact .inr hresults
  · rcases List.mem_append.mp hf with hf | hf
    · rw [List.map_append, List.nodup_append] at hnodup
      obtain ⟨hnodup, -, hdistinct⟩ := hnodup
      have hname : f.1.name ≠ e.1.name :=
        hdistinct _ (List.mem_map_of_mem hf) _ (List.mem_singleton_self _)
      obtain ⟨hresults, hrejected⟩ := hothers f.1.name hname
      show _ ∧ after.results f.1.name = _ ∨ _ ∧ after.results f.1.name = _ ∧
        after.rejected f.1.name = _
      rw [hresults, hrejected]
      exact h.judged hnodup f hf returncode transcript hf'
    · obtain rfl := List.mem_singleton.mp hf
      exact hjudged returncode transcript hf'

theorem Ran.worst_eq (h : Ran setting e s outcome s') : s'.worst = s.worst := by
  cases h <;> rfl

/-- One more experiment. -/
theorem Sound.step (h : Sound setting shelf ran s) (hran : Ran setting e s outcome s') :
    Sound setting shelf (ran ++ [e]) ⟨s'.shelf, s'.pending, max s'.worst outcome.status⟩ := by
  rw [hran.worst_eq]
  have hunjudged : (∀ returncode transcript, ¬ Judged setting e returncode transcript) →
      s'.shelf.results = s.shelf.results → s'.shelf.rejected = s.shelf.rejected →
        s'.pending = s.pending →
          Sound setting shelf (ran ++ [e]) ⟨s'.shelf, s'.pending, max s.worst outcome.status⟩ := by
    intro hunjudged hresults hrejected hpending
    refine h.next hran (fun filing hfiling => hpending ▸ hfiling)
      (fun filing hfiling => .inl (hpending ▸ hfiling))
      (fun path transcript _ hbacked => absurd hbacked.judged (hunjudged _ _))
      (fun name _ => ⟨congrFun hresults name, congrFun hrejected name⟩)
      (.inl (congrFun hresults _)) fun returncode transcript hjudged =>
        absurd hjudged (hunjudged _ _)
  cases hran with
  | skipped absent =>
    refine hunjudged (fun returncode transcript hjudged => ?_) rfl rfl rfl
    rw [hjudged.1.present] at absent
    cases absent
  | unread unsettled unjudged => exact hunjudged unjudged rfl rfl rfl
  | expired ready timed_out =>
    refine hunjudged (fun returncode transcript hjudged => ?_) rfl rfl rfl
    rw [hjudged.2.1] at timed_out
    cases timed_out
  | @rejected returncode transcript judged unbacked =>
    have hbacked : ∀ returncode' transcript',
        ¬ Backed setting e.1 e.2 returncode' transcript' := by
      intro returncode' transcript' hbacked
      obtain ⟨rfl, rfl⟩ := judged.unique hbacked.judged
      exact unbacked hbacked
    refine h.next (.rejected judged unbacked) (fun _ hfiling => hfiling)
      (fun _ hfiling => .inl hfiling) (fun _ _ _ hqueued => absurd hqueued (hbacked _ _))
        (fun name hname => ⟨Function.update_of_ne hname .., Function.update_of_ne hname ..⟩)
          (.inr (.inl (Function.update_self ..))) fun returncode' transcript' hjudged => ?_
    obtain ⟨rfl, rfl⟩ := judged.unique hjudged
    exact .inr ⟨unbacked, Function.update_self .., Function.update_self ..⟩
  | @failed returncode transcript judged backed nonzero =>
    refine h.next (.failed judged backed nonzero) (fun _ hfiling => hfiling)
      (fun _ hfiling => .inl hfiling)
        (fun _ _ _ hqueued => absurd (judged.unique hqueued.judged).1.symm nonzero)
          (fun name hname => ⟨Function.update_of_ne hname .., rfl⟩)
            (.inr (.inr ⟨returncode, transcript, Function.update_self .., backed⟩))
              fun returncode' transcript' hjudged => ?_
    obtain ⟨rfl, rfl⟩ := judged.unique hjudged
    exact .inl ⟨backed, Function.update_self ..⟩
  | @ok transcript judged backed =>
    refine h.next (.ok judged backed) (fun _ hfiling => List.mem_append_left _ hfiling)
      (fun filing hfiling => ?_) (fun path transcript' hpath hqueued => ?_)
        (fun name hname => ⟨Function.update_of_ne hname .., rfl⟩)
          (.inr (.inr ⟨0, transcript, Function.update_self .., backed⟩))
            fun returncode' transcript' hjudged => ?_
    · rcases List.mem_append.mp hfiling with hfiling | hfiling
      · exact .inl hfiling
      · obtain ⟨path, hpath, rfl⟩ := Option.map_eq_some_iff.mp (Option.mem_toList.mp hfiling)
        exact .inr ⟨hpath, backed⟩
    · obtain ⟨-, rfl⟩ := judged.unique hqueued.judged
      refine List.mem_append_right _ (Option.mem_toList.mpr ?_)
      rw [hpath]
      rfl
    · obtain ⟨rfl, rfl⟩ := judged.unique hjudged
      exact .inl ⟨backed, Function.update_self ..⟩

/-- What all of them come to, or those before the one that died. -/
theorem runAll_sound {rest : List (Experiment × Looks)} (h : Sound setting shelf ran s)
    {finished : Bool} (hall : runAll setting rest s = (finished, s')) :
    ∃ done, Sound setting shelf (ran ++ done) s' ∧ (finished = true → done = rest) ∧
      (finished = false → ∃ dead after, rest = done ++ dead :: after ∧ Dies setting dead) := by
  induction rest generalizing ran s with
  | nil =>
    obtain ⟨rfl, rfl⟩ := Prod.mk.inj hall
    exact ⟨[], by rwa [List.append_nil], fun _ => rfl, fun h => by cases h⟩
  | cons e rest ih =>
    rw [runAll] at hall
    split at hall
    · next hdead =>
      obtain ⟨rfl, rfl⟩ := Prod.mk.inj hall
      refine ⟨[], by rwa [List.append_nil], fun h => ?_, fun _ => ?_⟩
      · cases h
      · exact ⟨e, rest, rfl, run_eq_none.mp hdead⟩
    · next outcome detail s'' hrun =>
      obtain ⟨done, hsound, hfinished, hdied⟩ := ih (h.step (run_ran hrun)) hall
      rw [List.append_assoc] at hsound
      refine ⟨e :: done, hsound, fun h => by rw [hfinished h], fun h => ?_⟩
      obtain ⟨dead, after, hrest, hdead⟩ := hdied h
      exact ⟨dead, after, by rw [hrest, List.cons_append], hdead⟩

theorem runAll_finished {rest : List (Experiment × Looks)} {finished : Bool}
    (hall : runAll setting rest s = (finished, s')) :
    finished = true ↔ ∀ e ∈ rest, ¬ Dies setting e := by
  induction rest generalizing s with
  | nil =>
    obtain ⟨rfl, -⟩ := Prod.mk.inj hall
    simp
  | cons e rest ih =>
    rw [runAll] at hall
    split at hall
    · next hdead =>
      obtain ⟨rfl, -⟩ := Prod.mk.inj hall
      simp [run_eq_none.mp hdead]
    · next hrun =>
      have halive : ¬ Dies setting e := by
        intro hdead
        rw [run_eq_none.mpr hdead] at hrun
        cases hrun
      rw [ih hall, List.forall_mem_cons, and_iff_right halive]

/-! ## Filing -/

theorem fileResults_spec {writable : String → Bool} {pending : List Filing}
    {tree tree' : String → Option String} {finished : Bool}
    (h : fileResults writable pending tree = (finished, tree')) :
    (∀ path, tree' path = tree path ∨ ∃ filing ∈ pending, filing.path = path ∧
      tree' path = some filing.transcript) ∧
    (finished = true → ∀ filing ∈ pending, ∃ last ∈ pending, last.path = filing.path ∧
      tree' filing.path = some last.transcript) := by
  induction pending generalizing tree with
  | nil =>
    obtain ⟨-, rfl⟩ := Prod.mk.inj h
    exact ⟨fun _ => .inl rfl, fun _ _ hfiling => absurd hfiling List.not_mem_nil⟩
  | cons filing pending ih =>
    rw [fileResults] at h
    split at h
    · obtain ⟨hshown, hfiled⟩ := ih h
      have hfirst : ∀ path, tree' path = tree path ∨ ∃ last ∈ filing :: pending,
          last.path = path ∧ tree' path = some last.transcript := by
        intro path
        rcases hshown path with hsame | ⟨last, hlast, hpath⟩
        · by_cases hpath : path = filing.path
          · subst hpath
            rw [Function.update_self] at hsame
            exact .inr ⟨filing, List.mem_cons_self, rfl, hsame⟩
          · rw [Function.update_of_ne hpath] at hsame
            exact .inl hsame
        · exact .inr ⟨last, List.mem_cons_of_mem _ hlast, hpath⟩
      refine ⟨hfirst, fun hfinished other hother => ?_⟩
      rcases List.mem_cons.mp hother with rfl | hother
      · rcases hshown other.path with hsame | ⟨last, hlast, hpath⟩
        · rw [Function.update_self] at hsame
          exact ⟨other, List.mem_cons_self, rfl, hsame⟩
        · exact ⟨last, List.mem_cons_of_mem _ hlast, hpath⟩
      · obtain ⟨last, hlast, hpath⟩ := hfiled hfinished other hother
        exact ⟨last, List.mem_cons_of_mem _ hlast, hpath⟩
    · obtain ⟨rfl, rfl⟩ := Prod.mk.inj h
      exact ⟨fun _ => .inl rfl, fun h => by cases h⟩

/-! ## An invocation files evidence only -/

/-- What an invocation stands for: what it filed, what it kept, and what its exit status says. -/
structure Honest (setting : Setting) (registered : List (Experiment × Looks)) (only : List String)
    (tree : String → Option String) (shelf : Shelf) (inv : Invocation) : Prop where
  filed : ∀ path, inv.tree path = tree path ∨ ∃ e ∈ chosen registered only,
    e.1.resultPath = some path ∧ ∃ transcript, inv.tree path = some transcript ∧
      Backed setting e.1 e.2 0 transcript
  kept : ∀ name, inv.shelf.results name = shelf.results name ∨ inv.shelf.results name = none ∨
    ∃ e ∈ chosen registered only, e.1.name = name ∧ ∃ returncode transcript,
      inv.shelf.results name = some transcript ∧ Backed setting e.1 e.2 returncode transcript
  together : (∃ e ∈ chosen registered only, Dies setting e) →
    inv.tree = tree ∧ inv.status = 1
  stale : unknownNames registered only = [] →
    ((chosen registered only).map fun e => e.1.name).Nodup →
      ∀ before e after, chosen registered only = before ++ e :: after →
        (∀ f ∈ before, ¬ Dies setting f) → ∀ returncode transcript,
          Judged setting e returncode transcript →
            Backed setting e.1 e.2 returncode transcript ∧
                inv.shelf.results e.1.name = some transcript ∨
              ¬ Backed setting e.1 e.2 returncode transcript ∧
                inv.shelf.results e.1.name = none ∧ inv.shelf.rejected e.1.name = some transcript
  known : inv.status ≠ 1 → unknownNames registered only = []
  clean : inv.status = 0 → ∀ e ∈ chosen registered only, Clean setting e ∧
    ∀ path transcript, e.1.resultPath = some path → Backed setting e.1 e.2 0 transcript →
      ∃ f ∈ chosen registered only, f.1.resultPath = some path ∧
        ∃ last, inv.tree path = some last ∧ Backed setting f.1 f.2 0 last
  uncitable : inv.status = 2 → ∃ e ∈ chosen registered only, ¬ Settled setting e

/-- An invocation that filed what it could: all experiments ended. -/
theorem honest_of_finished {registered : List (Experiment × Looks)} {only : List String}
    {tree tree' : String → Option String} {writable : String → Bool} {filed : Bool}
    (hknown : unknownNames registered only = [])
    (hall : runAll setting (chosen registered only) ⟨shelf, [], 0⟩ = (true, s))
    (hfiled : fileResults writable s.pending tree = (filed, tree')) :
    Honest setting registered only tree shelf
      ⟨if filed then s.worst else 1, tree', s.shelf⟩ := by
  have halive := (runAll_finished hall).mp rfl
  obtain ⟨done, hsound, hdone, -⟩ := runAll_sound (Sound.start shelf) hall
  rw [List.nil_append, hdone rfl] at hsound
  obtain ⟨hshown, hwritten⟩ := fileResults_spec hfiled
  have hbacked : ∀ {path transcript}, ⟨path, transcript⟩ ∈ s.pending →
      ∃ e ∈ chosen registered only, e.1.resultPath = some path ∧
        Backed setting e.1 e.2 0 transcript := fun hpending => hsound.pending _ hpending
  refine ⟨fun path => ?_, hsound.results, fun ⟨e, he, hdead⟩ => absurd hdead (halive e he),
    fun _ hnodup before e after hsplit _ => hsound.judged hnodup e (by simp [hsplit]),
    fun _ => hknown, fun hzero e he => ?_, fun htwo => ?_⟩
  · refine (hshown path).imp_right ?_
    rintro ⟨⟨path, transcript⟩, hpending, rfl, htree⟩
    obtain ⟨e, he, hpath, htranscript⟩ := hbacked hpending
    exact ⟨e, he, hpath, transcript, htree, htranscript⟩
  · cases filed with
    | false => cases hzero
    | true =>
      refine ⟨hsound.clean.mp hzero e he, fun path transcript hpath htranscript => ?_⟩
      have hqueued := hsound.queued e he path transcript hpath htranscript
      obtain ⟨⟨path', last⟩, hlast, rfl, htree⟩ := hwritten rfl _ hqueued
      obtain ⟨f, hf, hpath, hevidence⟩ := hbacked hlast
      exact ⟨f, hf, hpath, last, htree, hevidence⟩
  · cases filed with
    | false => cases htwo
    | true => exact hsound.uncitable.mp htwo

/-- What comes before any that dies is among those that were done before the first did. -/
theorem mem_of_before_dead {done rest before after : List (Experiment × Looks)}
    {dead : Experiment × Looks} (h : done ++ dead :: rest = before ++ e :: after)
    (hdead : Dies setting dead) (hbefore : ∀ f ∈ before, ¬ Dies setting f)
    (halive : ¬ Dies setting e) : e ∈ done := by
  rcases List.append_eq_append_iff.mp h with ⟨front, hfront, hrest⟩ | ⟨back, hback, hrest⟩
  · cases front with
    | nil =>
      obtain ⟨rfl, -⟩ := List.cons.inj hrest
      exact absurd hdead halive
    | cons first front =>
      obtain ⟨rfl, -⟩ := List.cons.inj hrest
      exact absurd hdead (hbefore dead (by simp [hfront]))
  · cases back with
    | nil =>
      obtain ⟨rfl, -⟩ := List.cons.inj hrest
      exact absurd hdead halive
    | cons first back =>
      obtain ⟨rfl, -⟩ := List.cons.inj hrest
      simp [hback]

/-- An invocation that ended before it filed anything. -/
theorem honest_of_unfiled {registered : List (Experiment × Looks)} {only : List String}
    {tree : String → Option String} {after : Shelf}
    (hkept : ∀ name, after.results name = shelf.results name ∨ after.results name = none ∨
      ∃ e ∈ chosen registered only, e.1.name = name ∧ ∃ returncode transcript,
        after.results name = some transcript ∧ Backed setting e.1 e.2 returncode transcript)
    (hstale : unknownNames registered only = [] →
      ((chosen registered only).map fun e => e.1.name).Nodup →
        ∀ before e rest, chosen registered only = before ++ e :: rest →
          (∀ f ∈ before, ¬ Dies setting f) → ∀ returncode transcript,
            Judged setting e returncode transcript →
              Backed setting e.1 e.2 returncode transcript ∧
                  after.results e.1.name = some transcript ∨
                ¬ Backed setting e.1 e.2 returncode transcript ∧
                  after.results e.1.name = none ∧ after.rejected e.1.name = some transcript) :
    Honest setting registered only tree shelf ⟨1, tree, after⟩ where
  filed _ := .inl rfl
  kept := hkept
  together _ := ⟨rfl, rfl⟩
  stale := hstale
  known h := absurd rfl h
  clean h := by cases h
  uncitable h := by cases h

/-- Whatever the experiments do to the repository while they run, an invocation files a transcript
only of an experiment that succeeded and whose transcript is backed, and only after all of them have
ended; it keeps no result of a transcript that was rejected, also where a later experiment makes it
die; and its exit status is zero only where every experiment was clean and is filed. -/
theorem invocation_honest (setting : Setting) (registered : List (Experiment × Looks))
    (only : List String) (writable : String → Bool) (tree : String → Option String)
    (shelf : Shelf) : Honest setting registered only tree shelf
      (main setting registered only writable tree shelf) := by
  rw [main]
  split
  · next hunknown =>
    have hunknown : unknownNames registered only ≠ [] := by simpa using hunknown
    exact honest_of_unfiled (fun _ => .inl rfl) fun hknown => absurd hknown hunknown
  · next hknown =>
    have hknown : unknownNames registered only = [] := by simpa using hknown
    split
    · next s hall =>
      obtain ⟨done, hsound, -, hdied⟩ := runAll_sound (Sound.start shelf) hall
      obtain ⟨dead, rest, hchosen, hdead⟩ := hdied rfl
      rw [List.nil_append] at hsound
      have hdone : done <+: chosen registered only := hchosen ▸ List.prefix_append _ _
      refine honest_of_unfiled (fun name => ?_) fun _ hnodup before e after hsplit halive
        returncode transcript hjudged => ?_
      · refine (hsound.results name).imp_right (Or.imp_right ?_)
        rintro ⟨e, he, hresult⟩
        exact ⟨e, hdone.subset he, hresult⟩
      · refine hsound.judged (hnodup.sublist (hdone.sublist.map _)) e ?_ _ _ hjudged
        exact mem_of_before_dead (hchosen.symm.trans hsplit) hdead halive hjudged.not_dies
    · next s hall =>
      split
      · next filed hfiled => exact honest_of_finished hknown hall hfiled
      · next filed hfiled => exact honest_of_finished hknown hall hfiled

end MissionCompiler.Experiments
