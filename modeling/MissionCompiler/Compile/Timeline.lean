import Mathlib.Algebra.Order.Field.Rat
import Mathlib.Data.Sym.Sym2
import Mathlib.Order.Interval.Set.LinearOrder
import MissionCompiler.Compile.Unique
import MissionCompiler.Lib.Pairs

/-!
# Acquisitions that overlap

`analyze_timeline_conflicts`, with times as rational numbers of seconds. The windows are half
open, so windows that touch share no instant, and an empty one shares none with any. A conflict is
about two positions of the plan: identical events are in conflict, and are reported with equal
texts.
-/

namespace MissionCompiler.Compile

open Lib Schema Names

/-! ## The code -/

def isLeap (year : Nat) : Bool := year % 4 == 0 && (year % 100 != 0 || year % 400 == 0)

/-- `datetime.toordinal()`: the days since the year 1 began, in the Gregorian calendar. -/
def toordinal (ts : Timestamp) : Nat :=
  let years := ts.year - 1
  let beforeMonth := [0, 31, 59, 90, 120, 151, 181, 212, 243, 273, 304, 334].getD (ts.month - 1) 0
  years * 365 + years / 4 - years / 100 + years / 400 + beforeMonth +
    (if 2 < ts.month && isLeap ts.year then 1 else 0) + ts.day

/-- `datetime.timestamp()`: the seconds since 1970 began in UTC. -/
def posixTimestamp (ts : Timestamp) : Rat :=
  let days : Int := toordinal ts - 719163
  let seconds : Int := days * 86400 + ts.hour * 3600 + ts.minute * 60 + ts.second -
    ts.offsetMinutes * 60
  seconds + (ts.microsecond : Rat) / 1000000

/-- `round(x, 2)`, half to even. -/
def round2 (x : Rat) : Rat :=
  let n := (x * 100).floor
  let rest := x * 100 - n
  let rounded := if rest < 1 / 2 then n else if 1 / 2 < rest then n + 1
    else if n % 2 = 0 then n else n + 1
  (rounded : Rat) / 100

/-- An entry of `acq_events`. -/
structure AcquisitionWindow where
  timestamp : String
  start : Rat
  stop : Rat

structure TimelineConflict where
  eventA : String
  eventB : String
  overlapSeconds : Rat
deriving DecidableEq

structure TimelineAnalysis where
  conflicts : List TimelineConflict
  conflictCount : Nat
  skippedTimestamps : List String

/-- The body of the first loop, on `acq_events` and `skipped`. -/
def scanEvent (found : List AcquisitionWindow × List String) (ev : MissionEvent) :
    List AcquisitionWindow × List String :=
  if ev.eventType ≠ .acquisition then found
  else
    let text := toRfc3339Z ev.timestamp
    match ev.durationSeconds with
    | none => (found.1, found.2 ++ [text])
    | some duration =>
      let start := posixTimestamp ev.timestamp
      (found.1 ++ [⟨text, start, start + duration⟩], found.2)

/-- The body of the inner loop. -/
def conflictOf (a b : AcquisitionWindow) : Option TimelineConflict :=
  let maxStart := max a.start b.start
  let minEnd := min a.stop b.stop
  if maxStart < minEnd then some ⟨a.timestamp, b.timestamp, round2 (minEnd - maxStart)⟩ else none

/-- The two nested loops. -/
def conflictsAmong : List AcquisitionWindow → List TimelineConflict
  | [] => []
  | a :: rest => rest.filterMap (conflictOf a) ++ conflictsAmong rest

/-- `analyze_timeline_conflicts`. -/
def analyzeTimelineConflicts (plan : MissionPlan) : TimelineAnalysis :=
  let found := plan.events.foldl scanEvent ([], [])
  let conflicts := conflictsAmong found.1
  ⟨conflicts, conflicts.length, found.2⟩

/-- `detect_timeline_conflicts`. -/
def detectTimelineConflicts (plan : MissionPlan) : List TimelineConflict :=
  (analyzeTimelineConflicts plan).conflicts

/-! ## What is promised -/

/-- The instants of a window. -/
def AcquisitionWindow.instants (w : AcquisitionWindow) : Set Rat := Set.Ico w.start w.stop

/-- The window of an acquisition with a duration. -/
def windowOf (ev : MissionEvent) : Option AcquisitionWindow :=
  if ev.eventType = .acquisition then ev.durationSeconds.map fun duration =>
    ⟨toRfc3339Z ev.timestamp, posixTimestamp ev.timestamp, posixTimestamp ev.timestamp + duration⟩
  else none

/-- An acquisition that does not say how long it takes. -/
def isUntimed (ev : MissionEvent) : Bool :=
  ev.eventType = .acquisition && ev.durationSeconds.isNone

/-- The window of the event at a position of the plan. -/
def WindowAt (plan : MissionPlan) (i : Nat) (w : AcquisitionWindow) : Prop :=
  ∃ ev, plan.events[i]? = some ev ∧ windowOf ev = some w

/-- The windows at two positions share an instant. -/
def Clash (plan : MissionPlan) (i j : Nat) : Prop :=
  ∃ a b, WindowAt plan i a ∧ WindowAt plan j b ∧ (a.instants ∩ b.instants).Nonempty

/-- What is reported of two positions: their texts, and how long what they share is. -/
def Reported (plan : MissionPlan) (p : Nat × Nat) (c : TimelineConflict) : Prop :=
  ∃ a b lo hi, WindowAt plan p.1 a ∧ WindowAt plan p.2 b ∧ lo < hi ∧
    a.instants ∩ b.instants = Set.Ico lo hi ∧
    c = ⟨a.timestamp, b.timestamp, round2 (hi - lo)⟩

/-- One report for each two positions that clash, and the acquisitions without a duration. -/
structure TimelineExact (plan : MissionPlan) : Prop where
  conflicts : ∃ positions : List (Nat × Nat), positions.Nodup ∧
    (∀ i j, (i, j) ∈ positions ↔ i < j ∧ Clash plan i j) ∧
    List.Forall₂ (Reported plan) positions (detectTimelineConflicts plan)
  count : (analyzeTimelineConflicts plan).conflictCount = (detectTimelineConflicts plan).length
  skipped : (analyzeTimelineConflicts plan).skippedTimestamps =
    (plan.events.filter isUntimed).map fun ev => toRfc3339Z ev.timestamp

/-- A conflict, without telling its two events apart. -/
def TimelineConflict.unordered (c : TimelineConflict) : Sym2 String × Rat :=
  (s(c.eventA, c.eventB), c.overlapSeconds)

/-! ## Two windows -/

theorem conflictOf_eq (a b : AcquisitionWindow) :
    conflictOf a b = if max a.start b.start < min a.stop b.stop then
      some ⟨a.timestamp, b.timestamp, round2 (min a.stop b.stop - max a.start b.start)⟩
    else none := rfl

/-- What two windows share. -/
theorem instants_inter (a b : AcquisitionWindow) :
    a.instants ∩ b.instants = Set.Ico (max a.start b.start) (min a.stop b.stop) :=
  Set.Ico_inter_Ico

theorem conflictOf_isSome {a b : AcquisitionWindow} :
    (conflictOf a b).isSome = true ↔ (a.instants ∩ b.instants).Nonempty := by
  rw [instants_inter, Set.nonempty_Ico, conflictOf_eq]
  split <;> simp_all

theorem conflictOf_eq_some {a b : AcquisitionWindow} {c : TimelineConflict}
    (h : conflictOf a b = some c) : ∃ lo hi, lo < hi ∧ a.instants ∩ b.instants = Set.Ico lo hi ∧
      c = ⟨a.timestamp, b.timestamp, round2 (hi - lo)⟩ := by
  rw [conflictOf_eq] at h
  split at h
  next hlt => exact ⟨_, _, hlt, instants_inter a b, (Option.some.inj h).symm⟩
  next => cases h

/-- Which of two windows comes first is seen in the order of the texts only. -/
theorem conflictOf_swap (a b : AcquisitionWindow) :
    (conflictOf a b).map TimelineConflict.unordered =
      (conflictOf b a).map TimelineConflict.unordered := by
  rw [conflictOf_eq, conflictOf_eq, max_comm b.start, min_comm b.stop]
  split
  · exact congrArg (fun texts => some (texts, _)) Sym2.eq_swap
  · rfl

/-! ## The loops -/

theorem conflictsAmong_eq (ws : List AcquisitionWindow) :
    conflictsAmong ws = (pairsOf ws).filterMap fun p => conflictOf p.1 p.2 := by
  induction ws with
  | nil => rfl
  | cons a rest ih =>
    rw [conflictsAmong, pairsOf, List.filterMap_append, List.filterMap_map, ih]
    rfl

/-- What one turn of the first loop finds. -/
theorem scanEvent_eq (found : List AcquisitionWindow × List String) (ev : MissionEvent) :
    scanEvent found ev = (found.1 ++ (windowOf ev).toList,
      found.2 ++ if isUntimed ev then [toRfc3339Z ev.timestamp] else []) := by
  unfold scanEvent windowOf isUntimed
  by_cases hacquisition : ev.eventType = .acquisition
  · cases hduration : ev.durationSeconds <;> simp [hacquisition]
  · simp [hacquisition]

/-- The first loop collects the windows, and the texts of the acquisitions it skips. -/
theorem foldl_scanEvent (events : List MissionEvent)
    (found : List AcquisitionWindow × List String) :
    events.foldl scanEvent found = (found.1 ++ events.filterMap windowOf,
      found.2 ++ (events.filter isUntimed).map fun ev => toRfc3339Z ev.timestamp) := by
  induction events generalizing found with
  | nil => simp
  | cons ev events ih =>
    rw [List.foldl_cons, ih, scanEvent_eq, List.filterMap_cons, List.filter_cons]
    cases hwindow : windowOf ev <;> cases huntimed : isUntimed ev <;> simp

theorem detectTimelineConflicts_eq (plan : MissionPlan) :
    detectTimelineConflicts plan =
      (pairsOf (plan.events.filterMap windowOf)).filterMap fun p => conflictOf p.1 p.2 := by
  rw [← conflictsAmong_eq, detectTimelineConflicts, analyzeTimelineConflicts, foldl_scanEvent]
  rfl

theorem skippedTimestamps_eq (plan : MissionPlan) :
    (analyzeTimelineConflicts plan).skippedTimestamps =
      (plan.events.filter isUntimed).map fun ev => toRfc3339Z ev.timestamp := by
  rw [analyzeTimelineConflicts, foldl_scanEvent]
  rfl

/-! ## Positions -/

/-- The windows of a plan with the positions of their events. -/
def placedWindows (plan : MissionPlan) : List (AcquisitionWindow × Nat) :=
  plan.events.zipIdx.filterMap fun e => (windowOf e.1).map fun w => (w, e.2)

theorem placedWindows_fst (plan : MissionPlan) :
    (placedWindows plan).map Prod.fst = plan.events.filterMap windowOf := by
  have hevents : plan.events.zipIdx.map Prod.fst = plan.events := List.zipIdx_map_fst 0 plan.events
  conv => rhs; rw [← hevents]
  rw [placedWindows, List.map_filterMap, List.filterMap_map]
  refine List.filterMap_congr fun e _ => ?_
  rw [Option.map_map]
  exact Option.map_id'

theorem mem_placedWindows {plan : MissionPlan} {w : AcquisitionWindow} {i : Nat} :
    (w, i) ∈ placedWindows plan ↔ WindowAt plan i w := by
  rw [placedWindows, List.mem_filterMap]
  constructor
  · rintro ⟨⟨ev, j⟩, hmem, h⟩
    obtain ⟨v, hv, hpair⟩ := Option.map_eq_some_iff.mp h
    cases hpair
    exact ⟨ev, List.mem_zipIdx_iff_getElem?.mp hmem, hv⟩
  · rintro ⟨ev, hev, hw⟩
    exact ⟨(ev, i), List.mem_zipIdx_iff_getElem?.mpr hev, by rw [hw]; rfl⟩

/-- The positions come in order. -/
theorem placedWindows_pairwise (plan : MissionPlan) :
    (placedWindows plan).Pairwise fun a b => a.2 < b.2 := by
  have hindexes : plan.events.zipIdx.Pairwise fun a b => a.2 < b.2 := by
    rw [← List.pairwise_map, List.zipIdx_map_snd]
    exact List.pairwise_lt_range'
  refine List.Pairwise.filterMap _ (fun a b hab c hc d hd => ?_) hindexes
  obtain ⟨_, _, rfl⟩ := Option.map_eq_some_iff.mp hc
  obtain ⟨_, _, rfl⟩ := Option.map_eq_some_iff.mp hd
  exact hab

/-- The positions of the pairs that clash. -/
def clashing (plan : MissionPlan) : List (Nat × Nat) :=
  ((pairsOf (placedWindows plan)).filter fun p => (conflictOf p.1.1 p.2.1).isSome).map
    (Prod.map Prod.snd Prod.snd)

theorem mem_pairsOf_placedWindows {plan : MissionPlan} {p q : AcquisitionWindow × Nat} :
    (p, q) ∈ pairsOf (placedWindows plan) ↔
      WindowAt plan p.2 p.1 ∧ WindowAt plan q.2 q.1 ∧ p.2 < q.2 := by
  rw [← mem_placedWindows, ← mem_placedWindows]
  exact mem_pairsOf (fun a => Nat.lt_irrefl a.2) (fun a b h => Nat.lt_asymm h)
    (placedWindows_pairwise plan)

theorem nodup_clashing (plan : MissionPlan) : (clashing plan).Nodup := by
  have hpositions : ((placedWindows plan).map Prod.snd).Nodup := by
    rw [List.nodup_iff_pairwise_ne, List.pairwise_map]
    exact (placedWindows_pairwise plan).imp fun h => Nat.ne_of_lt h
  have hpairs := nodup_pairsOf hpositions
  rw [pairsOf_map] at hpairs
  exact hpairs.sublist (List.filter_sublist.map _)

theorem mem_clashing {plan : MissionPlan} {i j : Nat} :
    (i, j) ∈ clashing plan ↔ i < j ∧ Clash plan i j := by
  rw [clashing, List.mem_map]
  constructor
  · rintro ⟨⟨⟨a, _⟩, b, _⟩, hmem, heq⟩
    cases heq
    obtain ⟨hpair, hsome⟩ := List.mem_filter.mp hmem
    obtain ⟨ha, hb, hlt⟩ := mem_pairsOf_placedWindows.mp hpair
    exact ⟨hlt, a, b, ha, hb, conflictOf_isSome.mp hsome⟩
  · rintro ⟨hlt, a, b, ha, hb, hshared⟩
    refine ⟨((a, i), (b, j)), List.mem_filter.mpr ⟨?_, conflictOf_isSome.mpr hshared⟩, rfl⟩
    exact mem_pairsOf_placedWindows.mpr ⟨ha, hb, hlt⟩

/-- The reports stand beside the positions they are about. -/
theorem clashing_reported (plan : MissionPlan) :
    List.Forall₂ (Reported plan) (clashing plan) (detectTimelineConflicts plan) := by
  rw [detectTimelineConflicts_eq, ← placedWindows_fst, pairsOf_map, List.filterMap_map]
  refine forall₂_filter_filterMap fun p hp c hc => ?_
  obtain ⟨ha, hb, _⟩ := mem_pairsOf_placedWindows.mp hp
  obtain ⟨lo, hi, hlt, hshared, heq⟩ := conflictOf_eq_some hc
  exact ⟨p.1.1, p.2.1, lo, hi, ha, hb, hlt, hshared, heq⟩

theorem timelineExact (plan : MissionPlan) : TimelineExact plan where
  conflicts := ⟨clashing plan, nodup_clashing plan, fun _ _ => mem_clashing,
    clashing_reported plan⟩
  count := rfl
  skipped := skippedTimestamps_eq plan

/-! ## Reordering a plan -/

theorem conflicts_perm {plan plan' : MissionPlan} (h : plan.events.Perm plan'.events) :
    ((detectTimelineConflicts plan).map TimelineConflict.unordered).Perm
      ((detectTimelineConflicts plan').map TimelineConflict.unordered) := by
  rw [detectTimelineConflicts_eq, detectTimelineConflicts_eq, List.map_filterMap,
    List.map_filterMap]
  exact filterMap_pairsOf_perm conflictOf_swap (h.filterMap windowOf)

theorem skipped_perm {plan plan' : MissionPlan} (h : plan.events.Perm plan'.events) :
    (analyzeTimelineConflicts plan).skippedTimestamps.Perm
      (analyzeTimelineConflicts plan').skippedTimestamps := by
  rw [skippedTimestamps_eq, skippedTimestamps_eq]
  exact (h.filter _).map _

/-- The conflicts of a plan are those of its windows, each once, and the order of its events is
seen in the order of the reports only. -/
theorem timeline_conflicts_exact (plan : MissionPlan) :
    TimelineExact plan ∧ ∀ plan' : MissionPlan, plan.events.Perm plan'.events →
      ((detectTimelineConflicts plan).map TimelineConflict.unordered).Perm
        ((detectTimelineConflicts plan').map TimelineConflict.unordered) ∧
      (analyzeTimelineConflicts plan).skippedTimestamps.Perm
        (analyzeTimelineConflicts plan').skippedTimestamps :=
  ⟨timelineExact plan, fun _ h => ⟨conflicts_perm h, skipped_perm h⟩⟩

theorem checked_acquisition {event : EventFields} (hacquisition : event.eventType = .acquisition)
    (hinstrument : absentOrBlank event.instrument = false) :
    checkEventConstraints event = .ok () := by
  simp [checkEventConstraints, hacquisition, hinstrument]
  rfl

theorem untimed_nonneg : ∀ d ∈ (none : Option Rat), 0 ≤ d := by simp

theorem cam_notBlank : absentOrBlank (some "cam") = false := by decide

def acquisitionAt (minute : Nat) (hminute : minute < 60) (duration : Option Rat)
    (hduration : ∀ d ∈ duration, 0 ≤ d) : MissionEvent where
  timestamp := { noon with minute := minute, minute_lt := hminute }
  eventType := .acquisition
  orbit := none
  durationSeconds := duration
  instrument := some "cam"
  sensor := none
  groundVisibility := false
  regionType := none
  services := []
  duration_nonneg := hduration
  checked := checked_acquisition rfl cam_notBlank

/-- The first two windows overlap, the third begins where the second ends, and the fourth event
does not say how long it takes. -/
def timelineEvents : List MissionEvent :=
  [acquisitionAt 41 (by decide) (some 120) (by decide),
    acquisitionAt 42 (by decide) (some 120) (by decide),
    acquisitionAt 44 (by decide) (some 90) (by decide),
    acquisitionAt 42 (by decide) none untimed_nonneg]

def timelinePlan : MissionPlan :=
  ⟨"m1", none, timelineEvents, repeatedPlan.missionId_notBlank, by decide⟩

def reversedPlan : MissionPlan :=
  ⟨"m1", none, timelineEvents.reverse, repeatedPlan.missionId_notBlank, by decide⟩

theorem timeline_conflicts_exact_reversed :
    detectTimelineConflicts timelinePlan =
        [⟨"2026-03-01T12:41:00Z", "2026-03-01T12:42:00Z", 60⟩] ∧
      TimelineExact timelinePlan ∧
      ((detectTimelineConflicts timelinePlan).map TimelineConflict.unordered).Perm
        ((detectTimelineConflicts reversedPlan).map TimelineConflict.unordered) ∧
      (analyzeTimelineConflicts timelinePlan).skippedTimestamps.Perm
        (analyzeTimelineConflicts reversedPlan).skippedTimestamps := by
  obtain ⟨hexact, hperm⟩ := timeline_conflicts_exact timelinePlan
  refine ⟨by decide +kernel, hexact, hperm reversedPlan ?_⟩
  exact (List.reverse_perm timelineEvents).symm

end MissionCompiler.Compile
