import Mathlib.Algebra.BigOperators.Group.Finset.Basic
import Mathlib.Algebra.Order.Floor.Semiring
import Mathlib.Data.Rat.Floor
import Mathlib.Tactic.Linarith
import Mathlib.Tactic.Ring

/-!
# Polling until a deadline

A loop that asks again and again, and sleeps in between: for a fixed time, or for what is left until
the deadline where that is shorter. A clock that never runs backwards, and sleep that lasts as long
as it was asked to, bound the number of turns and the time slept.
-/

namespace Lib

/-! ## The loop -/

section

variable {β : Type} (answer : Nat → Option β)

/-- The first turn from a given one on that has an answer. -/
def poll : Nat → Nat → Option (Nat × β)
  | 0, _ => none
  | fuel + 1, n =>
    match answer n with
    | some b => some (n, b)
    | none => poll fuel (n + 1)

variable {answer}

theorem poll_eq_some {fuel n k : Nat} {b : β} : poll answer fuel n = some (k, b) ↔
    n ≤ k ∧ k < n + fuel ∧ answer k = some b ∧ ∀ m, n ≤ m → m < k → answer m = none := by
  induction fuel generalizing n with
  | zero =>
    simp only [poll, reduceCtorEq, false_iff]
    rintro ⟨hle, hlt, -⟩
    omega
  | succ fuel ih =>
    rw [poll]
    cases hn : answer n with
    | some c =>
      simp only [Option.some.injEq, Prod.mk.injEq]
      constructor
      · rintro ⟨rfl, rfl⟩
        exact ⟨le_rfl, by omega, hn, fun m hle hlt => absurd hle (by omega)⟩
      · rintro ⟨hle, -, hk, hbefore⟩
        obtain rfl : n = k := by
          by_contra hne
          have hnone := hbefore n le_rfl (by omega)
          rw [hn] at hnone
          cases hnone
        exact ⟨rfl, Option.some.inj (hn.symm.trans hk)⟩
    | none =>
      simp only [ih]
      constructor
      · rintro ⟨hle, hlt, hk, hbefore⟩
        refine ⟨by omega, by omega, hk, fun m hm hlt => ?_⟩
        rcases Nat.eq_or_lt_of_le hm with rfl | hm
        · exact hn
        · exact hbefore m hm hlt
      · rintro ⟨hle, hlt, hk, hbefore⟩
        have hne : n ≠ k := by
          rintro rfl
          rw [hn] at hk
          cases hk
        exact ⟨by omega, by omega, hk, fun m hm => hbefore m (by omega)⟩

/-- A turn with an answer that the fuel reaches ends the loop. -/
theorem exists_poll {fuel k : Nat} (hk : (answer k).isSome = true) (hlt : k < fuel) :
    ∃ n ≤ k, ∃ b, poll answer fuel 0 = some (n, b) := by
  classical
  have hex : ∃ n, (answer n).isSome = true := ⟨k, hk⟩
  obtain ⟨b, hb⟩ := Option.isSome_iff_exists.mp (Nat.find_spec hex)
  have hle : Nat.find hex ≤ k := Nat.find_le hk
  refine ⟨Nat.find hex, hle, b, poll_eq_some.mpr ⟨Nat.zero_le _, by omega, hb, fun m _ hm => ?_⟩⟩
  simpa using Nat.find_min hex hm

end

/-! ## The clock -/

/-- How long a turn sleeps. -/
def pause (step now deadline : Rat) : Rat := min step (max 0 (deadline - now))

/-- The readings of a clock: the first before the loop, and two in each turn, of which the second
is the one the pause is computed from. -/
structure Ticks (step deadline : Rat) (clock : Nat → Rat) : Prop where
  onward : ∀ n, clock n ≤ clock (n + 1)
  slept : ∀ n, clock (2 * n + 2) + pause step (clock (2 * n + 2)) deadline ≤ clock (2 * n + 3)

/-- The pauses of the turns before a given one. -/
def pauses (step deadline : Rat) (clock : Nat → Rat) (n : Nat) : Rat :=
  ∑ k ∈ Finset.range n, pause step (clock (2 * k + 2)) deadline

variable {step timeout : Rat} {clock : Nat → Rat}

/-- The clock shows at least the time slept. -/
theorem Ticks.pauses_le (h : Ticks step (clock 0 + timeout) clock) (n : Nat) :
    clock 0 + pauses step (clock 0 + timeout) clock n ≤ clock (2 * n + 1) := by
  induction n with
  | zero => simpa [pauses] using h.onward 0
  | succ n ih =>
    have hslept := h.slept n
    have honward := h.onward (2 * n + 1)
    rw [pauses, Finset.sum_range_succ, ← pauses]
    rw [show 2 * (n + 1) + 1 = 2 * n + 3 by ring]
    linarith

/-- Together the pauses last no longer than the timeout. -/
theorem Ticks.pauses_le_timeout (h : Ticks step (clock 0 + timeout) clock)
    (htimeout : 0 ≤ timeout) (n : Nat) :
    pauses step (clock 0 + timeout) clock n ≤ timeout := by
  induction n with
  | zero => simpa [pauses] using htimeout
  | succ n ih =>
    have hshown := h.pauses_le n
    have honward := h.onward (2 * n + 1)
    rw [pauses, Finset.sum_range_succ, ← pauses]
    rcases le_total (clock 0 + timeout) (clock (2 * n + 2)) with hlate | hearly
    · have hzero : pause step (clock (2 * n + 2)) (clock 0 + timeout) ≤ 0 :=
        (min_le_right _ _).trans (max_le le_rfl (by linarith))
      linarith
    · have hrest : pause step (clock (2 * n + 2)) (clock 0 + timeout) ≤
          clock 0 + timeout - clock (2 * n + 2) :=
        (min_le_right _ _).trans (max_le (by linarith) le_rfl)
      linarith

/-- A turn finds the deadline past, or as many whole steps behind it as there were turns. -/
theorem Ticks.shows (h : Ticks step (clock 0 + timeout) clock) (n : Nat) :
    clock 0 + timeout ≤ clock (2 * n + 1) ∨ clock 0 + n * step ≤ clock (2 * n + 1) := by
  induction n with
  | zero =>
    right
    simpa using h.onward 0
  | succ n ih =>
    have hslept := h.slept n
    have honward := h.onward (2 * n + 1)
    rw [show 2 * (n + 1) + 1 = 2 * n + 3 by ring]
    push_cast
    rcases le_total step (max 0 (clock 0 + timeout - clock (2 * n + 2))) with hstep | hrest
    · rw [pause, min_eq_left hstep] at hslept
      have hmono := h.onward (2 * n + 2)
      rcases ih with hlate | hshown
      · left
        linarith
      · right
        linarith
    · left
      have hmax := le_max_right 0 (clock 0 + timeout - clock (2 * n + 2))
      rw [pause, min_eq_right hrest] at hslept
      linarith

/-- The turn that finds the deadline past, whatever came before. -/
theorem Ticks.deadline_past (h : Ticks step (clock 0 + timeout) clock) (hstep : 0 < step) :
    clock 0 + timeout ≤ clock (2 * ⌈timeout / step⌉₊ + 1) := by
  rcases h.shows ⌈timeout / step⌉₊ with hlate | hshown
  · exact hlate
  · have hceil := (div_le_iff₀ hstep).mp (Nat.le_ceil (timeout / step))
    linarith

end Lib
