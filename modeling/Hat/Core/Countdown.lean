import Mathlib.Algebra.Order.Field.Basic
import Mathlib.Data.Nat.Basic
import Mathlib.Tactic.Linarith
import Mathlib.Tactic.Ring

/-!
# Countdowns

A countdown is lowered by a fixed step at every tick and runs out when nothing is left.
One that is then started anew runs out once in every full count; one that is not runs
out at every tick from the first count on.
-/

namespace Hat.Countdown

variable {K : Type*} [Field K] [LinearOrder K]

def RunsOut (step left : K) : Prop := left - step ≤ 0

instance (step left : K) : Decidable (RunsOut step left) :=
  inferInstanceAs (Decidable (left - step ≤ 0))

/-- One tick of a countdown that starts anew from `full`. -/
def tick (step full left : K) : K := if RunsOut step left then full else left - step

/-- The ticks among the first `n` at which a countdown runs out. -/
def runs (step : K) (next : K → K) (left : K) (n : ℕ) : ℕ :=
  (List.range n).countP fun i => RunsOut step (next^[i] left)

theorem runs_zero (step : K) (next : K → K) (left : K) : runs step next left 0 = 0 := rfl

theorem runs_succ (step : K) (next : K → K) (left : K) (n : ℕ) :
    runs step next left (n + 1) =
      runs step next left n + if RunsOut step (next^[n] left) then 1 else 0 := by
  rw [runs, List.range_succ, List.countP_append, ← runs]
  simp [List.countP_cons]

/-- Seen from the first tick. -/
theorem runs_succ' (step : K) (next : K → K) (left : K) (n : ℕ) :
    runs step next left (n + 1) =
      (if RunsOut step left then 1 else 0) + runs step next (next left) n := by
  induction n with
  | zero => rw [runs_succ, runs_zero, runs_zero, Function.iterate_zero_apply, add_comm]
  | succ n ih =>
      rw [runs_succ, ih, runs_succ step next (next left) n, Function.iterate_succ_apply,
        Nat.add_assoc]

theorem succ_mod {k : ℕ} (hk : 0 < k) (n : ℕ) :
    (n + 1) % k = if k = n % k + 1 then 0 else n % k + 1 := by
  have hmod : (n + 1) % k = (n % k + 1) % k := by
    calc (n + 1) % k = (k * (n / k) + (n % k + 1)) % k := by
          rw [← Nat.add_assoc, Nat.div_add_mod]
      _ = (n % k + 1) % k := Nat.mul_add_mod k (n / k) (n % k + 1)
  have hlt : n % k < k := Nat.mod_lt n hk
  rw [hmod]
  split
  · rename_i hlast
    rw [← hlast, Nat.mod_self]
  · exact Nat.mod_eq_of_lt (by omega)

section

variable [IsStrictOrderedRing K] {step : K} (hstep : 0 < step)
include hstep

theorem runsOut_iff {k m : ℕ} (hm : m < k) :
    RunsOut step (k * step - m * step) ↔ k = m + 1 := by
  have hsub : (k : K) * step - m * step - step = (k - (m + 1)) * step := by
    ring
  have hle : (m : K) + 1 ≤ k := by
    exact_mod_cast hm
  rw [RunsOut, hsub]
  constructor
  · intro hnonpos
    have hfactor : (k : K) - (m + 1) ≤ 0 := nonpos_of_mul_nonpos_left hnonpos hstep
    have heq : (k : K) = m + 1 := le_antisymm (by linarith) hle
    exact_mod_cast heq
  · rintro rfl
    simp

/-- What is left after `n` ticks. -/
theorem iterate_tick {k : ℕ} (hk : 0 < k) (n : ℕ) :
    (tick step (k * step))^[n] (k * step) = k * step - (n % k : ℕ) * step := by
  induction n with
  | zero => simp
  | succ n ih =>
      have hlt : n % k < k := Nat.mod_lt n hk
      rw [Function.iterate_succ_apply', ih, tick]
      by_cases hlast : k = n % k + 1
      · rw [if_pos ((runsOut_iff hstep hlt).mpr hlast), succ_mod hk, if_pos hlast]
        simp
      · rw [if_neg fun hruns => hlast ((runsOut_iff hstep hlt).mp hruns), succ_mod hk,
          if_neg hlast]
        push_cast
        ring

/-- A countdown that starts anew runs out once in every full count. -/
theorem runs_tick {k : ℕ} (hk : 0 < k) (n : ℕ) :
    runs step (tick step (k * step)) (k * step) n = n / k := by
  induction n with
  | zero => rw [runs_zero, Nat.zero_div]
  | succ n ih =>
      have hlt : n % k < k := Nat.mod_lt n hk
      have hlast : k = n % k + 1 ↔ k ∣ n + 1 := by
        rw [Nat.dvd_iff_mod_eq_zero, succ_mod hk]
        split <;> omega
      rw [runs_succ, ih, iterate_tick hstep hk, Nat.succ_div]
      simp only [runsOut_iff hstep hlt, hlast]

/-- Without a new start it runs out at the end of the first full count and at every
tick from then on. -/
theorem runs_sub {k : ℕ} (hk : 0 < k) (n : ℕ) :
    runs step (fun left => left - step) (k * step) n = n + 1 - k := by
  have hiterate : ∀ n : ℕ,
      (fun left => left - step)^[n] (k * step) = (k : K) * step - n * step := by
    intro n
    induction n with
    | zero => simp
    | succ n ih =>
        rw [Function.iterate_succ_apply', ih]
        push_cast
        ring
  induction n with
  | zero => simp [runs_zero, Nat.sub_eq_zero_of_le hk]
  | succ n ih =>
      have hruns : RunsOut step ((k : K) * step - n * step) ↔ k ≤ n + 1 := by
        have hsub : (k : K) * step - n * step - step = (k - (n + 1 : ℕ)) * step := by
          push_cast
          ring
        rw [RunsOut, hsub]
        constructor
        · intro hnonpos
          exact Nat.cast_le.mp (sub_nonpos.mp (nonpos_of_mul_nonpos_left hnonpos hstep))
        · intro hle
          exact mul_nonpos_of_nonpos_of_nonneg (sub_nonpos.mpr (Nat.cast_le.mpr hle)) hstep.le
      rw [runs_succ, ih, hiterate]
      simp only [hruns]
      split <;> omega

end

end Hat.Countdown
