import Mathlib.Algebra.Order.Ring.Int
import Mathlib.Tactic.Ring

/-!
# Periodic deadlines on a polled clock

A deadline is moved one period on whenever a reading of the clock has reached it.
When consecutive readings are never more than one unit apart, no reading overtakes
the deadline, so that every instant of the period is noticed at the first reading
that reaches it or at the one after.
-/

namespace Hat.Deadline

/-- `next index` is the deadline after the reading `now index`. -/
structure Polled (period : ℤ) (count : ℕ) (now next : ℕ → ℤ) : Prop where
  pos : 0 < period
  start : now 0 ≤ next 0
  moved : ∀ index, index + 1 < count → next index ≤ now (index + 1) →
    next (index + 1) = next index + period
  kept : ∀ index, index + 1 < count → now (index + 1) < next index →
    next (index + 1) = next index
  gap : ∀ index, index + 1 < count → now (index + 1) ≤ now index + 1
  monotone : ∀ index, index + 1 < count → now index ≤ now (index + 1)

variable {period : ℤ} {count : ℕ} {now next : ℕ → ℤ}

/-- The deadline after a reading never lies before that reading. -/
theorem Polled.now_le_next (h : Polled period count now next) {index : ℕ}
    (hindex : index < count) : now index ≤ next index := by
  induction index with
  | zero => exact h.start
  | succ index ih =>
      have hbefore := ih (Nat.lt_of_succ_lt hindex)
      have hgap := h.gap index hindex
      have hpos := h.pos
      by_cases hreached : next index ≤ now (index + 1)
      · have hmoved := h.moved index hindex hreached
        omega
      · have hkept := h.kept index hindex (not_le.mp hreached)
        omega

/-- The deadline is always an instant of the period. -/
theorem Polled.next_eq (h : Polled period count now next) {index : ℕ} (hindex : index < count) :
    ∃ turns : ℕ, next index = next 0 + turns * period := by
  induction index with
  | zero => exact ⟨0, by simp⟩
  | succ index ih =>
      obtain ⟨turns, hturns⟩ := ih (Nat.lt_of_succ_lt hindex)
      by_cases hreached : next index ≤ now (index + 1)
      · refine ⟨turns + 1, ?_⟩
        rw [h.moved index hindex hreached, hturns]
        push_cast
        ring
      · exact ⟨turns, (h.kept index hindex (not_le.mp hreached)).trans hturns⟩

/-- A deadline past an instant has been moved from that instant, at a reading that
reached it. -/
theorem Polled.exists_moved (h : Polled period count now next) (instant : ℕ) {index : ℕ}
    (hindex : index < count) (hpast : next 0 + instant * period < next index) :
    ∃ before, before + 1 ≤ index ∧ next before = next 0 + instant * period ∧
      next before ≤ now (before + 1) := by
  induction index with
  | zero =>
      have hpos := h.pos
      have hnonneg : 0 ≤ (instant : ℤ) * period :=
        Int.mul_nonneg (Int.natCast_nonneg instant) hpos.le
      omega
  | succ index ih =>
      have hlast := Nat.lt_of_succ_lt hindex
      by_cases hearlier : next 0 + instant * period < next index
      · obtain ⟨before, hbefore, hfound⟩ := ih hlast hearlier
        exact ⟨before, by omega, hfound⟩
      · have hreached : next index ≤ now (index + 1) := by
          by_contra hnot
          have hkept := h.kept index hindex (not_le.mp hnot)
          omega
        have hmoved := h.moved index hindex hreached
        obtain ⟨turns, hturns⟩ := h.next_eq hlast
        have hpos := h.pos
        -- The deadline before this reading lies less than one period below the next.
        have hsame : turns = instant := by
          have hle : turns * period ≤ instant * period := by omega
          have hlt : (instant : ℤ) * period < (turns + 1) * period := by
            rw [add_mul, one_mul]
            omega
          have hle' : (turns : ℤ) ≤ instant := le_of_mul_le_mul_right hle hpos
          have hlt' : (instant : ℤ) < turns + 1 := lt_of_mul_lt_mul_right hlt hpos.le
          omega
        exact ⟨index, le_rfl, by rw [hturns, hsame], hreached⟩

/-- The deadline leaves every instant at the first reading that reaches the instant
or at the one after. -/
theorem Polled.punctual (h : Polled period count now next) (instant : ℕ) {index : ℕ}
    (hindex : index + 1 < count) (hreached : next 0 + instant * period ≤ now index)
    (hfirst : ∀ earlier < index, now earlier < next 0 + instant * period) :
    ∃ before, (before + 1 = index ∨ before + 1 = index + 1) ∧
      next before = next 0 + instant * period ∧ next before ≤ now (before + 1) := by
  have hle := h.now_le_next (Nat.lt_of_succ_lt hindex)
  by_cases hpast : next 0 + instant * period < next index
  · obtain ⟨before, hbefore, heq, hnow⟩ :=
      h.exists_moved instant (Nat.lt_of_succ_lt hindex) hpast
    refine ⟨before, Or.inl ?_, heq, hnow⟩
    by_contra hne
    have hearlier := hfirst (before + 1) (by omega)
    omega
  · have heq : next index = next 0 + instant * period := by omega
    have hmonotone := h.monotone index hindex
    exact ⟨index, Or.inr rfl, heq, by omega⟩

end Hat.Deadline
