import Mathlib.Algebra.Order.Group.Defs
import Mathlib.Data.List.Sublists

/-!
# Clocks that catch up

A clock keeps the start of its next cycle.  An update that finds the start passed reports it
and moves the start by one cycle only, so that after a gap the missed cycles are reported one
by one.  They come in a burst, with more than two reports in less than a cycle, exactly when
two more updates fall in time.
-/

namespace Hat

variable {σ ι α : Type*} [AddCommGroup α] [LinearOrder α]

/-- Any interval shorter than a cycle contains at most two of the times. -/
def AtMostTwo (cycle : α) (times : List α) : Prop :=
  ∀ lo hi, hi < lo + cycle → (times.filter fun time => lo ≤ time ∧ time ≤ hi).length ≤ 2

/-- What a clock is made of: the time of an update, what the update does and whether it
reports, and from when on an update reports, once that is known. -/
structure CycleClock (σ ι α : Type*) where
  cycle : α
  time : ι → α
  step : σ → ι → σ
  reports : σ → ι → Bool
  due : σ → Option α

namespace CycleClock

/-- A report moves the start by one cycle; a report without a start sets one that is a cycle
away. -/
structure Lawful (clock : CycleClock σ ι α) (I : σ → Prop) : Prop where
  cycle_pos : 0 < clock.cycle
  invariant : ∀ state input, I state → I (clock.step state input)
  reports_of_due : ∀ state input start, I state → clock.due state = some start →
    (clock.reports state input = true ↔ start ≤ clock.time input)
  due_reached : ∀ state input start, I state → clock.due state = some start →
    start ≤ clock.time input → clock.due (clock.step state input) = some (start + clock.cycle)
  due_waits : ∀ state input start, I state → clock.due state = some start →
    clock.time input < start → clock.due (clock.step state input) = some start
  first : ∀ state input, I state → clock.due state = none →
    clock.reports state input = true → ∃ start,
      clock.due (clock.step state input) = some start ∧
        clock.time input + clock.cycle ≤ start

variable (clock : CycleClock σ ι α)

/-- The times at which updates report. -/
def reportTimes : σ → List ι → List α
  | _, [] => []
  | state, input :: rest =>
      if clock.reports state input then
        clock.time input :: reportTimes (clock.step state input) rest
      else reportTimes (clock.step state input) rest

/-- When an update reports a start, the updates from the second next on that come less than a
cycle later come before the second start from there. -/
def Timely : σ → List ι → Prop
  | _, [] => True
  | state, input :: rest =>
      (∀ start, clock.due state = some start → start ≤ clock.time input →
        ∀ later ∈ rest.tail, clock.time later < clock.time input + clock.cycle →
          clock.time later < start + clock.cycle + clock.cycle) ∧
        Timely (clock.step state input) rest

/-- The updates come in the order of their times. -/
def Ordered (inputs : List ι) : Prop :=
  inputs.Pairwise fun earlier later => clock.time earlier ≤ clock.time later

section Triples

variable {cycle : α} {times : List α}

theorem atMostTwo_iff_triples [IsOrderedAddMonoid α] (hsorted : times.Pairwise (· ≤ ·)) :
    AtMostTwo cycle times ↔
      ∀ first second third, [first, second, third].Sublist times → first + cycle ≤ third := by
  constructor
  · intro hfew first second third hsub
    by_contra hnear
    have horder := hsorted.sublist hsub
    simp only [List.pairwise_cons, List.mem_cons, List.not_mem_nil, or_false, forall_eq_or_imp,
      forall_eq] at horder
    have hinside := hsub.filter fun time => decide (first ≤ time ∧ time ≤ third)
    have hall : [first, second, third].filter
        (fun time => decide (first ≤ time ∧ time ≤ third)) = [first, second, third] := by
      simp [horder.1.1, horder.1.2, horder.2.1]
    rw [hall] at hinside
    have hlength := hinside.length_le.trans (hfew first third (not_le.mp hnear))
    rw [List.length_cons, List.length_cons, List.length_singleton] at hlength
    omega
  · intro htriples lo hi hshort
    by_contra hmany
    rw [not_le] at hmany
    match hfound : times.filter fun time => lo ≤ time ∧ time ≤ hi, hmany with
    | first :: second :: third :: rest, _ =>
        have hsub : [first, second, third].Sublist times := by
          refine List.Sublist.trans ?_
            (List.filter_sublist (p := fun time => decide (lo ≤ time ∧ time ≤ hi)))
          rw [hfound]
          exact (List.prefix_append [first, second, third] rest).sublist
        have hmem : ∀ time ∈ first :: second :: third :: rest, lo ≤ time ∧ time ≤ hi := by
          intro time htime
          rw [← hfound] at htime
          exact of_decide_eq_true (List.mem_filter.mp htime).2
        have hfirst := (hmem first (by simp)).1
        have hthird := (hmem third (by simp)).2
        have hlong := htriples first second third hsub
        have hle : lo + cycle ≤ first + cycle := add_le_add_left hfirst cycle
        exact absurd (hle.trans (hlong.trans hthird)) (not_le.mpr hshort)

end Triples

/-! ## The reports of a run -/

variable {clock} {I : σ → Prop} {state : σ} {inputs : List ι}

omit [AddCommGroup α] [LinearOrder α] in
theorem reportTimes_sublist (state : σ) (inputs : List ι) :
    (clock.reportTimes state inputs).Sublist (inputs.map clock.time) := by
  induction inputs generalizing state with
  | nil => exact List.Sublist.slnil
  | cons input rest ih =>
      rw [reportTimes, List.map_cons]
      split
      · exact (ih _).cons_cons _
      · exact (ih _).cons _

omit [AddCommGroup α] in
theorem reportTimes_sorted (hordered : clock.Ordered inputs) (state : σ) :
    (clock.reportTimes state inputs).Pairwise (· ≤ ·) :=
  (List.pairwise_map.mpr hordered).sublist (reportTimes_sublist state inputs)

omit [AddCommGroup α] [LinearOrder α] in
/-- A first element makes a triple of every pair behind it. -/
theorem forall_triples_cons_iff {P : α → α → Prop} {time : α} {times : List α} :
    (∀ first second third, [first, second, third].Sublist (time :: times) → P first third) ↔
      (∀ first second, [first, second].Sublist times → P time second) ∧
        ∀ first second third, [first, second, third].Sublist times → P first third := by
  simp only [List.cons_sublist_cons']
  constructor
  · intro hall
    refine ⟨fun first second hsub => ?_, fun first second third hsub => ?_⟩
    · exact hall _ _ _ (Or.inr ⟨rfl, hsub⟩)
    · exact hall _ _ _ (Or.inl hsub)
  · rintro ⟨hpairs, htriples⟩ first second third (hsub | ⟨rfl, hsub⟩)
    · exact htriples _ _ _ hsub
    · exact hpairs _ _ hsub

section Lawful

variable (hclock : clock.Lawful I)
include hclock

theorem Lawful.due_le_of_mem [IsOrderedAddMonoid α] {start time : α} (hstate : I state)
    (hdue : clock.due state = some start) (htime : time ∈ clock.reportTimes state inputs) :
    start ≤ time := by
  induction inputs generalizing state start with
  | nil => exact absurd htime List.not_mem_nil
  | cons input rest ih =>
      have hstate' := hclock.invariant _ input hstate
      rw [reportTimes] at htime
      by_cases hreached : start ≤ clock.time input
      · rw [if_pos ((hclock.reports_of_due _ input _ hstate hdue).mpr hreached)] at htime
        rcases List.mem_cons.mp htime with rfl | hrest
        · exact hreached
        · have hle := ih hstate' (hclock.due_reached _ input _ hstate hdue hreached) hrest
          exact (le_add_of_nonneg_right hclock.cycle_pos.le).trans hle
      · rw [if_neg (mt (hclock.reports_of_due _ input _ hstate hdue).mp hreached)] at htime
        exact ih hstate' (hclock.due_waits _ input _ hstate hdue (not_le.mp hreached)) htime

/-- A second report is that of a second update, which has reached the second start. -/
theorem Lawful.second_of_sublist [IsOrderedAddMonoid α] {start first second : α}
    (hstate : I state) (hdue : clock.due state = some start)
    (hsub : [first, second].Sublist (clock.reportTimes state inputs)) :
    start + clock.cycle ≤ second ∧ ∃ later ∈ inputs.tail, clock.time later = second := by
  induction inputs generalizing state start with
  | nil => exact absurd hsub (by simp [reportTimes])
  | cons input rest ih =>
      have hstate' := hclock.invariant _ input hstate
      rw [reportTimes] at hsub
      by_cases hreached : start ≤ clock.time input
      · have hdue' := hclock.due_reached _ input _ hstate hdue hreached
        rw [if_pos ((hclock.reports_of_due _ input _ hstate hdue).mpr hreached)] at hsub
        have hmem : second ∈ clock.reportTimes (clock.step state input) rest := by
          rcases List.cons_sublist_cons'.mp hsub with hrest | ⟨_, hrest⟩
          · exact hrest.subset (List.mem_cons_of_mem _ List.mem_cons_self)
          · exact hrest.subset List.mem_cons_self
        refine ⟨hclock.due_le_of_mem hstate' hdue' hmem, ?_⟩
        obtain ⟨later, hlater, htime⟩ :=
          List.mem_map.mp ((reportTimes_sublist _ rest).subset hmem)
        exact ⟨later, hlater, htime⟩
      · have hdue' := hclock.due_waits _ input _ hstate hdue (not_le.mp hreached)
        rw [if_neg (mt (hclock.reports_of_due _ input _ hstate hdue).mp hreached)] at hsub
        obtain ⟨hle, later, hlater, htime⟩ := ih hstate' hdue' hsub
        exact ⟨hle, later, List.mem_of_mem_tail hlater, htime⟩

/-- An update that has reached the start is reported, or another before it is. -/
theorem Lawful.exists_report_le {start : α} (hstate : I state)
    (hdue : clock.due state = some start) (hordered : clock.Ordered inputs) {later : ι}
    (hlater : later ∈ inputs) (hreached : start ≤ clock.time later) :
    ∃ time ∈ clock.reportTimes state inputs, time ≤ clock.time later := by
  induction inputs generalizing state with
  | nil => exact absurd hlater List.not_mem_nil
  | cons input rest ih =>
      obtain ⟨hfirst, hrest⟩ := List.pairwise_cons.mp hordered
      have hle : clock.time input ≤ clock.time later := by
        rcases List.mem_cons.mp hlater with rfl | hmem
        · exact le_rfl
        · exact hfirst later hmem
      rw [reportTimes]
      by_cases hnow : start ≤ clock.time input
      · rw [if_pos ((hclock.reports_of_due _ input _ hstate hdue).mpr hnow)]
        exact ⟨clock.time input, List.mem_cons_self, hle⟩
      · rw [if_neg (mt (hclock.reports_of_due _ input _ hstate hdue).mp hnow)]
        have hdue' := hclock.due_waits _ input _ hstate hdue (not_le.mp hnow)
        apply ih (hclock.invariant _ input hstate) hdue' hrest
        rcases List.mem_cons.mp hlater with rfl | hmem
        · exact absurd hreached hnow
        · exact hmem

/-- After a report at a time, the second next report comes a cycle later exactly when no
second next update comes too early. -/
theorem Lawful.second_late_iff [IsOrderedAddMonoid α] {start time : α} (hstate : I state)
    (hdue : clock.due state = some (start + clock.cycle)) (hordered : clock.Ordered inputs)
    (hafter : ∀ input ∈ inputs, time ≤ clock.time input) :
    (∀ first second, [first, second].Sublist (clock.reportTimes state inputs) →
        time + clock.cycle ≤ second) ↔
      ∀ later ∈ inputs.tail, clock.time later < time + clock.cycle →
        clock.time later < start + clock.cycle + clock.cycle := by
  constructor
  · intro hlate later hlater hsoon
    by_contra hpassed
    rw [not_lt] at hpassed
    cases inputs with
    | nil => exact absurd hlater List.not_mem_nil
    | cons input rest =>
        have hreached : start + clock.cycle ≤ clock.time input := by
          have hlt := hpassed.trans_lt hsoon
          have hle := (add_lt_add_iff_right clock.cycle).mp hlt
          exact hle.le.trans (hafter input List.mem_cons_self)
        have hdue' := hclock.due_reached _ input _ hstate hdue hreached
        obtain ⟨second, hsecond, hle⟩ := hclock.exists_report_le
          (hclock.invariant _ input hstate) hdue' (List.pairwise_cons.mp hordered).2 hlater hpassed
        have hsub : [clock.time input, second].Sublist
            (clock.reportTimes state (input :: rest)) := by
          rw [reportTimes, if_pos ((hclock.reports_of_due _ input _ hstate hdue).mpr hreached)]
          exact (List.singleton_sublist.mpr hsecond).cons_cons _
        exact absurd ((hlate _ _ hsub).trans hle) (not_le.mpr hsoon)
  · intro hcalm first second hsub
    obtain ⟨hle, later, hlater, rfl⟩ := hclock.second_of_sublist hstate hdue hsub
    by_contra hsoon
    exact absurd hle (not_le.mpr (hcalm later hlater (not_le.mp hsoon)))

/-- Over any run the reports are at most two in less than a cycle exactly when the updates are
timely. -/
theorem Lawful.atMostTwo_iff_timely [IsOrderedAddMonoid α] (hstate : I state)
    (hordered : clock.Ordered inputs) :
    AtMostTwo clock.cycle (clock.reportTimes state inputs) ↔ clock.Timely state inputs := by
  rw [atMostTwo_iff_triples (reportTimes_sorted hordered state)]
  induction inputs generalizing state with
  | nil => simp [reportTimes, Timely]
  | cons input rest ih =>
      obtain ⟨hafter, hrest⟩ := List.pairwise_cons.mp hordered
      have hstate' := hclock.invariant _ input hstate
      rw [Timely, ← ih hstate' hrest, reportTimes]
      by_cases hreports : clock.reports state input = true
      · rw [if_pos hreports]
        rw [forall_triples_cons_iff]
        apply and_congr_left
        intro _
        cases hdue : clock.due state with
        | none =>
            obtain ⟨start, hdue', hfar⟩ := hclock.first _ input hstate hdue hreports
            refine iff_of_true ?_ (fun _ h => nomatch h)
            intro first second hsub
            have hmem : second ∈ clock.reportTimes (clock.step state input) rest :=
              hsub.subset (List.mem_cons_of_mem _ List.mem_cons_self)
            exact hfar.trans (hclock.due_le_of_mem hstate' hdue' hmem)
        | some start =>
            have hreached := (hclock.reports_of_due _ input _ hstate hdue).mp hreports
            have hdue' := hclock.due_reached _ input _ hstate hdue hreached
            rw [hclock.second_late_iff hstate' hdue' hrest hafter]
            simp [hreached]
      · rw [if_neg hreports, iff_and_self]
        intro _ start hdue hreached
        exact absurd ((hclock.reports_of_due _ input _ hstate hdue).mpr hreached) hreports

end Lawful

end CycleClock

end Hat
