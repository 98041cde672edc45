import Hat.Core.Machine
import Hat.PwrControl.LoadChoice

/-!
# The spacing of switchings

After each command a control waits for its latency, and a check picks none that waits.
Whatever messages and alignments come in between, two switchings of one control by checks are
therefore at least its latency apart.
-/

namespace Hat.Scheduler

open Hat.Hsrv

/-- The time of a check that stops or starts the control. -/
def switched (index : ℕ) (scheduler : Scheduler) (call : Env × Call) : Option ℚ :=
  match call.2 with
  | .checkControl m =>
      if (scheduler.pick call.1 m).map Prod.snd = some index then some call.1.gettime else none
  | _ => none

/-- The times at which checks have stopped or started the control. -/
def transitionTimes (index : ℕ) (scheduler : Scheduler) (calls : List (Env × Call)) : List ℚ :=
  Machine.outputs next (switched index) scheduler calls

/-- Where a control of the set stands: its latency and the time until which it waits. -/
structure Timed (index : ℕ) (latency waitUntil : ℚ) (scheduler : Scheduler) : Prop where
  latency_nonneg : 0 ≤ latency
  stands : ∃ controls control, scheduler.control = some controls ∧
    controls[index]? = some control ∧ control.knownLatency = some latency ∧
    control.waitUntil = waitUntil

variable {index : ℕ} {latency waitUntil : ℚ} {scheduler changed : Scheduler}

/-- Messages leave the control where it stands. -/
theorem Timed.of_kept (h : scheduler.Timed index latency waitUntil)
    (hkept : ∀ controls, scheduler.control = some controls →
      ∃ after, changed.control = some after ∧ ControlSet.Kept controls after) :
    changed.Timed index latency waitUntil := by
  obtain ⟨controls, control, hcontrol, hindex, hlatency, hwait⟩ := h.stands
  obtain ⟨after, hafter, hsame⟩ := hkept controls hcontrol
  obtain ⟨control', hindex', htiming⟩ := Selection.exists_getElem?_right hsame hindex
  exact ⟨h.latency_nonneg, after, control', hafter, hindex',
    htiming.knownLatency_eq.trans hlatency, htiming.waitUntil.trans hwait⟩

/-- An alignment makes it wait again, if it repeats its command. -/
theorem Timed.aligneControl (h : scheduler.Timed index latency waitUntil) (env : Env) :
    (scheduler.aligneControl env).1.Timed index latency waitUntil ∨
      (scheduler.aligneControl env).1.Timed index latency (env.gettime + latency) := by
  obtain ⟨controls, control, hcontrol, hindex, hlatency, hwait⟩ := h.stands
  rw [Scheduler.aligneControl, hcontrol]
  cases scheduler.isstatusON with
  | false => exact Or.inl h
  | true =>
      have hafter : (controls.map fun control => (repeated env control).1)[index]? =
          some (repeated env control).1 := by
        rw [List.getElem?_map, hindex, Option.map_some]
      rw [repeated_eq] at hafter
      by_cases hrepeats : repeats control = true
      · rw [if_pos hrepeats] at hafter
        obtain ⟨hknown, huntil⟩ := Control.issue_of_known h.latency_nonneg hlatency env
          (control.params.get "mode")
        exact Or.inr ⟨h.latency_nonneg, _, _, rfl, hafter, hknown, huntil⟩
      · rw [if_neg hrepeats] at hafter
        exact Or.inl ⟨h.latency_nonneg, _, _, rfl, hafter, hlatency, hwait⟩

/-- A check picks the control only when its wait is over, and then it waits again. -/
theorem Timed.checkControl (h : scheduler.Timed index latency waitUntil) (env : Env)
    (m : MMessage) :
    ((∃ status, scheduler.pick env m = some (status, index)) ∧ waitUntil ≤ env.gettime ∧
        (scheduler.checkControl env m).1.Timed index latency (env.gettime + latency)) ∨
      (∀ status, scheduler.pick env m ≠ some (status, index)) ∧
        (scheduler.checkControl env m).1.Timed index latency waitUntil := by
  obtain ⟨controls, control, hcontrol, hindex, hlatency, hwait⟩ := h.stands
  obtain ⟨hafter, _⟩ := @checkControl_eq env m scheduler controls hcontrol
  obtain ⟨ready, hready, hsame⟩ :=
    Selection.exists_getElem?_right (kept_prepared env m controls scheduler) hindex
  have hknown : ready.knownLatency = some latency := hsame.knownLatency_eq.trans hlatency
  have huntil : ready.waitUntil = waitUntil := hsame.waitUntil.trans hwait
  cases hpick : scheduler.pick env m with
  | none =>
      rw [hpick] at hafter
      exact Or.inr ⟨fun _ => (Option.some_ne_none _).symm, h.latency_nonneg, _, ready, hafter,
        hready, hknown, huntil⟩
  | some pick =>
      obtain ⟨status, other⟩ := pick
      obtain ⟨picked, value, hpicked, hover, hperform⟩ := perform_pick hcontrol hpick
      rw [hperform] at hafter
      by_cases heq : other = index
      · subst heq
        obtain rfl : ready = picked := Option.some.inj (hready.symm.trans hpicked)
        have hne : "mode" ≠ "latency" := by decide
        have hset := Control.sameTiming_setSaved hne value ready
        obtain ⟨hknown', huntil'⟩ := Control.issue_of_known h.latency_nonneg
          (hset.knownLatency_eq.trans hknown) env value
        refine Or.inl ⟨⟨status, rfl⟩, huntil ▸ hover, h.latency_nonneg, _, _, hafter, ?_,
          hknown', huntil'⟩
        exact List.getElem?_set_self (List.getElem?_eq_some_iff.mp hready).1
      · refine Or.inr ⟨fun _ hsome => heq (Prod.mk.inj (Option.some.inj hsome)).2,
          h.latency_nonneg, _, ready, hafter, ?_, hknown, huntil⟩
        rw [List.getElem?_set_ne heq, hready]

/-- What one call does: a check switches the control, which has waited long enough and waits
from now on; or it is not switched, and waits on or from now on. -/
theorem Timed.next (h : scheduler.Timed index latency waitUntil) (call : Env × Call) :
    (scheduler.switched index call = some call.1.gettime ∧ waitUntil ≤ call.1.gettime ∧
        (scheduler.next call).Timed index latency (call.1.gettime + latency)) ∨
      scheduler.switched index call = none ∧
        ((scheduler.next call).Timed index latency waitUntil ∨
          (scheduler.next call).Timed index latency (call.1.gettime + latency)) := by
  obtain ⟨env, call⟩ := call
  cases call with
  | checkControl m =>
      obtain ⟨⟨status, hpick⟩, hover, hafter⟩ | ⟨hnot, hafter⟩ := h.checkControl env m
      · refine Or.inl ⟨?_, hover, hafter⟩
        simp [switched, hpick]
      · refine Or.inr ⟨?_, Or.inl hafter⟩
        cases hpick : scheduler.pick env m with
        | none => simp [switched, hpick]
        | some pick =>
            have hne : pick.2 ≠ index := fun heq => hnot pick.1 (by rw [hpick, ← heq])
            simp [switched, hpick, hne]
  | aligneControl => exact Or.inr ⟨rfl, h.aligneControl env⟩
  | setControl m =>
      refine Or.inr ⟨rfl, Or.inl (h.of_kept fun controls hcontrol => ?_)⟩
      refine ⟨(controls.setControl m).1, ?_, ControlSet.kept_setControl m controls⟩
      simp only [Scheduler.next, Scheduler.setControl, hcontrol]
  | resetControl m =>
      refine Or.inr ⟨rfl, Or.inl (h.of_kept fun controls hcontrol => ?_)⟩
      refine ⟨controls.resetControl m, ?_, ControlSet.kept_resetControl m controls⟩
      simp only [Scheduler.next, Scheduler.resetControl, hcontrol, Option.map_some]
  | setTarget m =>
      have hsame : (scheduler.next (env, .setTarget m)).control = scheduler.control := by
        simp only [Scheduler.next, Scheduler.setTarget]
        split <;> rfl
      exact Or.inr ⟨rfl, Or.inl ⟨h.latency_nonneg, hsame ▸ h.stands⟩⟩
  | resetTarget m =>
      have hsame : (scheduler.next (env, .resetTarget m)).control = scheduler.control := by
        simp only [Scheduler.next, Scheduler.resetTarget]
        split <;> rfl
      exact Or.inr ⟨rfl, Or.inl ⟨h.latency_nonneg, hsame ▸ h.stands⟩⟩

/-- No check of a run switches a control before the end of its wait, where this is not later
than the end of any wait that the run may begin. -/
theorem Timed.le_of_mem (h : scheduler.Timed index latency waitUntil) {bound : ℚ}
    (hbound : bound ≤ waitUntil) {calls : List (Env × Call)}
    (hlater : ∀ call ∈ calls, bound ≤ call.1.gettime + latency) :
    ∀ time ∈ scheduler.transitionTimes index calls, bound ≤ time := by
  induction calls generalizing scheduler waitUntil with
  | nil => exact fun _ hmem => absurd hmem List.not_mem_nil
  | cons call rest ih =>
      obtain ⟨hnow, hrest⟩ := List.forall_mem_cons.mp hlater
      rw [transitionTimes, Machine.outputs]
      obtain ⟨hswitched, hover, hafter⟩ | ⟨hswitched, hafter | hafter⟩ := h.next call
      · rw [hswitched]
        exact List.forall_mem_cons.mpr ⟨hbound.trans hover, ih hafter hnow hrest⟩
      · rw [hswitched]
        exact ih hafter hbound hrest
      · rw [hswitched]
        exact ih hafter hnow hrest

theorem Timed.pairwise_transitionTimes (h : scheduler.Timed index latency waitUntil)
    {calls : List (Env × Call)}
    (htimes : calls.Pairwise fun earlier later => earlier.1.gettime ≤ later.1.gettime) :
    (scheduler.transitionTimes index calls).Pairwise
      fun earlier later => earlier + latency ≤ later := by
  induction calls generalizing scheduler waitUntil with
  | nil => exact List.Pairwise.nil
  | cons call rest ih =>
      obtain ⟨hlater, hrest⟩ := List.pairwise_cons.mp htimes
      rw [transitionTimes, Machine.outputs]
      obtain ⟨hswitched, _, hafter⟩ | ⟨hswitched, hafter | hafter⟩ := h.next call
      · rw [hswitched]
        refine List.pairwise_cons.mpr ⟨?_, ih hafter hrest⟩
        exact hafter.le_of_mem le_rfl fun other hother =>
          add_le_add_left (hlater other hother) latency
      · rw [hswitched]
        exact ih hafter hrest
      · rw [hswitched]
        exact ih hafter hrest

/-- Two switchings of a control by checks are at least its latency apart, in any run of calls at
times that do not decrease. -/
theorem transitions_apart {controls : ControlSet} {control : Control}
    (hcontrol : scheduler.control = some controls) (hindex : controls[index]? = some control)
    (hknown : control.knownLatency = some latency) (hlatency : 0 ≤ latency)
    {calls : List (Env × Call)}
    (htimes : calls.Pairwise fun earlier later => earlier.1.gettime ≤ later.1.gettime) :
    (scheduler.transitionTimes index calls).Pairwise
      fun earlier later => earlier + latency ≤ later :=
  Timed.pairwise_transitionTimes ⟨hlatency, controls, control, hcontrol, hindex, hknown, rfl⟩
    htimes

/-- The boiler is switched on by hand while it still waits after a stop. -/
def byHand : List (Env × Call) :=
  [(clockAt 100, .checkControl (gridPower "4500")),
    (clockAt 130, .setControl (((MMessage.mk2 "cmd" "setcontrol").add "name" "boiler").add
      "mode" "ON")),
    (clockAt 150, .checkControl (gridPower "4500")),
    (clockAt 155, .aligneControl),
    (clockAt 220, .checkControl (gridPower "4500"))]

theorem transitions_apart_byHand :
    (homeScheduler [boiler "5"]).transitionTimes 0 byHand = [100, 220] ∧
      ((homeScheduler [boiler "5"]).transitionTimes 0 byHand).Pairwise
        fun earlier later => earlier + 60 ≤ later := by
  refine ⟨by decide +kernel, transitions_apart rfl rfl ?_ (by decide +kernel) ?_⟩
  · decide +kernel
  · simp [byHand, clockAt]
    norm_num

end Hat.Scheduler
