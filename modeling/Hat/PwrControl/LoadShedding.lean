import Hat.Core.Selection
import Hat.PwrControl.ControlMeasure
import Hat.PwrControl.LoadChoice

/-!
# A lasting overload

Every measurement above the target stops one load, and a load that is stopped does not come
back while the overload lasts.  Over a row of such measurements the loads go in the order of a
stable sort by their priorities, each one once, until none is left that may be stopped.
-/

namespace Hat

open Hat.Hsrv

namespace Control

/-- The text of the priority says a number, or there is none. -/
def PriorityKnown (control : Control) : Prop :=
  control.params.get "priority" = "" ∨ (scanInt (control.params.get "priority").toList).isSome

instance (control : Control) : Decidable control.PriorityKnown :=
  inferInstanceAs (Decidable (_ ∨ _))

theorem PriorityKnown.priority_eq {control : Control} (h : control.PriorityKnown)
    (env other : Env) : control.priority env = control.priority other := by
  rw [priority, priority]
  obtain hempty | hnumber := h
  · rw [if_pos hempty, if_pos hempty]
  · obtain ⟨value, hvalue⟩ := Option.isSome_iff_exists.mp hnumber
    rw [a2int, a2int, hvalue, Option.getD_some, Option.getD_some]

/-- All that a stop depends on, and all that its command says. -/
structure SameDuty (control changed : Control) : Prop where
  params : changed.params = control.params
  waitUntil : changed.waitUntil = control.waitUntil

theorem SameDuty.refl (control : Control) : SameDuty control control := ⟨rfl, rfl⟩

theorem sameDuty_loadestimateUpdate (value : ℚ) (control : Control) :
    SameDuty control (control.loadestimateUpdate value) := ⟨rfl, rfl⟩

theorem SameDuty.mayStop_eq {control changed : Control} (h : SameDuty control changed)
    (env : Env) : changed.mayStop env = control.mayStop env := by
  rw [mayStop, mayStop, isstatusON, isstatusON, ismodeON, ismodeON, h.params, h.waitUntil]

/-- Whether a control may be stopped is the same at both times. -/
def FreeAlike (env other : Env) (control : Control) : Prop :=
  control.ismodeON = true → (control.waitUntil ≤ env.gettime ↔ control.waitUntil ≤ other.gettime)

instance (env other : Env) (control : Control) : Decidable (control.FreeAlike env other) :=
  inferInstanceAs (Decidable (_ → _))

theorem FreeAlike.mayStop_eq {env other : Env} {control : Control}
    (h : control.FreeAlike env other) : control.mayStop env = control.mayStop other := by
  rw [Bool.eq_iff_iff, mayStop_iff, mayStop_iff]
  constructor
  · intro hmay
    exact ⟨(h hmay.2.2).mp hmay.1, hmay.2⟩
  · intro hmay
    exact ⟨(h hmay.2.2).mpr hmay.1, hmay.2⟩

theorem mayStop_of_mode {env : Env} {control : Control}
    (hmode : control.params.get "mode" = "OFF") : control.mayStop env = false := by
  have hnot : ¬control.ismodeON = true := by
    rw [ismodeON, hmode]
    decide
  exact Bool.eq_false_iff.mpr fun hmay => hnot ((mayStop_iff env control).mp hmay).2.2

/-- A control that is stopped keeps its priority. -/
theorem priority_stop {env : Env} {control : Control} (hmay : control.mayStop env = true) :
    (control.stop env false).1.params.get "priority" = control.params.get "priority" := by
  rw [stop_of_mayStop hmay, params_issue]
  exact get_setSaved_of_ne (by decide) "OFF" control

end Control

namespace Scheduler

/-- The loads that may be stopped, the least priority first. -/
def shedOrder (env : Env) (controls : ControlSet) : ControlSet :=
  Selection.queue (·.mayStop env) (·.priority env) 1000 controls

/-- A measurement of the control measure above the target. -/
def Above (env : Env) (m : MMessage) (scheduler : Scheduler) : Prop :=
  m.msubtype = scheduler.controlMeasure ∧ scheduler.target env < m.getDouble env "Ipower"

instance (env : Env) (m : MMessage) (scheduler : Scheduler) :
    Decidable (scheduler.Above env m) := inferInstanceAs (Decidable (_ ∧ _))

/-- A row of checks, with the commands of all. -/
def checks : List (Env × MMessage) → Scheduler → Scheduler × List MMessage
  | [], scheduler => (scheduler, [])
  | measurement :: rest, scheduler =>
      let checked := scheduler.checkControl measurement.1 measurement.2
      ((checks rest checked.1).1, checked.2 ++ (checks rest checked.1).2)

variable {env now : Env} {m : MMessage} {scheduler : Scheduler} {controls : ControlSet}

theorem params_checkControl (env : Env) (m : MMessage) (scheduler : Scheduler) :
    (scheduler.checkControl env m).1.params = scheduler.params := by
  have hreduce : ∀ (current : ℚ) (controls : ControlSet) (scheduler : Scheduler),
      (scheduler.reduceLoad env current controls).1.params = scheduler.params := by
    intro current controls scheduler
    rw [reduceLoad]
    cases toStop env controls <;> rfl
  have hincrease : ∀ (available : ℚ) (controls : ControlSet) (scheduler : Scheduler),
      (scheduler.tryIncreaseLoad env available controls).1.params = scheduler.params := by
    intro available controls scheduler
    rw [tryIncreaseLoad]
    cases toStart env available controls <;> rfl
  simp only [checkControl]
  split
  · rfl
  · split_ifs
    · rfl
    · rfl
    · exact hreduce _ _ (scheduler.noted _ _)
    · exact hincrease _ _ (scheduler.noted _ _)
    · rfl

theorem isstatusON_checkControl (env : Env) (m : MMessage) (scheduler : Scheduler) :
    (scheduler.checkControl env m).1.isstatusON = scheduler.isstatusON := by
  rw [isstatusON, isstatusON, params_checkControl]

/-- A check does not change what is above the target. -/
theorem above_checkControl (env now : Env) (m other : MMessage) (scheduler : Scheduler) :
    Above now other (scheduler.checkControl env m).1 ↔ Above now other scheduler := by
  have hmeasure := measure_checkControl env m scheduler
  simp only [measure, Prod.mk.injEq] at hmeasure
  rw [Above, Above, target, target, hmeasure.2.1, hmeasure.2.2]

/-- Above the target, a check is the first loop on the weighed controls. -/
theorem pick_of_above (hcontrol : scheduler.control = some controls)
    (hon : scheduler.isstatusON = true) (habove : scheduler.Above env m) :
    scheduler.pick env m =
      (toStop env (scheduler.weighed (m.getDouble env "Ipower") controls)).map
        fun index => (Status.off, index) := by
  simp only [pick, prepared, hcontrol, hon, habove.1, Bool.not_true, Bool.false_eq_true, ne_eq,
    not_true_eq_false, or_self, if_false]
  exact if_pos habove.2

theorem prepared_of_above (hon : scheduler.isstatusON = true) (habove : scheduler.Above env m) :
    scheduler.prepared env m controls =
      scheduler.weighed (m.getDouble env "Ipower") controls := by
  simp only [prepared, hon, habove.1, Bool.not_true, Bool.false_eq_true, ne_eq,
    not_true_eq_false, if_false]

theorem sameDuty_weighed (current : ℚ) (controls : ControlSet) (scheduler : Scheduler) :
    List.Forall₂ Control.SameDuty controls (scheduler.weighed current controls) := by
  rw [weighed]
  split
  · exact Selection.forall₂_modify Control.SameDuty.refl (Control.sameDuty_loadestimateUpdate _) controls _
  · exact List.forall₂_same.mpr fun control _ => Control.SameDuty.refl control

/-- The priorities of the loads are known, and whether they wait is the same at both times. -/
def Steady (env now : Env) (controls : ControlSet) : Prop :=
  ∀ control ∈ controls, control.PriorityKnown ∧ control.FreeAlike env now

instance (env now : Env) (controls : ControlSet) : Decidable (Steady env now controls) :=
  inferInstanceAs (Decidable (∀ control ∈ controls, _ ∧ _))

theorem Steady.of_sameDuty {changed : ControlSet} (h : Steady env now controls)
    (hsame : List.Forall₂ Control.SameDuty controls changed) : Steady env now changed := by
  intro control hcontrol
  obtain ⟨old, hold, hduty⟩ := Selection.exists_mem_left hsame hcontrol
  obtain ⟨hknown, hfree⟩ := h old hold
  refine ⟨?_, ?_⟩
  · rw [Control.PriorityKnown, hduty.params]
    exact hknown
  · rw [Control.FreeAlike, Control.ismodeON, hduty.params, hduty.waitUntil]
    exact hfree

/-- The order of shedding is the same for what stops depend on, and at both times. -/
theorem map_shedOrder_congr {changed : ControlSet} (hsteady : Steady env now controls)
    (hsame : List.Forall₂ Control.SameDuty controls changed) :
    (shedOrder env controls).map (·.command "OFF") =
      (shedOrder now changed).map (·.command "OFF") := by
  apply Selection.map_queue_congr
  induction hsame with
  | nil => exact List.Forall₂.nil
  | @cons control other rest rest' hduty _ ih =>
      obtain ⟨hcontrol, hrest⟩ := List.forall_mem_cons.mp hsteady
      refine List.Forall₂.cons ⟨?_, ?_, ?_⟩ (ih hrest)
      · rw [hduty.mayStop_eq now, hcontrol.2.mayStop_eq]
      · rw [hcontrol.1.priority_eq env now, Control.priority, Control.priority, hduty.params]
      · rw [Control.command, Control.command, hduty.params]

/-- A measurement above the target stops the first load of the order and leaves the others. -/
theorem checkControl_of_above (hcontrol : scheduler.control = some controls)
    (hon : scheduler.isstatusON = true) (habove : scheduler.Above now m)
    (hsteady : Steady env now controls) :
    ∃ after, (scheduler.checkControl now m).1.control = some after ∧
      (∀ control ∈ after, (∃ old ∈ controls, Control.SameDuty old control) ∨
        control.PriorityKnown ∧ control.params.get "mode" = "OFF") ∧
      (shedOrder env controls).map (·.command "OFF") =
        (scheduler.checkControl now m).2 ++ (shedOrder env after).map (·.command "OFF") ∧
      (scheduler.checkControl now m).2.length = min 1 (shedOrder env controls).length := by
  have hsame := sameDuty_weighed (m.getDouble now "Ipower") controls scheduler
  have horder := map_shedOrder_congr hsteady hsame
  have hweighed := hsteady.of_sameDuty hsame
  have hlength := congrArg List.length horder
  rw [List.length_map, List.length_map] at hlength
  rw [(checkControl_eq hcontrol).1, (checkControl_eq hcontrol).2,
    pick_of_above hcontrol hon habove, prepared_of_above hon habove, horder, hlength]
  have hold : ∀ control ∈ scheduler.weighed (m.getDouble now "Ipower") controls,
      ∃ old ∈ controls, Control.SameDuty old control :=
    fun control hmem => Selection.exists_mem_left hsame hmem
  generalize scheduler.weighed (m.getDouble now "Ipower") controls = ready at hweighed hold ⊢
  cases hpick : toStop now ready with
  | none =>
      have hnil : shedOrder now ready = [] := Selection.queue_eq_nil_of_selectMin hpick
      have hnone : (shedOrder env ready).map (·.command "OFF") = [] := by
        rw [map_shedOrder_congr hweighed (List.forall₂_same.mpr fun control _ =>
          Control.SameDuty.refl control), hnil, List.map_nil]
      exact ⟨ready, rfl, fun control hmem => Or.inl (hold control hmem), by
        rw [Option.map_none, perform, hnil, hnone]
        rfl, by rw [hnil]; rfl⟩
  | some index =>
      obtain ⟨before, control, rest, rfl, rfl, hmay, hqueue⟩ := Selection.queue_of_selectMin hpick
      have hstopped := mode_stop hmay
      have hcommand : (control.stop now false).2 = [control.command "OFF"] := by
        rw [Control.stop_of_mayStop hmay, Control.issue, Control.command_setSaved_mode]
      have hothers : Steady env now (before ++ rest) := by
        intro other hother
        apply hweighed other
        rw [List.mem_append, List.mem_cons]
        exact (List.mem_append.mp hother).imp_right Or.inr
      have hleft : (shedOrder env (before ++ (control.stop now false).1 :: rest)).map
            (·.command "OFF") = (shedOrder now (before ++ rest)).map (·.command "OFF") := by
        rw [shedOrder, Selection.queue_append_cons_of_not (Control.mayStop_of_mode hstopped)]
        exact map_shedOrder_congr hothers
          (List.forall₂_same.mpr fun other _ => Control.SameDuty.refl other)
      refine ⟨before ++ (control.stop now false).1 :: rest, ?_, ?_, ?_, ?_⟩
      · rw [Option.map_some, perform, switchAt_append]
      · intro other hother
        rw [List.mem_append, List.mem_cons] at hother
        obtain hbefore | rfl | hrest := hother
        · exact Or.inl (hold other (List.mem_append_left _ hbefore))
        · refine Or.inr ⟨?_, hstopped⟩
          rw [Control.PriorityKnown, Control.priority_stop hmay]
          exact (hweighed control (List.mem_append_right _ List.mem_cons_self)).1
        · exact Or.inl (hold other (List.mem_append_right _ (List.mem_cons_of_mem _ hrest)))
      · rw [Option.map_some, perform, switchAt_append, hleft, hcommand, shedOrder, hqueue]
        rfl
      · rw [Option.map_some, perform, switchAt_append, hcommand, shedOrder, hqueue,
          List.length_singleton, List.length_cons]
        omega

/-! ## A row of measurements -/

/-- As long as all measurements are above the target, no wait ends and nothing else is asked
of the scheduler, the loads are stopped one by one in the order of their priorities. -/
theorem checks_of_above (env : Env) {scheduler : Scheduler} {controls : ControlSet}
    (hcontrol : scheduler.control = some controls) (hon : scheduler.isstatusON = true)
    (measurements : List (Env × MMessage))
    (habove : ∀ measurement ∈ measurements, scheduler.Above measurement.1 measurement.2)
    (hsteady : ∀ measurement ∈ measurements, Steady env measurement.1 controls) :
    (scheduler.checks measurements).2 =
      ((shedOrder env controls).take measurements.length).map (·.command "OFF") := by
  induction measurements generalizing scheduler controls with
  | nil => rfl
  | cons measurement rest ih =>
      obtain ⟨hfirst, hrest⟩ := List.forall_mem_cons.mp habove
      obtain ⟨hsteadyFirst, hsteadyRest⟩ := List.forall_mem_cons.mp hsteady
      obtain ⟨after, hafter, hduty, horder, hlength⟩ :=
        checkControl_of_above hcontrol hon hfirst hsteadyFirst
      have hothers := ih hafter ((isstatusON_checkControl _ _ scheduler).trans hon)
        (fun other hother => (above_checkControl _ _ _ _ scheduler).mpr (hrest other hother))
        (by
          intro other hother control hmem
          obtain ⟨old, hold, hsame⟩ | ⟨hknown, hmode⟩ := hduty control hmem
          · obtain ⟨hknown, hfree⟩ := hsteadyRest other hother old hold
            refine ⟨?_, ?_⟩
            · rw [Control.PriorityKnown, hsame.params]
              exact hknown
            · rw [Control.FreeAlike, Control.ismodeON, hsame.params, hsame.waitUntil]
              exact hfree
          · refine ⟨hknown, fun hmodeOn => ?_⟩
            rw [Control.ismodeON, hmode] at hmodeOn
            exact absurd hmodeOn (by decide))
      rw [checks]
      simp only [hothers]
      rw [List.map_take, List.map_take, horder, List.length_cons]
      cases hcommands : (scheduler.checkControl measurement.1 measurement.2).2 with
      | nil =>
          have hempty : (shedOrder env controls).length = 0 := by
            rw [hcommands, List.length_nil] at hlength
            omega
          have hnone : (shedOrder env after).map (·.command "OFF") = [] := by
            rw [hcommands, List.nil_append, List.length_eq_zero_iff.mp hempty, List.map_nil] at horder
            exact horder.symm
          rw [hnone, List.nil_append, List.nil_append, List.take_nil, List.take_nil]
      | cons command commands =>
          have hone : commands = [] := by
            rw [hcommands, List.length_cons] at hlength
            exact List.length_eq_zero_iff.mp (by omega)
          rw [hone, List.singleton_append, List.singleton_append, List.take_succ_cons]

/-- A load of its own name, with the attributes of the boiler. -/
def namedLoad (name priority : String) : Control :=
  let load := boiler priority
  { load with params := (load.params.set "name" name).set "control" name }

theorem checks_of_above_three :
    ((homeScheduler [namedLoad "oven" "7", namedLoad "pump" "2", namedLoad "iron" "7"]).checks
        [(clockAt 1, gridPower "4500"), (clockAt 2, gridPower "4000"),
          (clockAt 3, gridPower "3800"), (clockAt 4, gridPower "3100")]).2 =
      [(namedLoad "pump" "2").command "OFF", (namedLoad "oven" "7").command "OFF",
        (namedLoad "iron" "7").command "OFF"] := by
  refine (checks_of_above (clockAt 1) rfl (by decide) _ (by decide +kernel) ?_).trans
    (by decide +kernel)
  decide +kernel

end Scheduler

end Hat
