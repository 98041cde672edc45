import Hat.PwrControl.Scheduler

/-!
# Which load a check switches

A measurement above the target is to stop a load of least priority among those that may be
stopped, one below it to start a load of greatest priority among those that may be started.
The loops of the source begin with bounds for the priority, so that no load from 1000 on is
ever stopped and none below 0 ever started; and a control without the attribute is started
but does not get the mode.  Apart from these cases every check does what it is for.
-/

namespace Hat.Scheduler

open Hat.Hsrv

def modes (controls : ControlSet) : List String := controls.map (·.params.get "mode")

/-- One of the controls that are wanted, with a priority as good as that of any other of
them, is the only one to be commanded, and the only one to get the mode. -/
def SwitchesBest (env : Env) (wanted : Control → Bool) (asGood : ℤ → ℤ → Prop) (value : String)
    (controls after : ControlSet) (commands : List MMessage) : Prop :=
  ∃ before control rest, controls = before ++ control :: rest ∧ wanted control = true ∧
    (∀ other ∈ controls, wanted other = true →
      asGood (control.priority env) (other.priority env)) ∧
    commands = [control.command value] ∧ modes after = modes before ++ value :: modes rest

/-- What a measurement of the control measure is for. -/
def Balances (env : Env) (m : MMessage) (controls : ControlSet) (scheduler : Scheduler) : Prop :=
  let current := m.getDouble env "Ipower"
  let target := scheduler.target env
  let weighed := scheduler.weighed current controls
  let commands := (scheduler.checkControl env m).2
  ∃ after, (scheduler.checkControl env m).1.control = some after ∧
    if target < current ∧ ∃ control ∈ weighed, control.mayStop env = true then
      SwitchesBest env (·.mayStop env) (· ≤ ·) "OFF" weighed after commands
    else if current < target ∧ ∃ control ∈ weighed,
        control.mayStart env (target - current) = true then
      SwitchesBest env (·.mayStart env (target - current)) (· ≥ ·) "ON" weighed after commands
    else commands = [] ∧ modes after = modes controls

/-- Some control that may be stopped is below the bound of the first loop. -/
def StopsWithinBound (env : Env) (controls : ControlSet) : Prop :=
  (∃ control ∈ controls, control.mayStop env = true) →
    ∃ control ∈ controls, control.mayStop env = true ∧ control.priority env < 1000

/-- The last one of greatest priority among the controls that may be started is not below the
bound of the second loop, and has the attribute for the mode. -/
def StartsWithinBound (env : Env) (available : ℚ) (controls : ControlSet) : Prop :=
  (∃ control ∈ controls, control.mayStart env available = true) →
    ∃ before control rest, controls = before ++ control :: rest ∧
      control.mayStart env available = true ∧ 0 ≤ control.priority env ∧
      (∀ other ∈ before, other.mayStart env available = true →
        other.priority env ≤ control.priority env) ∧
      (∀ other ∈ rest, other.mayStart env available = true →
        other.priority env < control.priority env) ∧
      MParams.Takes "mode" "ON" control.params.attributes

variable {env : Env} {m : MMessage} {scheduler : Scheduler} {controls : ControlSet}

theorem modes_append (before rest : ControlSet) :
    modes (before ++ rest) = modes before ++ modes rest := List.map_append

theorem modes_cons (control : Control) (rest : ControlSet) :
    modes (control :: rest) = control.params.get "mode" :: modes rest := rfl

theorem modes_weighed (current : ℚ) (controls : ControlSet) (scheduler : Scheduler) :
    modes (scheduler.weighed current controls) = modes controls := by
  rw [weighed]
  split
  · have hsame : ∀ control : Control, id (control.params.get "mode") =
        (control.loadestimateUpdate (scheduler.targetvalueAtstop - current)).params.get "mode" :=
      fun _ => rfl
    rw [modes, ← Selection.map_modify hsame, List.modify_id, modes]
  · rfl

theorem switchAt_append (switch : Control → Control × List MMessage) (before : ControlSet)
    (control : Control) (rest : ControlSet) :
    switchAt before.length switch (before ++ control :: rest) =
      (before ++ (switch control).1 :: rest, (switch control).2) := by
  simp [switchAt]

/-- A control that is stopped has the mode OFF afterwards. -/
theorem mode_stop {control : Control} (hmay : control.mayStop env = true) :
    (control.stop env false).1.params.get "mode" = "OFF" := by
  obtain ⟨_, _, hmode⟩ := (Control.mayStop_iff env control).mp hmay
  have hon : control.params.get "mode" = "ON" := of_decide_eq_true hmode
  rw [Control.stop_of_mayStop hmay, Control.params_issue, Control.setSaved, MParams.get_save]
  exact MParams.get_set_self control.params (by decide) (by rw [hon]; decide)

/-- A control that is started has the mode ON afterwards if it has the attribute. -/
theorem mode_start_iff {available : ℚ} {control : Control}
    (hmay : control.mayStart env available = true) :
    (control.start env false).1.params.get "mode" = "ON" ↔
      MParams.Takes "mode" "ON" control.params.attributes := by
  rw [Control.start_of_mayStart hmay, Control.params_issue, Control.setSaved, MParams.get_save]
  exact MParams.get_set_iff control.params "mode" "ON"

/-- Without the attribute the mode stays as it was. -/
theorem mode_start_of_not_takes {available : ℚ} {control : Control}
    (hmay : control.mayStart env available = true)
    (htakes : ¬MParams.Takes "mode" "ON" control.params.attributes) :
    (control.start env false).1.params.get "mode" = control.params.get "mode" := by
  have hnot := mt (MParams.get_set_iff control.params "mode" "ON").mp htakes
  have hvalue : "ON" ≠ "" := by decide
  rw [Control.start_of_mayStart hmay, Control.params_issue, Control.setSaved, MParams.get_save]
  obtain hset | hsame := MParams.get_set_cases control.params "mode" hvalue
  · exact absurd hset hnot
  · rw [hsame]

/-- Above the target, the pick of the first loop is a best control to stop. -/
theorem switchesBest_of_toStop {index : ℕ} (hstop : toStop env controls = some index) :
    SwitchesBest env (·.mayStop env) (· ≤ ·) "OFF" controls
      (perform env controls (some (.off, index))).1
      (perform env controls (some (.off, index))).2 := by
  obtain ⟨before, control, rest, rfl, rfl, hmay, _, hbefore, hrest⟩ :=
    (Selection.selectMin_eq_some_iff _).mp hstop
  refine ⟨before, control, rest, rfl, hmay, ?_, ?_, ?_⟩
  · intro other hother hwanted
    obtain hmem | hmem := List.mem_append.mp hother
    · exact (hbefore other hmem hwanted).le
    · obtain rfl | hmem := List.mem_cons.mp hmem
      · exact le_rfl
      · exact hrest other hmem hwanted
  · rw [perform, switchAt_append, Control.stop_of_mayStop hmay, Control.issue,
      Control.command_setSaved_mode]
  · rw [perform, switchAt_append, modes_append, modes_cons, mode_stop hmay]

/-- Below the target, the pick of the second loop is the last one of greatest priority; it is
a best control to start if it gets the mode. -/
theorem switchesBest_of_toStart {available : ℚ} {index : ℕ}
    (hstart : toStart env available controls = some index) :
    SwitchesBest env (·.mayStart env available) (· ≥ ·) "ON" controls
        (perform env controls (some (.on, index))).1
        (perform env controls (some (.on, index))).2 ↔
      StartsWithinBound env available controls := by
  obtain ⟨before, control, rest, rfl, rfl, hmay, hbound, hbefore, hrest⟩ :=
    (Selection.selectMax_eq_some_iff _).mp hstart
  rw [perform, switchAt_append]
  constructor
  · rintro ⟨before', other, rest', heq, hother, _, _, hmodes⟩ _
    refine ⟨before, control, rest, rfl, hmay, hbound, hbefore, hrest, ?_⟩
    by_contra htakes
    -- The modes would all be the old ones, but the one said to be started was not on.
    rw [modes_append, modes_cons, mode_start_of_not_takes hmay htakes, ← modes_cons,
      ← modes_append, heq, modes_append, modes_cons] at hmodes
    have hon := (List.append_cancel_left hmodes)
    obtain ⟨_, _, hoff, _⟩ := (Control.mayStart_iff env available other).mp hother
    rw [List.cons.injEq] at hon
    rw [Control.ismodeON, hon.1] at hoff
    exact absurd hoff (by decide)
  · intro hwithin
    obtain ⟨before', other, rest', heq, hother, hbound', hbefore', hrest', htakes⟩ :=
      hwithin ⟨control, List.mem_append_right _ List.mem_cons_self, hmay⟩
    have hsame : some before.length = some before'.length := by
      rw [← hstart]
      exact (Selection.selectMax_eq_some_iff _).mpr
        ⟨before', other, rest', heq, rfl, hother, hbound', hbefore', hrest'⟩
    obtain ⟨rfl, hcons⟩ := List.append_inj heq (Option.some.inj hsame)
    obtain ⟨rfl, rfl⟩ := List.cons_eq_cons.mp hcons
    refine ⟨before, control, rest, rfl, hmay, ?_, ?_, ?_⟩
    · intro other hother hwanted
      obtain hmem | hmem := List.mem_append.mp hother
      · exact hbefore other hmem hwanted
      · obtain rfl | hmem := List.mem_cons.mp hmem
        · exact le_rfl
        · exact (hrest other hmem hwanted).le
    · rw [Control.start_of_mayStart hmay, Control.issue, Control.command_setSaved_mode]
    · rw [modes_append, modes_cons, (mode_start_iff hmay).mpr htakes]

/-- What the first loop leads to is right exactly if its bound leaves a control. -/
theorem stop_iff : (if ∃ control ∈ controls, control.mayStop env = true then
      SwitchesBest env (·.mayStop env) (· ≤ ·) "OFF" controls
        (perform env controls ((toStop env controls).map fun index => (Status.off, index))).1
        (perform env controls ((toStop env controls).map fun index => (Status.off, index))).2
    else
      (perform env controls ((toStop env controls).map fun index => (Status.off, index))).2 = [] ∧
        modes (perform env controls
          ((toStop env controls).map fun index => (Status.off, index))).1 = modes controls) ↔
      StopsWithinBound env controls := by
  cases hstop : toStop env controls with
  | none =>
      have hnone := Selection.selectMin_eq_none_iff.mp hstop
      split
      · rename_i hsome
        refine iff_of_false ?_ fun hwithin => ?_
        · rintro ⟨_, _, _, _, _, _, hcommand, _⟩
          exact absurd hcommand.symm (List.cons_ne_nil _ _)
        · obtain ⟨control, hmem, hmay, hbound⟩ := hwithin hsome
          exact absurd (hnone control hmem hmay) (not_le.mpr hbound)
      · rename_i hnot
        exact iff_of_true ⟨rfl, rfl⟩ fun hsome => absurd hsome hnot
  | some index =>
      obtain ⟨before, control, rest, rfl, _, hmay, hbound, _⟩ :=
        (Selection.selectMin_eq_some_iff _).mp hstop
      have hmem : control ∈ before ++ control :: rest :=
        List.mem_append_right _ List.mem_cons_self
      rw [if_pos ⟨control, hmem, hmay⟩]
      exact iff_of_true (switchesBest_of_toStop hstop) fun _ => ⟨control, hmem, hmay, hbound⟩

/-- What the second loop leads to is right exactly if its bound leaves a control and this one
has the attribute for the mode. -/
theorem start_iff {available : ℚ} : (if ∃ control ∈ controls,
        control.mayStart env available = true then
      SwitchesBest env (·.mayStart env available) (· ≥ ·) "ON" controls
        (perform env controls ((toStart env available controls).map fun index =>
          (Status.on, index))).1
        (perform env controls ((toStart env available controls).map fun index =>
          (Status.on, index))).2
    else
      (perform env controls ((toStart env available controls).map fun index =>
          (Status.on, index))).2 = [] ∧
        modes (perform env controls ((toStart env available controls).map fun index =>
          (Status.on, index))).1 = modes controls) ↔
      StartsWithinBound env available controls := by
  cases hstart : toStart env available controls with
  | none =>
      have hnone := Selection.selectMax_eq_none_iff.mp hstart
      split
      · rename_i hsome
        refine iff_of_false ?_ fun hwithin => ?_
        · rintro ⟨_, _, _, _, _, _, hcommand, _⟩
          exact absurd hcommand.symm (List.cons_ne_nil _ _)
        · obtain ⟨before, control, rest, rfl, hmay, hbound, _⟩ := hwithin hsome
          exact absurd (hnone control (List.mem_append_right _ List.mem_cons_self) hmay)
            (not_lt.mpr hbound)
      · rename_i hnot
        exact iff_of_true ⟨rfl, rfl⟩ fun hsome => absurd hsome hnot
  | some index =>
      obtain ⟨before, control, rest, heq, _, hmay, _⟩ :=
        (Selection.selectMax_eq_some_iff _).mp hstart
      have hmem : control ∈ controls := by
        rw [heq]
        exact List.mem_append_right _ List.mem_cons_self
      rw [if_pos ⟨control, hmem, hmay⟩]
      exact switchesBest_of_toStart hstart

/-- A scheduler that is on does what a measurement is for exactly if the bounds of the loops
leave a best control and a control that is started can be set to ON. -/
theorem balances_iff (hcontrol : scheduler.control = some controls)
    (hon : scheduler.isstatusON = true) (hm : m.msubtype = scheduler.controlMeasure) :
    scheduler.Balances env m controls ↔
      (scheduler.target env < m.getDouble env "Ipower" →
        StopsWithinBound env (scheduler.weighed (m.getDouble env "Ipower") controls)) ∧
      (m.getDouble env "Ipower" < scheduler.target env →
        StartsWithinBound env (scheduler.target env - m.getDouble env "Ipower")
          (scheduler.weighed (m.getDouble env "Ipower") controls)) := by
  have hprepared : scheduler.prepared env m controls =
      scheduler.weighed (m.getDouble env "Ipower") controls := by
    rw [prepared, hon, Bool.not_true, if_neg Bool.false_ne_true, if_neg (not_not.mpr hm)]
  have hpick : scheduler.pick env m =
      if scheduler.target env < m.getDouble env "Ipower" then
        (toStop env (scheduler.weighed (m.getDouble env "Ipower") controls)).map
          fun index => (Status.off, index)
      else if m.getDouble env "Ipower" < scheduler.target env then
        (toStart env (scheduler.target env - m.getDouble env "Ipower")
          (scheduler.weighed (m.getDouble env "Ipower") controls)).map
            fun index => (Status.on, index)
      else none := by
    simp only [pick, hcontrol, hon, hm, hprepared, Bool.not_true, Bool.false_eq_true, ne_eq,
      not_true_eq_false, or_self, if_false]
  obtain ⟨hafter, hcommands⟩ := @checkControl_eq env m scheduler controls hcontrol
  rw [hprepared] at hafter hcommands
  rw [Balances]
  simp only [hafter, hcommands, Option.some.injEq, exists_eq_left', hpick,
    ← modes_weighed (m.getDouble env "Ipower") controls scheduler]
  generalize scheduler.weighed (m.getDouble env "Ipower") controls = weighed
  generalize m.getDouble env "Ipower" = current
  generalize scheduler.target env = target
  obtain habove | rfl | hbelow := lt_trichotomy target current
  · simp only [habove, not_lt_of_gt habove, if_true, true_and, false_and, if_false,
      forall_const, IsEmpty.forall_iff, and_true]
    exact stop_iff
  · simp [perform]
  · simp only [hbelow, not_lt_of_gt hbelow, if_true, true_and, false_and, if_false,
      forall_const, IsEmpty.forall_iff]
    exact start_iff

/-- A boiler that is on, with a priority. -/
def boiler (priority : String) : Control :=
  .new { ty := "control"
         attributes := [⟨"name", "generic", "boiler"⟩, ⟨"status", "generic", "ON"⟩,
           ⟨"mode", "generic", "ON"⟩, ⟨"priority", "generic", priority⟩,
           ⟨"nominalload", "generic", "2000"⟩, ⟨"latency", "generic", "60"⟩,
           ⟨"control", "generic", "boiler_relay"⟩]
         path := none
         pathh := none }

/-- A scheduler that keeps the grid below three kilowatts. -/
def homeScheduler (controls : ControlSet) : Scheduler :=
  { new firstNight ⟨"scheduler", [⟨"status", "generic", "ON"⟩], none, none⟩ none none with
    control := some controls
    controlMeasure := "grid"
    threshold := "3000" }

/-- The clock at a number of seconds. -/
def clockAt (seconds : ℕ) : Env :=
  { firstNight with
    gettime := seconds
    gettime_nonneg := Rat.natCast_nonneg }

def gridPower (power : String) : MMessage := (MMessage.mk2 "event" "grid").add "Ipower" power

/-- Boilers of four priorities, one of which must go. -/
def boilers : ControlSet := [boiler "5", boiler "1000", boiler "3", boiler "7"]

theorem balances_boilers :
    (homeScheduler boilers).Balances firstNight (gridPower "4500") boilers := by
  refine (balances_iff rfl (by decide) (by decide)).mpr ⟨fun _ _ => ?_, fun hbelow => ?_⟩
  · exact ⟨boiler "3", by decide +kernel, by decide +kernel, by decide +kernel⟩
  · exact absurd hbelow (by decide +kernel)

/-- A boiler of priority 1000 is not stopped although it is the only one that may be. -/
theorem not_balances_boiler :
    (homeScheduler [boiler "1000"]).isstatusON = true ∧
      (gridPower "4500").msubtype = (homeScheduler [boiler "1000"]).controlMeasure ∧
      ¬(homeScheduler [boiler "1000"]).Balances firstNight (gridPower "4500") [boiler "1000"] := by
  refine ⟨by decide, by decide, ?_⟩
  rintro ⟨after, _, hbalances⟩
  rw [if_pos (by decide +kernel)] at hbalances
  obtain ⟨_, _, _, _, _, _, hcommand, _⟩ := hbalances
  have hnone : ((homeScheduler [boiler "1000"]).checkControl firstNight
      (gridPower "4500")).2 = [] := by
    decide +kernel
  exact absurd (hnone.symm.trans hcommand) (List.cons_ne_nil _ _).symm

end Hat.Scheduler
