import Hat.PwrControl.SensorSet

/-!
# The load scheduler

The scheduler keeps the power of the control measure near a threshold.  Each measurement
above it stops the least important load that may be stopped, each one below it starts the
most important load that fits into the margin; the measurement after a stop tells what the
stopped load took.  An alignment repeats the commands of all controls.
-/

namespace Hat

open Hat.Hsrv

/-- `MAXTHRESHOLD`, the target without a threshold. -/
def maxThreshold : ℚ := 10000

structure Scheduler where
  params : MParams
  control : Option ControlSet
  sensor : Option SensorSet
  controlMeasure : String
  threshold : String
  /-- Which control was stopped last; read only while `stopTime` is positive. -/
  lastStopped : ℕ
  stopTime : ℚ
  targetvalueAtstop : ℚ
  current : ℚ
  deriving DecidableEq

namespace Scheduler

/-- The sets are there if their directories are; each file of these gives one member. -/
def new (env : Env) (params : MParams) (controlDir sensorDir : Option (List MParams)) :
    Scheduler :=
  let sensor := sensorDir.map fun files => files.map Sensor.new
  { params := params.load
    control := controlDir.map fun files => files.map Control.new
    sensor := sensor
    controlMeasure := (sensor.map SensorSet.getControlMeasure).getD ""
    threshold := (sensor.map SensorSet.getThreshold).getD ""
    lastStopped := 0
    stopTime := 0
    targetvalueAtstop := env.unsetDouble
    current := env.unsetDouble }

def isstatusON (scheduler : Scheduler) : Bool := scheduler.params.get "status" = "ON"

/-- The loop of `reduceLoad`. -/
def toStop (env : Env) (controls : ControlSet) : Option ℕ :=
  Selection.selectMin (·.mayStop env) (·.priority env) 1000 controls

/-- The loop of `tryIncreaseLoad`. -/
def toStart (env : Env) (available : ℚ) (controls : ControlSet) : Option ℕ :=
  Selection.selectMax (·.mayStart env available) (·.priority env) 0 controls

/-- One control of the set is switched. -/
def switchAt (m : ℕ) (switch : Control → Control × List MMessage) (controls : ControlSet) :
    ControlSet × List MMessage :=
  match controls[m]? with
  | some control => (controls.set m (switch control).1, (switch control).2)
  | none => (controls, [])

def reduceLoad (env : Env) (current : ℚ) (controls : ControlSet) (scheduler : Scheduler) :
    Scheduler × List MMessage :=
  match toStop env controls with
  | some m =>
      let switched := switchAt m (Control.stop env false) controls
      ({ scheduler with
          control := some switched.1
          lastStopped := m
          stopTime := env.gettime
          targetvalueAtstop := current }, switched.2)
  | none => ({ scheduler with control := some controls }, [])

def tryIncreaseLoad (env : Env) (available : ℚ) (controls : ControlSet) (scheduler : Scheduler) :
    Scheduler × List MMessage :=
  match toStart env available controls with
  | some m =>
      let switched := switchAt m (Control.start env false) controls
      ({ scheduler with control := some switched.1 }, switched.2)
  | none => ({ scheduler with control := some controls }, [])

def target (env : Env) (scheduler : Scheduler) : ℚ :=
  if scheduler.threshold ≠ "" then a2double env scheduler.threshold else maxThreshold

/-- The first measurement after a stop gives the estimate of the load that was stopped. -/
def weighed (current : ℚ) (controls : ControlSet) (scheduler : Scheduler) : ControlSet :=
  if 0 < scheduler.stopTime ∧ 0 < scheduler.targetvalueAtstop - current then
    controls.modify scheduler.lastStopped
      (Control.loadestimateUpdate (scheduler.targetvalueAtstop - current))
  else controls

/-- The measurement is kept, and the stop before it is done with. -/
def noted (current : ℚ) (controls : ControlSet) (scheduler : Scheduler) : Scheduler :=
  { scheduler with
    control := some controls
    current := current
    stopTime := if 0 < scheduler.stopTime then 0 else scheduler.stopTime }

def checkControl (env : Env) (m : MMessage) (scheduler : Scheduler) :
    Scheduler × List MMessage :=
  match scheduler.control with
  | none => (scheduler, [])
  | some controls =>
      if !scheduler.isstatusON then (scheduler, [])
      else if m.msubtype ≠ scheduler.controlMeasure then
        ({ scheduler with control := some (controls.handleMode m) }, [])
      else
        let target := scheduler.target env
        let current := m.getDouble env "Ipower"
        let controls := scheduler.weighed current controls
        let scheduler := scheduler.noted current controls
        if target < current then scheduler.reduceLoad env current controls
        else if current < target then scheduler.tryIncreaseLoad env (target - current) controls
        else (scheduler, [])

/-- What `aligneControl` does with one control. -/
def repeated (env : Env) (control : Control) : Control × List MMessage :=
  if control.params.get "mode" = "OFF" then control.stop env true
  else if control.params.get "mode" = "ON" then control.start env true
  else (control, [])

def aligneControl (env : Env) (scheduler : Scheduler) : Scheduler × List MMessage :=
  match scheduler.control with
  | none => (scheduler, [])
  | some controls =>
      if !scheduler.isstatusON then (scheduler, [])
      else ({ scheduler with
          control := some (controls.map fun control => (repeated env control).1) },
        controls.flatMap fun control => (repeated env control).2)

def setControl (m : MMessage) (scheduler : Scheduler) : Scheduler × Configured :=
  match scheduler.control with
  | none => (scheduler, [])
  | some controls =>
      ({ scheduler with control := some (controls.setControl m).1 }, (controls.setControl m).2)

def resetControl (m : MMessage) (scheduler : Scheduler) : Scheduler :=
  { scheduler with control := scheduler.control.map fun controls => controls.resetControl m }

/-- The measure and the threshold are read again from the sensors. -/
def cached (sensors : SensorSet) (scheduler : Scheduler) : Scheduler :=
  { scheduler with
    sensor := some sensors
    controlMeasure := sensors.getControlMeasure
    threshold := sensors.getThreshold }

def resetTarget (m : MMessage) (scheduler : Scheduler) : Scheduler :=
  match scheduler.sensor with
  | none => scheduler
  | some sensors => scheduler.cached (sensors.resetSensor m)

def setTarget (m : MMessage) (scheduler : Scheduler) : Scheduler × Configured :=
  match scheduler.sensor with
  | none => (scheduler, [])
  | some sensors => (scheduler.cached (sensors.setSensor m).1, (sensors.setSensor m).2)

/-- The calls that the controller makes. -/
inductive Call
  | checkControl (m : MMessage)
  | aligneControl
  | setControl (m : MMessage)
  | resetControl (m : MMessage)
  | setTarget (m : MMessage)
  | resetTarget (m : MMessage)
  deriving DecidableEq

def next (scheduler : Scheduler) (call : Env × Call) : Scheduler :=
  match call.2 with
  | .checkControl m => (scheduler.checkControl call.1 m).1
  | .aligneControl => (scheduler.aligneControl call.1).1
  | .setControl m => (scheduler.setControl m).1
  | .resetControl m => scheduler.resetControl m
  | .setTarget m => (scheduler.setTarget m).1
  | .resetTarget m => scheduler.resetTarget m

/-! ## What a check decides -/

/-- The control that is switched, and the mode it gets. -/
abbrev Pick := Status × ℕ

/-- The controls when the choice is made. -/
def prepared (env : Env) (m : MMessage) (controls : ControlSet) (scheduler : Scheduler) :
    ControlSet :=
  if !scheduler.isstatusON then controls
  else if m.msubtype ≠ scheduler.controlMeasure then controls.handleMode m
  else scheduler.weighed (m.getDouble env "Ipower") controls

/-- Which control a check stops or starts. -/
def pick (env : Env) (m : MMessage) (scheduler : Scheduler) : Option Pick :=
  match scheduler.control with
  | none => none
  | some controls =>
      if !scheduler.isstatusON ∨ m.msubtype ≠ scheduler.controlMeasure then none
      else
        let current := m.getDouble env "Ipower"
        let controls := scheduler.prepared env m controls
        if scheduler.target env < current then
          (toStop env controls).map fun index => (Status.off, index)
        else if current < scheduler.target env then
          (toStart env (scheduler.target env - current) controls).map fun index =>
            (Status.on, index)
        else none

/-- The controls and the commands after a choice. -/
def perform (env : Env) (controls : ControlSet) : Option Pick → ControlSet × List MMessage
  | some (.off, index) => switchAt index (Control.stop env false) controls
  | some (.on, index) => switchAt index (Control.start env false) controls
  | none => (controls, [])

variable {env : Env} {m : MMessage} {scheduler : Scheduler} {controls : ControlSet}

theorem reduceLoad_eq (current : ℚ) (scheduler : Scheduler) :
    (scheduler.reduceLoad env current controls).1.control =
        some (perform env controls
          ((toStop env controls).map fun index => (Status.off, index))).1 ∧
      (scheduler.reduceLoad env current controls).2 =
        (perform env controls ((toStop env controls).map fun index => (Status.off, index))).2 := by
  rw [reduceLoad]
  cases toStop env controls <;> exact ⟨rfl, rfl⟩

theorem tryIncreaseLoad_eq (available : ℚ) (scheduler : Scheduler) :
    (scheduler.tryIncreaseLoad env available controls).1.control =
        some (perform env controls
          ((toStart env available controls).map fun index => (Status.on, index))).1 ∧
      (scheduler.tryIncreaseLoad env available controls).2 =
        (perform env controls
          ((toStart env available controls).map fun index => (Status.on, index))).2 := by
  rw [tryIncreaseLoad]
  cases toStart env available controls <;> exact ⟨rfl, rfl⟩

/-- A check performs its choice: nothing else switches a control. -/
theorem checkControl_eq (hcontrol : scheduler.control = some controls) :
    (scheduler.checkControl env m).1.control =
        some (perform env (scheduler.prepared env m controls) (scheduler.pick env m)).1 ∧
      (scheduler.checkControl env m).2 =
        (perform env (scheduler.prepared env m controls) (scheduler.pick env m)).2 := by
  simp only [checkControl, pick, prepared, hcontrol]
  by_cases hon : scheduler.isstatusON = true
  · by_cases hm : m.msubtype = scheduler.controlMeasure
    · simp only [hon, hm, Bool.not_true, Bool.false_eq_true, if_false, ne_eq, not_true_eq_false,
        or_self]
      split
      · exact reduceLoad_eq _ _
      · split
        · exact tryIncreaseLoad_eq _ _
        · exact ⟨rfl, rfl⟩
    · simp [hon, hm, perform]
  · simp [hon, hcontrol, perform]

/-- The wait of a pick is over; it is commanded, alone, and waits again. -/
theorem perform_pick (hcontrol : scheduler.control = some controls) {status : Status}
    {index : ℕ} (hpick : scheduler.pick env m = some (status, index)) :
    ∃ control value, (scheduler.prepared env m controls)[index]? = some control ∧
      control.waitUntil ≤ env.gettime ∧
      perform env (scheduler.prepared env m controls) (scheduler.pick env m) =
        ((scheduler.prepared env m controls).set index
          ((control.setSaved "mode" value).issue env value).1, [control.command value]) := by
  rw [hpick]
  simp only [pick, hcontrol] at hpick
  generalize scheduler.prepared env m controls = ready at hpick ⊢
  split_ifs at hpick
  · obtain ⟨_, hstop, heq⟩ := Option.map_eq_some_iff.mp hpick
    obtain ⟨rfl, rfl⟩ := Prod.mk.inj heq
    obtain ⟨before, control, rest, rfl, rfl, hmay, _⟩ :=
      (Selection.selectMin_eq_some_iff _).mp hstop
    have hindex : (before ++ control :: rest)[before.length]? = some control := by simp
    refine ⟨control, "OFF", hindex, ((Control.mayStop_iff env control).mp hmay).1, ?_⟩
    simp only [perform, switchAt, hindex, Control.stop_of_mayStop hmay]
    rw [← Control.command_setSaved_mode "OFF" "OFF" control]
    rfl
  · obtain ⟨_, hstart, heq⟩ := Option.map_eq_some_iff.mp hpick
    obtain ⟨rfl, rfl⟩ := Prod.mk.inj heq
    obtain ⟨before, control, rest, rfl, rfl, hmay, _⟩ :=
      (Selection.selectMax_eq_some_iff _).mp hstart
    have hindex : (before ++ control :: rest)[before.length]? = some control := by simp
    refine ⟨control, "ON", hindex, ((Control.mayStart_iff env _ control).mp hmay).1, ?_⟩
    simp only [perform, switchAt, hindex, Control.start_of_mayStart hmay]
    rw [← Control.command_setSaved_mode "ON" "ON" control]
    rfl

/-- Whether an alignment is to repeat the command of a control. -/
def repeats (control : Control) : Bool :=
  control.isstatusON &&
    (control.params.get "mode" = "ON" || control.params.get "mode" = "OFF")

/-- An alignment issues the mode of a control once more, and does not set it. -/
theorem repeated_eq (env : Env) (control : Control) :
    repeated env control =
      if repeats control then control.issue env (control.params.get "mode") else (control, []) := by
  rw [repeated, repeats]
  by_cases hoff : control.params.get "mode" = "OFF"
  · have hmode : control.ismodeON = false := by
      rw [Control.ismodeON, hoff]
      decide
    rw [if_pos hoff, Control.stop, hmode, hoff]
    cases control.isstatusON <;> rfl
  · rw [if_neg hoff]
    by_cases hon : control.params.get "mode" = "ON"
    · have hmode : control.ismodeON = true := decide_eq_true hon
      rw [if_pos hon, Control.start, hmode, hon]
      cases control.isstatusON <;> rfl
    · rw [if_neg hon, decide_eq_false hon, decide_eq_false hoff]
      simp

theorem kept_weighed (current : ℚ) (controls : ControlSet) (scheduler : Scheduler) :
    ControlSet.Kept controls (scheduler.weighed current controls) := by
  rw [weighed]
  split
  · exact Selection.forall₂_modify Control.SameTiming.refl
      (Control.sameTiming_loadestimateUpdate _) controls _
  · exact List.forall₂_same.mpr fun control _ => Control.SameTiming.refl control

theorem kept_prepared (env : Env) (m : MMessage) (controls : ControlSet) (scheduler : Scheduler) :
    ControlSet.Kept controls (scheduler.prepared env m controls) := by
  rw [prepared]
  split_ifs
  · exact List.forall₂_same.mpr fun control _ => Control.SameTiming.refl control
  · exact ControlSet.kept_handleMode m controls
  · exact kept_weighed _ controls scheduler

end Scheduler

end Hat
