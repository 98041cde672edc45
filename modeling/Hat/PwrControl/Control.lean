import Hat.Core.Selection
import Hat.Minilibs.MMessage
import Hat.Minilibs.MParams

/-!
# Controls of electrical loads

A control switches one load on and off through a command.  It says whether it may be started
or stopped at the moment, and waits for its latency after each command.  The set of controls
is changed by messages, which name the control.
-/

namespace Hat

open Hat.Hsrv

structure Control where
  params : MParams
  /-- Negative until the attribute has been read. -/
  latency : ℚ
  /-- What the load has been found to take, or zero. -/
  loadEstimate : ℚ
  waitUntil : ℚ
  deriving DecidableEq

namespace Control

def new (params : MParams) : Control := ⟨params.load, -1, 0, 0⟩

def isstatusON (control : Control) : Bool := control.params.get "status" = "ON"

def ismodeON (control : Control) : Bool := control.params.get "mode" = "ON"

def setSaved (name value : String) (control : Control) : Control :=
  { control with params := (control.params.set name value).save }

def setMode (md : String) (control : Control) : Control :=
  if md ≠ "ON" ∧ md ≠ "OFF" then control else control.setSaved "mode" md

def setStatus (md : String) (control : Control) : Control :=
  if md ≠ "ON" ∧ md ≠ "OFF" then control else control.setSaved "status" md

def setLoad (md : String) (control : Control) : Control :=
  if md = "" then control else control.setSaved "nominalload" md

def setPriority (md : String) (control : Control) : Control :=
  if md = "" then control else control.setSaved "priority" md

def priority (env : Env) (control : Control) : ℤ :=
  if control.params.get "priority" = "" then 0 else a2int env (control.params.get "priority")

def loadestimateUpdate (value : ℚ) (control : Control) : Control :=
  { control with loadEstimate := value }

/-- The load as far as it is known. -/
def load (env : Env) (control : Control) : ℚ :=
  if control.loadEstimate = 0 then a2double env (control.params.get "nominalload")
  else control.loadEstimate

def mayStart (env : Env) (available : ℚ) (control : Control) : Bool :=
  if env.gettime < control.waitUntil then false
  else if !control.isstatusON || control.ismodeON then false
  else decide (control.load env ≤ available * (9 / 10))

def mayStop (env : Env) (control : Control) : Bool :=
  if env.gettime < control.waitUntil then false else control.isstatusON && control.ismodeON

/-- The latency is read when it is needed for the first time. -/
def readLatency (env : Env) (control : Control) : ℚ :=
  if control.latency < 0 then a2double env (control.params.get "latency") else control.latency

def command (value : String) (control : Control) : MMessage :=
  (MMessage.mk2 "cmd" (control.params.get "control")).add "value" value

/-- The common end of `stop` and `start`. -/
def issue (env : Env) (value : String) (control : Control) : Control × List MMessage :=
  ({ control with
      latency := control.readLatency env
      waitUntil := env.gettime + control.readLatency env }, [control.command value])

def stop (env : Env) (force : Bool) (control : Control) : Control × List MMessage :=
  if control.isstatusON && (control.ismodeON || force) then
    (if control.ismodeON then control.setSaved "mode" "OFF" else control).issue env "OFF"
  else (control, [])

def start (env : Env) (force : Bool) (control : Control) : Control × List MMessage :=
  if control.isstatusON && (!control.ismodeON || force) then
    (if !control.ismodeON then control.setSaved "mode" "ON" else control).issue env "ON"
  else (control, [])

theorem get_setSaved_of_ne {name other : String} (hne : name ≠ other) (value : String)
    (control : Control) : (control.setSaved name value).params.get other =
      control.params.get other := by
  rw [setSaved, MParams.get_save, MParams.get_set_of_ne _ _ hne]

/-- What the waiting of a control depends on is the same. -/
structure SameTiming (control changed : Control) : Prop where
  latency : changed.latency = control.latency
  waitUntil : changed.waitUntil = control.waitUntil
  latencyText : changed.params.get "latency" = control.params.get "latency"

theorem SameTiming.refl (control : Control) : SameTiming control control := ⟨rfl, rfl, rfl⟩

theorem SameTiming.trans {first second third : Control} (h : SameTiming first second)
    (h' : SameTiming second third) : SameTiming first third :=
  ⟨h'.latency.trans h.latency, h'.waitUntil.trans h.waitUntil,
    h'.latencyText.trans h.latencyText⟩

theorem SameTiming.set_if {first second : Control} (h : SameTiming first second) (p : Prop)
    [Decidable p] {set : Control → Control} (hset : ∀ control, SameTiming control (set control)) :
    SameTiming first (if p then set second else second) := by
  split
  · exact h.trans (hset second)
  · exact h

theorem sameTiming_setSaved {name : String} (hname : name ≠ "latency") (value : String)
    (control : Control) : SameTiming control (control.setSaved name value) :=
  ⟨rfl, rfl, get_setSaved_of_ne hname value control⟩

theorem sameTiming_setMode (md : String) (control : Control) :
    SameTiming control (control.setMode md) := by
  rw [setMode]
  split
  · exact SameTiming.refl control
  · exact sameTiming_setSaved (by decide) md control

theorem sameTiming_setStatus (md : String) (control : Control) :
    SameTiming control (control.setStatus md) := by
  rw [setStatus]
  split
  · exact SameTiming.refl control
  · exact sameTiming_setSaved (by decide) md control

theorem sameTiming_setLoad (md : String) (control : Control) :
    SameTiming control (control.setLoad md) := by
  rw [setLoad]
  split
  · exact SameTiming.refl control
  · exact sameTiming_setSaved (by decide) md control

theorem sameTiming_setPriority (md : String) (control : Control) :
    SameTiming control (control.setPriority md) := by
  rw [setPriority]
  split
  · exact SameTiming.refl control
  · exact sameTiming_setSaved (by decide) md control

theorem sameTiming_loadestimateUpdate (value : ℚ) (control : Control) :
    SameTiming control (control.loadestimateUpdate value) := ⟨rfl, rfl, rfl⟩

theorem mayStop_iff (env : Env) (control : Control) : control.mayStop env = true ↔
    control.waitUntil ≤ env.gettime ∧ control.isstatusON = true ∧ control.ismodeON = true := by
  rw [mayStop]
  split
  · rename_i hwait
    exact iff_of_false Bool.false_ne_true fun h => absurd h.1 (not_le.mpr hwait)
  · rename_i hwait
    rw [Bool.and_eq_true]
    exact (and_iff_right (not_lt.mp hwait)).symm

theorem mayStart_iff (env : Env) (available : ℚ) (control : Control) :
    control.mayStart env available = true ↔
      control.waitUntil ≤ env.gettime ∧ control.isstatusON = true ∧ control.ismodeON = false ∧
        control.load env ≤ available * (9 / 10) := by
  rw [mayStart]
  split
  · rename_i hwait
    exact iff_of_false Bool.false_ne_true fun h => absurd h.1 (not_le.mpr hwait)
  · rename_i hwait
    rw [and_iff_right (not_lt.mp hwait)]
    cases control.isstatusON <;> cases control.ismodeON <;> simp

theorem stop_of_mayStop {env : Env} {control : Control} (h : control.mayStop env = true) :
    control.stop env false = (control.setSaved "mode" "OFF").issue env "OFF" := by
  obtain ⟨_, hstatus, hmode⟩ := (mayStop_iff env control).mp h
  rw [stop, hstatus, hmode]
  rfl

theorem start_of_mayStart {env : Env} {available : ℚ} {control : Control}
    (h : control.mayStart env available = true) :
    control.start env false = (control.setSaved "mode" "ON").issue env "ON" := by
  obtain ⟨_, hstatus, hmode, _⟩ := (mayStart_iff env available control).mp h
  rw [start, hstatus, hmode]
  rfl

@[simp]
theorem params_issue (env : Env) (value : String) (control : Control) :
    (control.issue env value).1.params = control.params := rfl

theorem command_setSaved_mode (mode value : String) (control : Control) :
    (control.setSaved "mode" mode).command value = control.command value := by
  rw [command, command, get_setSaved_of_ne (by decide)]

/-- The latency that has been read, or that the attribute says if its text is a number. -/
def knownLatency (control : Control) : Option ℚ :=
  if control.latency < 0 then scanDouble (control.params.get "latency").toList
  else some control.latency

theorem readLatency_of_known {control : Control} {latency : ℚ}
    (h : control.knownLatency = some latency) (env : Env) :
    control.readLatency env = latency := by
  rw [knownLatency] at h
  rw [readLatency]
  split
  · rename_i hunread
    rw [if_pos hunread] at h
    rw [a2double, h, Option.getD_some]
  · rename_i hread
    rw [if_neg hread] at h
    exact Option.some.inj h

theorem SameTiming.knownLatency_eq {control changed : Control} (h : SameTiming control changed) :
    changed.knownLatency = control.knownLatency := by
  rw [knownLatency, knownLatency, h.latency, h.latencyText]

/-- A control of a known latency waits that long after a command. -/
theorem issue_of_known {control : Control} {latency : ℚ} (hlatency : 0 ≤ latency)
    (h : control.knownLatency = some latency) (env : Env) (value : String) :
    (control.issue env value).1.knownLatency = some latency ∧
      (control.issue env value).1.waitUntil = env.gettime + latency := by
  rw [issue, readLatency_of_known h env]
  exact ⟨if_neg (not_lt.mpr hlatency), rfl⟩

end Control

/-! ## The set of controls -/

abbrev ControlSet := List Control

/-- A file in the configuration directory with what is written to it. -/
abbrev Configured := List (String × MParams)

namespace ControlSet

/-- The control that a message names. -/
def named (m : MMessage) : String :=
  if m.getString "controlname" ≠ "" then m.getString "controlname"
  else if m.getString "name" ≠ "" then m.getString "name"
  else m.getString "value"

/-- What `setControl` does with the control it has found. -/
def change (m : MMessage) (control : Control) : Control :=
  let control := if m.getString "status" ≠ "" then control.setStatus (m.getString "status")
    else control
  let control := if m.getString "mode" ≠ "" then control.setMode (m.getString "mode") else control
  let control := if m.getString "priority" ≠ "" then control.setPriority (m.getString "priority")
    else control
  if m.getString "nominalload" ≠ "" then control.setLoad (m.getString "nominalload") else control

/-- The loop ends at the first control of the name. -/
def setControl (m : MMessage) (controls : ControlSet) : ControlSet × Configured :=
  (Selection.changeFirst (fun control => named m = control.params.get "name") (change m) controls,
    match controls.find? fun control => named m = control.params.get "name" with
    | some control =>
        if m.getString "configure" = "YES" then
          [("/control/" ++ named m ++ ".xml", (change m control).params)]
        else []
    | none => [])

def reset (control : Control) : Control := (control.setMode "OFF").setPriority "0"

def resetControl (m : MMessage) (controls : ControlSet) : ControlSet :=
  if named m = "" then controls.map reset
  else Selection.changeFirst (fun control => control.params.get "name" = named m) reset controls

def handleMode (m : MMessage) (controls : ControlSet) : ControlSet :=
  let mode := m.getString "value"
  let mode := if mode = "1" then "ON" else if mode = "0" then "OFF" else mode
  controls.map fun control =>
    if control.params.get "name" = m.msubtype then control.setMode mode else control

/-- The controls after a message, one by one. -/
abbrev Kept (controls changed : ControlSet) : Prop :=
  List.Forall₂ Control.SameTiming controls changed

theorem kept_map {change : Control → Control}
    (hchange : ∀ control, Control.SameTiming control (change control)) (controls : ControlSet) :
    Kept controls (controls.map change) :=
  List.forall₂_map_right_iff.mpr (List.forall₂_same.mpr fun control _ => hchange control)

theorem sameTiming_reset (control : Control) : Control.SameTiming control (reset control) :=
  (Control.sameTiming_setMode "OFF" control).trans (Control.sameTiming_setPriority "0" _)

theorem sameTiming_change (m : MMessage) (control : Control) :
    Control.SameTiming control (change m control) := by
  have hstatus := (Control.SameTiming.refl control).set_if (m.getString "status" ≠ "")
    (Control.sameTiming_setStatus (m.getString "status"))
  have hmode := hstatus.set_if (m.getString "mode" ≠ "")
    (Control.sameTiming_setMode (m.getString "mode"))
  have hpriority := hmode.set_if (m.getString "priority" ≠ "")
    (Control.sameTiming_setPriority (m.getString "priority"))
  exact hpriority.set_if (m.getString "nominalload" ≠ "")
    (Control.sameTiming_setLoad (m.getString "nominalload"))

theorem kept_setControl (m : MMessage) (controls : ControlSet) :
    Kept controls (setControl m controls).1 :=
  Selection.forall₂_changeFirst Control.SameTiming.refl
    (fun control _ => sameTiming_change m control) controls

theorem kept_resetControl (m : MMessage) (controls : ControlSet) :
    Kept controls (resetControl m controls) := by
  rw [resetControl]
  split
  · exact kept_map sameTiming_reset controls
  · exact Selection.forall₂_changeFirst Control.SameTiming.refl
      (fun control _ => sameTiming_reset control) controls

theorem kept_handleMode (m : MMessage) (controls : ControlSet) :
    Kept controls (handleMode m controls) := by
  refine kept_map (fun control => ?_) controls
  split
  · exact Control.sameTiming_setMode _ control
  · exact Control.SameTiming.refl control

end ControlSet

end Hat
