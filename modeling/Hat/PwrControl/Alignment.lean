import Hat.Core.Machine
import Hat.PwrControl.LoadChoice

/-!
# Alignments

An alignment repeats the commands of the controls.  It uses the operations that switch a
control, and so each control it commands waits for its latency once more.  An alignment is
only a repetition exactly when all these controls would have waited as long anyway; a run
whose alignments are such decides the same as the run without them.
-/

namespace Hat

open Hat.Hsrv

namespace Control

/-- The control with its latency read, if the text of the attribute is a number. -/
def settled (control : Control) : Control :=
  { control with latency := control.knownLatency.getD control.latency }

/-- What an alignment must not change. -/
structure SameState (control changed : Control) : Prop where
  mode : changed.params.get "mode" = control.params.get "mode"
  status : changed.params.get "status" = control.params.get "status"
  priority : changed.params.get "priority" = control.params.get "priority"
  waitUntil : changed.waitUntil = control.waitUntil

theorem SameState.refl (control : Control) : SameState control control := ⟨rfl, rfl, rfl, rfl⟩

theorem readLatency_settled (env : Env) (control : Control) :
    control.settled.readLatency env = control.readLatency env := by
  cases hknown : control.knownLatency with
  | none => rw [settled, hknown, Option.getD_none]
  | some latency =>
      rw [readLatency_of_known hknown env, readLatency, settled, hknown, Option.getD_some]
      split
      · -- The latency is negative and is read again.
        rw [knownLatency] at hknown
        split at hknown
        · rw [a2double, hknown, Option.getD_some]
        · rename_i hneg hread
          exact absurd (Option.some.inj hknown ▸ hneg) hread
      · rfl

theorem issue_settled (env : Env) (value : String) (control : Control) :
    control.settled.issue env value = control.issue env value := by
  rw [issue, issue, readLatency_settled]
  rfl

theorem settled_settled (control : Control) : control.settled.settled = control.settled := by
  have hfixed : control.settled.knownLatency.getD control.settled.latency =
      control.settled.latency := by
    rw [settled, knownLatency, knownLatency]
    by_cases hunread : control.latency < 0
    · cases scanDouble (control.params.get "latency").toList <;> simp [hunread]
    · simp [hunread]
  rw [settled, hfixed]

theorem settled_setSaved {name : String} (hname : name ≠ "latency") (value : String)
    (control : Control) : (control.setSaved name value).settled =
      control.settled.setSaved name value := by
  have hknown := (sameTiming_setSaved hname value control).knownLatency_eq
  rw [settled, hknown]
  rfl

theorem settled_setMode (md : String) (control : Control) :
    control.settled.setMode md = (control.setMode md).settled := by
  rw [setMode, setMode]
  split
  · rfl
  · exact (settled_setSaved (by decide) md control).symm

theorem settled_setStatus (md : String) (control : Control) :
    control.settled.setStatus md = (control.setStatus md).settled := by
  rw [setStatus, setStatus]
  split
  · rfl
  · exact (settled_setSaved (by decide) md control).symm

theorem settled_setLoad (md : String) (control : Control) :
    control.settled.setLoad md = (control.setLoad md).settled := by
  rw [setLoad, setLoad]
  split
  · rfl
  · exact (settled_setSaved (by decide) md control).symm

theorem settled_setPriority (md : String) (control : Control) :
    control.settled.setPriority md = (control.setPriority md).settled := by
  rw [setPriority, setPriority]
  split
  · rfl
  · exact (settled_setSaved (by decide) md control).symm

/-- What is set under a condition is set before or after the latency is read. -/
theorem settled_set_if {first second : Control} (h : second = first.settled) (p : Prop)
    [Decidable p] {set : Control → Control}
    (hset : ∀ control : Control, set control.settled = (set control).settled) :
    (if p then set second else second) = (if p then set first else first).settled := by
  rw [h]
  split
  · exact hset first
  · rfl

/-- Switching comes to the same whether the latency has been read or not. -/
theorem settled_stop (env : Env) (control : Control) :
    (control.settled.stop env false).1.settled = (control.stop env false).1.settled ∧
      (control.settled.stop env false).2 = (control.stop env false).2 := by
  have hne : "mode" ≠ "latency" := by decide
  have hstatus : control.settled.isstatusON = control.isstatusON := rfl
  have hmode : control.settled.ismodeON = control.ismodeON := rfl
  rw [stop, stop, hstatus, hmode]
  split
  · split
    · rw [← settled_setSaved hne, issue_settled]
      exact ⟨rfl, rfl⟩
    · rw [issue_settled]
      exact ⟨rfl, rfl⟩
  · exact ⟨settled_settled control, rfl⟩

theorem settled_start (env : Env) (control : Control) :
    (control.settled.start env false).1.settled = (control.start env false).1.settled ∧
      (control.settled.start env false).2 = (control.start env false).2 := by
  have hne : "mode" ≠ "latency" := by decide
  have hstatus : control.settled.isstatusON = control.isstatusON := rfl
  have hmode : control.settled.ismodeON = control.ismodeON := rfl
  rw [start, start, hstatus, hmode]
  split
  · split
    · rw [← settled_setSaved hne, issue_settled]
      exact ⟨rfl, rfl⟩
    · rw [issue_settled]
      exact ⟨rfl, rfl⟩
  · exact ⟨settled_settled control, rfl⟩

end Control

namespace ControlSet

theorem settled_change (m : MMessage) (control : Control) :
    change m control.settled = (change m control).settled := by
  have hself : control.settled = control.settled := rfl
  have hstatus := Control.settled_set_if hself (m.getString "status" ≠ "")
    (Control.settled_setStatus (m.getString "status"))
  have hmode := Control.settled_set_if hstatus (m.getString "mode" ≠ "")
    (Control.settled_setMode (m.getString "mode"))
  have hpriority := Control.settled_set_if hmode (m.getString "priority" ≠ "")
    (Control.settled_setPriority (m.getString "priority"))
  exact Control.settled_set_if hpriority (m.getString "nominalload" ≠ "")
    (Control.settled_setLoad (m.getString "nominalload"))

theorem settled_reset (control : Control) : reset control.settled = (reset control).settled := by
  rw [reset, reset, Control.settled_setMode, Control.settled_setPriority]

theorem settled_setControl (m : MMessage) (controls : ControlSet) :
    (setControl m (controls.map Control.settled)).1 =
      (setControl m controls).1.map Control.settled :=
  Selection.map_changeFirst (fun _ => rfl) (settled_change m) controls

theorem settled_resetControl (m : MMessage) (controls : ControlSet) :
    resetControl m (controls.map Control.settled) =
      (resetControl m controls).map Control.settled := by
  rw [resetControl, resetControl]
  split
  · rw [List.map_map, List.map_map]
    exact List.map_congr_left fun control _ => settled_reset control
  · exact Selection.map_changeFirst (fun _ => rfl) settled_reset controls

theorem settled_handleMode (m : MMessage) (controls : ControlSet) :
    handleMode m (controls.map Control.settled) =
      (handleMode m controls).map Control.settled := by
  simp only [handleMode, List.map_map]
  refine List.map_congr_left fun control _ => ?_
  simp only [Function.comp_apply]
  have hname : control.settled.params = control.params := rfl
  rw [hname]
  split
  · exact Control.settled_setMode _ control
  · rfl

end ControlSet

namespace Scheduler

/-- The scheduler with all latencies read. -/
def settled (scheduler : Scheduler) : Scheduler :=
  { scheduler with control := scheduler.control.map (List.map Control.settled) }

theorem settled_weighed (current : ℚ) (controls : ControlSet) (scheduler : Scheduler) :
    scheduler.settled.weighed current (controls.map Control.settled) =
      (scheduler.weighed current controls).map Control.settled := by
  have hsame : ∀ controls, scheduler.settled.weighed current controls =
      scheduler.weighed current controls := fun _ => rfl
  have hupdate : ∀ control : Control,
      control.settled.loadestimateUpdate (scheduler.targetvalueAtstop - current) =
        (control.loadestimateUpdate (scheduler.targetvalueAtstop - current)).settled :=
    fun _ => rfl
  rw [hsame, weighed, weighed]
  split
  · exact Selection.map_modify hupdate controls _
  · rfl

theorem toStop_settled (env : Env) (controls : ControlSet) :
    toStop env (controls.map Control.settled) = toStop env controls :=
  Selection.selectMin_map Control.settled controls

theorem toStart_settled (env : Env) (available : ℚ) (controls : ControlSet) :
    toStart env available (controls.map Control.settled) = toStart env available controls :=
  Selection.selectMax_map Control.settled controls

theorem map_settled_settled (controls : ControlSet) :
    (controls.map Control.settled).map Control.settled = controls.map Control.settled := by
  rw [List.map_map]
  exact List.map_congr_left fun control _ => Control.settled_settled control

theorem settled_switchAt {switch : Control → Control × List MMessage}
    (hswitch : ∀ control : Control, (switch control.settled).1.settled =
      (switch control).1.settled) (index : ℕ) (controls : ControlSet) :
    (switchAt index switch (controls.map Control.settled)).1.map Control.settled =
      (switchAt index switch controls).1.map Control.settled := by
  rw [switchAt, switchAt, List.getElem?_map]
  cases controls[index]? with
  | none => exact map_settled_settled controls
  | some control => simp only [Option.map_some, List.map_set, map_settled_settled, hswitch]

/-- What is put into the place of the controls decides the settled scheduler. -/
theorem settled_congr {controls controls' : ControlSet}
    (h : controls'.map Control.settled = controls.map Control.settled) (scheduler : Scheduler)
    (other : Option ControlSet) :
    settled { { scheduler with control := other } with control := some controls' } =
      settled { scheduler with control := some controls } := by
  rw [settled, settled, Option.map_some, Option.map_some, h]

theorem settled_reduceLoad (env : Env) (current : ℚ) (controls : ControlSet)
    (scheduler : Scheduler) (other : Option ControlSet) :
    (({ scheduler with control := other }).reduceLoad env current
        (controls.map Control.settled)).1.settled =
      (scheduler.reduceLoad env current controls).1.settled := by
  rw [reduceLoad, reduceLoad, toStop_settled]
  cases toStop env controls with
  | none => exact settled_congr (map_settled_settled controls) scheduler other
  | some index =>
      have hswitch := settled_switchAt (fun control => (Control.settled_stop env control).1)
        index controls
      exact settled_congr hswitch { scheduler with
        lastStopped := index
        stopTime := env.gettime
        targetvalueAtstop := current } other

theorem settled_tryIncreaseLoad (env : Env) (available : ℚ) (controls : ControlSet)
    (scheduler : Scheduler) (other : Option ControlSet) :
    (({ scheduler with control := other }).tryIncreaseLoad env available
        (controls.map Control.settled)).1.settled =
      (scheduler.tryIncreaseLoad env available controls).1.settled := by
  rw [tryIncreaseLoad, tryIncreaseLoad, toStart_settled]
  cases toStart env available controls with
  | none => exact settled_congr (map_settled_settled controls) scheduler other
  | some index =>
      have hswitch := settled_switchAt (fun control => (Control.settled_start env control).1)
        index controls
      exact settled_congr hswitch scheduler other

/-- A check comes to the same whether the latencies have been read or not. -/
theorem settled_checkControl (env : Env) (m : MMessage) (scheduler : Scheduler) :
    (scheduler.settled.checkControl env m).1.settled =
      (scheduler.checkControl env m).1.settled := by
  cases hcontrol : scheduler.control with
  | none =>
      have hsame : scheduler.settled = scheduler := by
        rw [settled, hcontrol, Option.map_none, ← hcontrol]
      rw [hsame]
  | some controls =>
      have hsettled : scheduler.settled.control = some (controls.map Control.settled) := by
        rw [settled, hcontrol, Option.map_some]
      have hstatus : scheduler.settled.isstatusON = scheduler.isstatusON := rfl
      have hmeasure : scheduler.settled.controlMeasure = scheduler.controlMeasure := rfl
      have htarget : scheduler.settled.target env = scheduler.target env := rfl
      have hself : settled scheduler.settled = scheduler.settled := by
        simp only [settled, hcontrol, Option.map_some, map_settled_settled]
      simp only [checkControl, hsettled, hcontrol, hstatus, hmeasure, htarget, settled_weighed,
        ControlSet.settled_handleMode]
      split_ifs
      · exact hself
      · exact settled_congr (map_settled_settled (controls.handleMode m)) scheduler _
      · exact settled_reduceLoad env _ _ (scheduler.noted _ _) _
      · exact settled_tryIncreaseLoad env _ _ (scheduler.noted _ _) _
      · exact settled_congr (map_settled_settled (scheduler.weighed _ controls))
          (scheduler.noted (m.getDouble env "Ipower") controls) none

/-- A check decides the same whether the latencies have been read or not. -/
theorem pick_settled (env : Env) (m : MMessage) (scheduler : Scheduler) :
    scheduler.settled.pick env m = scheduler.pick env m := by
  have hstatus : scheduler.settled.isstatusON = scheduler.isstatusON := rfl
  have hmeasure : scheduler.settled.controlMeasure = scheduler.controlMeasure := rfl
  have htarget : scheduler.settled.target env = scheduler.target env := rfl
  cases hcontrol : scheduler.control with
  | none => simp only [pick, settled, hcontrol, Option.map_none]
  | some controls =>
      have hsettled : scheduler.settled.control = some (controls.map Control.settled) := by
        rw [settled, hcontrol, Option.map_some]
      have hprepared : scheduler.settled.prepared env m (controls.map Control.settled) =
          (scheduler.prepared env m controls).map Control.settled := by
        rw [prepared, prepared, settled_weighed, ControlSet.settled_handleMode, hstatus, hmeasure]
        split_ifs <;> rfl
      simp only [pick, hsettled, hcontrol, hstatus, hmeasure, htarget, hprepared, toStop_settled,
        toStart_settled]

theorem settled_aligneControl (env : Env) (scheduler : Scheduler) :
    (scheduler.settled.aligneControl env).1.settled =
      (scheduler.aligneControl env).1.settled := by
  have hrepeated : ∀ control : Control, (repeated env control.settled).1.settled =
      (repeated env control).1.settled := by
    intro control
    have hrepeats : repeats control.settled = repeats control := rfl
    have hparams : control.settled.params = control.params := rfl
    rw [repeated_eq, repeated_eq, hrepeats, hparams, Control.issue_settled]
    split
    · rfl
    · exact Control.settled_settled control
  have hstatus : scheduler.settled.isstatusON = scheduler.isstatusON := rfl
  cases hcontrol : scheduler.control with
  | none => simp only [aligneControl, settled, hcontrol, Option.map_none]
  | some controls =>
      have hsettled : scheduler.settled.control = some (controls.map Control.settled) := by
        rw [settled, hcontrol, Option.map_some]
      simp only [aligneControl, hsettled, hcontrol, hstatus]
      split
      · simp only [settled, hcontrol, Option.map_some, map_settled_settled]
      · refine settled_congr ?_ scheduler _
        simp only [List.map_map]
        exact List.map_congr_left fun control _ => hrepeated control

theorem settled_settled (scheduler : Scheduler) :
    scheduler.settled.settled = scheduler.settled := by
  cases hcontrol : scheduler.control with
  | none => simp only [settled, hcontrol, Option.map_none]
  | some controls => simp only [settled, hcontrol, Option.map_some, map_settled_settled]

/-- A call comes to the same whether the latencies have been read or not. -/
theorem settled_next (scheduler : Scheduler) (call : Env × Call) :
    (scheduler.settled.next call).settled = (scheduler.next call).settled := by
  have hsensor : scheduler.settled.sensor = scheduler.sensor := rfl
  obtain ⟨env, call⟩ := call
  cases call with
  | checkControl m => exact settled_checkControl env m scheduler
  | aligneControl => exact settled_aligneControl env scheduler
  | setControl m =>
      cases hcontrol : scheduler.control with
      | none => simp only [next, setControl, settled, hcontrol, Option.map_none]
      | some controls =>
          simp only [next, setControl, settled, hcontrol, Option.map_some,
            ControlSet.settled_setControl, map_settled_settled]
  | resetControl m =>
      cases hcontrol : scheduler.control with
      | none => simp only [next, resetControl, settled, hcontrol, Option.map_none]
      | some controls =>
          simp only [next, resetControl, settled, hcontrol, Option.map_some,
            ControlSet.settled_resetControl, map_settled_settled]
  | setTarget m =>
      simp only [next, setTarget, hsensor]
      cases scheduler.sensor with
      | none => exact settled_settled scheduler
      | some sensors => exact congrArg (cached _) (settled_settled scheduler)
  | resetTarget m =>
      simp only [next, resetTarget, hsensor]
      cases scheduler.sensor with
      | none => exact settled_settled scheduler
      | some sensors => exact congrArg (cached _) (settled_settled scheduler)

/-- An alignment gives each control that is to be aligned one command equal to its mode, and
changes no mode, status, priority or wait, whatever an unset variable holds. -/
def RepeatsOnly (env : Env) (scheduler : Scheduler) : Prop :=
  ∀ unset controls, scheduler.control = some controls →
    (scheduler.aligneControl { env with unsetDouble := unset }).2 =
        (controls.filter repeats).map (fun control =>
          control.command (control.params.get "mode")) ∧
      ∃ after, (scheduler.aligneControl { env with unsetDouble := unset }).1.control =
          some after ∧ List.Forall₂ Control.SameState controls after

/-- Each control that is to be aligned would wait for its latency from now on anyway, and the
scheduler is on. -/
def Quiet (env : Env) (scheduler : Scheduler) : Prop :=
  ∀ controls, scheduler.control = some controls → ∀ control ∈ controls,
    repeats control = true → scheduler.isstatusON = true ∧
      ∃ latency, control.knownLatency = some latency ∧
        control.waitUntil = env.gettime + latency

theorem commands_repeated (env : Env) (controls : ControlSet) :
    (controls.flatMap fun control => (repeated env control).2) =
      (controls.filter repeats).map fun control =>
        control.command (control.params.get "mode") := by
  induction controls with
  | nil => rfl
  | cons control rest ih =>
      rw [List.flatMap_cons, ih, repeated_eq]
      cases hrepeats : repeats control with
      | true => rw [List.filter_cons_of_pos hrepeats, List.map_cons, if_pos rfl]; rfl
      | false =>
          rw [List.filter_cons_of_neg (by rw [hrepeats]; exact Bool.false_ne_true),
            if_neg Bool.false_ne_true]
          rfl

/-- Reading a latency that no text says gives what the unset variable holds. -/
theorem readLatency_of_unknown {control : Control} (hnone : control.knownLatency = none)
    (env : Env) : control.readLatency env = env.unsetDouble := by
  rw [Control.knownLatency] at hnone
  split at hnone
  · rename_i hunread
    rw [Control.readLatency, if_pos hunread, a2double, hnone, Option.getD_none]
  · exact absurd hnone (Option.some_ne_none _)

theorem RepeatsOnly.quiet {env : Env} {scheduler : Scheduler} (h : scheduler.RepeatsOnly env) :
    scheduler.Quiet env := by
  intro controls hcontrol control hmem hrepeats
  have hcommanded : (controls.filter repeats).map (fun control =>
      control.command (control.params.get "mode")) ≠ [] := by
    rw [Ne, List.map_eq_nil_iff]
    exact List.ne_nil_of_mem (List.mem_filter.mpr ⟨hmem, hrepeats⟩)
  have hon : scheduler.isstatusON = true := by
    by_contra hoff
    refine hcommanded ((h 0 controls hcontrol).1.symm.trans ?_)
    rw [Bool.not_eq_true] at hoff
    simp only [aligneControl, hcontrol, hoff, Bool.not_false, if_true]
  refine ⟨hon, ?_⟩
  have hwait : ∀ unset, control.waitUntil =
      env.gettime + control.readLatency { env with unsetDouble := unset } := by
    intro unset
    obtain ⟨_, after, hafter, hsame⟩ := h unset controls hcontrol
    rw [aligneControl, hcontrol] at hafter
    simp only [hon, Bool.not_true, Bool.false_eq_true, if_false, Option.some.injEq] at hafter
    rw [← hafter, List.forall₂_map_right_iff, List.forall₂_same] at hsame
    have huntil := (hsame control hmem).waitUntil
    rw [repeated_eq, if_pos hrepeats] at huntil
    exact huntil.symm
  cases hknown : control.knownLatency with
  | some latency => exact ⟨latency, rfl, Control.readLatency_of_known hknown _ ▸ hwait 0⟩
  | none =>
      have hzero := hwait 0
      have hone := hwait 1
      rw [readLatency_of_unknown hknown] at hzero hone
      have hcontra : (0 : ℚ) = 1 := add_left_cancel (hzero.symm.trans hone)
      exact absurd hcontra zero_ne_one

/-- A quiet alignment does no more to the controls than to read their latencies. -/
theorem repeated_of_quiet {env : Env} {scheduler : Scheduler} (h : scheduler.Quiet env)
    {controls : ControlSet} (hcontrol : scheduler.control = some controls) (unset : ℚ)
    {control : Control} (hmem : control ∈ controls) :
    (repeated { env with unsetDouble := unset } control).1 =
      if repeats control then control.settled else control := by
  rw [repeated_eq]
  split
  · rename_i hrepeats
    obtain ⟨_, latency, hknown, hwait⟩ := h controls hcontrol control hmem hrepeats
    rw [Control.issue, Control.readLatency_of_known hknown, Control.settled, hknown,
      Option.getD_some, ← hwait]
  · rfl

theorem Quiet.repeatsOnly {env : Env} {scheduler : Scheduler} (h : scheduler.Quiet env) :
    scheduler.RepeatsOnly env := by
  intro unset controls hcontrol
  simp only [aligneControl, hcontrol]
  cases hon : scheduler.isstatusON with
  | false =>
      have hnone : controls.filter repeats = [] := by
        refine List.filter_eq_nil_iff.mpr fun control hmem hrepeats => ?_
        have htrue := (h controls hcontrol control hmem hrepeats).1
        rw [hon] at htrue
        exact Bool.false_ne_true htrue
      refine ⟨by rw [hnone]; rfl, controls, hcontrol, ?_⟩
      exact List.forall₂_same.mpr fun control _ => Control.SameState.refl control
  | true =>
      refine ⟨commands_repeated _ controls, _, rfl, ?_⟩
      rw [List.forall₂_map_right_iff, List.forall₂_same]
      intro control hmem
      rw [repeated_of_quiet h hcontrol unset hmem]
      split
      · exact ⟨rfl, rfl, rfl, rfl⟩
      · exact Control.SameState.refl control

theorem Quiet.settled_aligneControl {env : Env} {scheduler : Scheduler}
    (h : scheduler.Quiet env) :
    (scheduler.aligneControl env).1.settled = scheduler.settled := by
  cases hcontrol : scheduler.control with
  | none => rw [aligneControl, hcontrol]
  | some controls =>
      simp only [aligneControl, hcontrol]
      split
      · rfl
      · have hsame : (controls.map fun control => (repeated env control).1).map Control.settled =
            controls.map Control.settled := by
          rw [List.map_map]
          refine List.map_congr_left fun control hmem => ?_
          have hrepeated : (repeated env control).1 =
              if repeats control then control.settled else control :=
            repeated_of_quiet h hcontrol env.unsetDouble hmem
          rw [Function.comp_apply, hrepeated]
          split
          · exact Control.settled_settled control
          · rfl
        rw [settled, settled, hcontrol, Option.map_some, Option.map_some, hsame]

/-! ## Runs with and without alignments -/

/-- What a check decides; other calls decide nothing. -/
def decided (scheduler : Scheduler) (call : Env × Call) : Option (Option Pick) :=
  match call.2 with
  | .checkControl m => some (scheduler.pick call.1 m)
  | _ => none

/-- What the checks of a run decide, one after the other. -/
def decisions (scheduler : Scheduler) (calls : List (Env × Call)) : List (Option Pick) :=
  Machine.outputs next decided scheduler calls

def isOther (call : Env × Call) : Bool := call.2 ≠ .aligneControl

theorem eq_aligneControl {call : Env × Call} (h : isOther call = false) :
    call.2 = .aligneControl := by
  rw [isOther, decide_eq_false_iff_not, not_not] at h
  exact h

/-- In a run all alignments only repeat commands, and the checks decide as they do without the
alignments, exactly if each alignment is quiet. -/
theorem unnoticed_iff (scheduler : Scheduler) (calls : List (Env × Call)) :
    (Machine.Along (Machine.total next)
        (fun scheduler call => call.2 = .aligneControl → scheduler.RepeatsOnly call.1)
        scheduler calls ∧
      scheduler.decisions (calls.filter isOther) = scheduler.decisions calls) ↔
    Machine.Along (Machine.total next)
      (fun scheduler call => call.2 = .aligneControl → scheduler.Quiet call.1)
      scheduler calls := by
  constructor
  · rintro ⟨hrepeats, _⟩
    exact hrepeats.mono fun _ _ h hcall => (h hcall).quiet
  · intro hquiet
    refine ⟨hquiet.mono fun _ _ h hcall => (h hcall).repeatsOnly, ?_⟩
    have hseen : ∀ state other call, settled state = settled other →
        decided state call = decided other call := by
      intro state other call hview
      have hpick : ∀ m, state.pick call.1 m = other.pick call.1 m := by
        intro m
        rw [← pick_settled, hview, pick_settled]
      simp only [decided, hpick]
    have hadvance : ∀ state other call, settled state = settled other →
        settled (next state call) = settled (next other call) := by
      intro state other call hview
      rw [← settled_next, hview, settled_next]
    have hnone : ∀ state call, isOther call = false → decided state call = none := by
      intro state call hcall
      rw [decided, eq_aligneControl hcall]
    refine Machine.outputs_filter_of_silent hseen hadvance hnone (hquiet.mono ?_)
    intro state call h hcall
    rw [next, eq_aligneControl hcall]
    exact (h (eq_aligneControl hcall)).settled_aligneControl

/-- An alignment a second before a measurement above the target. -/
def alignedFirst : List (Env × Call) :=
  [(clockAt 99, .aligneControl), (clockAt 100, .checkControl (gridPower "4500"))]

/-- The boiler, which would have been stopped, waits once more and is left on. -/
theorem noticed_boiler :
    ¬(homeScheduler [boiler "5"]).RepeatsOnly (clockAt 99) ∧
      (homeScheduler [boiler "5"]).decisions (alignedFirst.filter isOther) =
        [some (Status.off, 0)] ∧
      (homeScheduler [boiler "5"]).decisions alignedFirst = [none] := by
  refine ⟨fun hrepeats => ?_, by decide +kernel, by decide +kernel⟩
  obtain ⟨_, latency, hknown, hwait⟩ :=
    hrepeats.quiet [boiler "5"] rfl (boiler "5") List.mem_cons_self (by decide)
  have hminute : (boiler "5").knownLatency = some 60 := by decide +kernel
  obtain rfl : (60 : ℚ) = latency := Option.some.inj (hminute.symm.trans hknown)
  have hnow : (boiler "5").waitUntil = 0 ∧ (clockAt 99).gettime = 99 := ⟨rfl, rfl⟩
  rw [hnow.1, hnow.2] at hwait
  norm_num at hwait

end Scheduler

end Hat
