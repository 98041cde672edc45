import Hat.Core.Machine
import Hat.PwrControl.Scheduler

/-!
# The control measure

The scheduler keeps the name and the threshold of the sensor that is the control measure.
Among sensors with different names there is at most one such sensor after every call, and
what the scheduler keeps is that of this sensor, or empty if there is none.
-/

namespace Hat.Scheduler

open Hat.Hsrv

/-- What the scheduler keeps belongs to the measure among the sensors. -/
def KeepsMeasure (sensors : SensorSet) (scheduler : Scheduler) : Prop :=
  (∃ sensor ∈ sensors, sensor.ismeasure = true ∧ scheduler.controlMeasure = sensor.name ∧
      scheduler.threshold = sensor.params.get "threshold") ∨
    (∀ sensor ∈ sensors, sensor.ismeasure = false) ∧ scheduler.controlMeasure = "" ∧
      scheduler.threshold = ""

/-- At most one sensor is the measure, and the scheduler keeps its name and threshold. -/
def OneMeasure (scheduler : Scheduler) : Prop :=
  ∃ sensors, scheduler.sensor = some sensors ∧ sensors.Exclusive ∧ scheduler.KeepsMeasure sensors

/-- The invariant: beside the names, which no message changes. -/
structure Measuring (scheduler : Scheduler) : Prop where
  oneMeasure : scheduler.OneMeasure
  distinct : ∀ sensors, scheduler.sensor = some sensors → sensors.Distinct

theorem keepsMeasure_cached (sensors : SensorSet) (scheduler : Scheduler) :
    (scheduler.cached sensors).KeepsMeasure sensors := by
  simp only [KeepsMeasure, cached, SensorSet.getControlMeasure, SensorSet.getThreshold]
  cases hfind : sensors.find? (·.ismeasure) with
  | some sensor =>
      exact Or.inl ⟨sensor, List.mem_of_find?_eq_some hfind, List.find?_some hfind, rfl, rfl⟩
  | none =>
      refine Or.inr ⟨fun sensor hmem => ?_, rfl, rfl⟩
      exact Bool.eq_false_iff.mpr (List.find?_eq_none.mp hfind sensor hmem)

theorem measuring_cached {sensors : SensorSet} (hdistinct : sensors.Distinct)
    (hexclusive : sensors.Exclusive) (scheduler : Scheduler) :
    (scheduler.cached sensors).Measuring where
  oneMeasure := ⟨sensors, rfl, hexclusive, keepsMeasure_cached sensors scheduler⟩
  distinct := by
    rintro other hother
    cases hother
    exact hdistinct

/-- The sensors and what the scheduler keeps of them. -/
def measure (scheduler : Scheduler) : Option SensorSet × String × String :=
  (scheduler.sensor, scheduler.controlMeasure, scheduler.threshold)

theorem Measuring.of_measure_eq {scheduler changed : Scheduler} (h : scheduler.Measuring)
    (hmeasure : changed.measure = scheduler.measure) : changed.Measuring := by
  simp only [measure, Prod.mk.injEq] at hmeasure
  obtain ⟨hsensor, hcontrolMeasure, hthreshold⟩ := hmeasure
  constructor
  · obtain ⟨sensors, hsensors, hexclusive, hkeeps⟩ := h.oneMeasure
    refine ⟨sensors, hsensor.trans hsensors, hexclusive, ?_⟩
    rw [KeepsMeasure, hcontrolMeasure, hthreshold]
    exact hkeeps
  · rw [hsensor]
    exact h.distinct

theorem measure_checkControl (env : Env) (m : MMessage) (scheduler : Scheduler) :
    (scheduler.checkControl env m).1.measure = scheduler.measure := by
  have hreduce : ∀ (current : ℚ) (controls : ControlSet) (scheduler : Scheduler),
      (scheduler.reduceLoad env current controls).1.measure = scheduler.measure := by
    intro current controls scheduler
    rw [reduceLoad]
    cases toStop env controls <;> rfl
  have hincrease : ∀ (available : ℚ) (controls : ControlSet) (scheduler : Scheduler),
      (scheduler.tryIncreaseLoad env available controls).1.measure = scheduler.measure := by
    intro available controls scheduler
    rw [tryIncreaseLoad]
    cases toStart env available controls <;> rfl
  simp only [checkControl]
  split
  · rfl
  · split_ifs
    · rfl
    · rfl
    · exact hreduce _ _ (scheduler.noted _ _)
    · exact hincrease _ _ (scheduler.noted _ _)
    · rfl

theorem measure_aligneControl (env : Env) (scheduler : Scheduler) :
    (scheduler.aligneControl env).1.measure = scheduler.measure := by
  rw [aligneControl]
  split
  · rfl
  · split <;> rfl

theorem measure_setControl (m : MMessage) (scheduler : Scheduler) :
    (scheduler.setControl m).1.measure = scheduler.measure := by
  rw [setControl]
  split <;> rfl

/-- Every call keeps the invariant. -/
theorem measuring_next {scheduler : Scheduler} (h : scheduler.Measuring) (call : Env × Call) :
    (scheduler.next call).Measuring := by
  obtain ⟨sensors, hsensors, hexclusive, _⟩ := h.oneMeasure
  have hdistinct := h.distinct sensors hsensors
  obtain ⟨env, call⟩ := call
  cases call with
  | checkControl m => exact h.of_measure_eq (measure_checkControl env m scheduler)
  | aligneControl => exact h.of_measure_eq (measure_aligneControl env scheduler)
  | setControl m => exact h.of_measure_eq (measure_setControl m scheduler)
  | resetControl m => exact h.of_measure_eq rfl
  | setTarget m =>
      have hnext : scheduler.next (env, .setTarget m) =
          scheduler.cached (sensors.setSensor m).1 := by
        simp only [next, setTarget, hsensors]
      rw [hnext]
      exact measuring_cached (SensorSet.distinct_setSensor hdistinct)
        (SensorSet.exclusive_setSensor hdistinct hexclusive) scheduler
  | resetTarget m =>
      have hnext : scheduler.next (env, .resetTarget m) =
          scheduler.cached (sensors.resetSensor m) := by
        simp only [next, resetTarget, hsensors]
      rw [hnext]
      exact measuring_cached (SensorSet.distinct_resetSensor hdistinct)
        (SensorSet.exclusive_resetSensor hexclusive) scheduler

/-- From sensors with different names and at most one measure, there is at most one measure
after every call, and the scheduler keeps its name and threshold. -/
theorem always_oneMeasure (scheduler : Scheduler) {sensors : SensorSet}
    (hdistinct : sensors.Distinct) (hexclusive : sensors.Exclusive)
    (calls : List (Env × Call)) :
    Machine.Always (Machine.total next) OneMeasure (scheduler.cached sensors) calls := by
  refine Machine.Always.mono (fun _ h => h.oneMeasure)
    (Machine.always_of_invariant ?_ calls (measuring_cached hdistinct hexclusive scheduler))
  intro state call after h hnext
  rw [← Option.some.inj hnext]
  exact measuring_next h call

/-- The power of the grid is the measure, not that of the solar panels. -/
def homeSensors : SensorSet :=
  [("grid", "YES", "3000"), ("solar", "NO", "500")].map fun (name, measure, threshold) =>
    ⟨{ ty := "sensor"
       attributes := [⟨"name", "generic", name⟩, ⟨"control_measure", "generic", measure⟩,
         ⟨"threshold", "generic", threshold⟩]
       path := none
       pathh := none }⟩

/-- The solar panels become the measure, and then there is none. -/
def homeTargets : List (Env × Call) :=
  [(firstNight, .setTarget (((MMessage.mk2 "cmd" "settarget").add "sensorname" "solar").add
      "control_measure" "YES")),
    (firstNight, .resetTarget (MMessage.mk2 "cmd" "resettarget"))]

theorem always_oneMeasure_home : homeSensors.Distinct ∧ homeSensors.Exclusive ∧
    Machine.Always (Machine.total next) OneMeasure
      ((new firstNight ⟨"scheduler", [], none, none⟩ none none).cached homeSensors)
      homeTargets :=
  ⟨by decide, by decide, always_oneMeasure _ (by decide) (by decide) homeTargets⟩

end Hat.Scheduler
