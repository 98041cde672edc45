import Hat.PwrControl.Control

/-!
# Sensors of electrical power

One of the sensors gives the control measure.  A message that makes a sensor the measure is
followed by a second pass over the set, which takes the measure from all others.  Sensors
with different names thus never include two measures.
-/

namespace Hat

open Hat.Hsrv

structure Sensor where
  params : MParams
  deriving DecidableEq

namespace Sensor

def new (params : MParams) : Sensor := ⟨params.load⟩

def isstatusON (sensor : Sensor) : Bool := sensor.params.get "status" = "ON"

def ismeasure (sensor : Sensor) : Bool := sensor.params.get "control_measure" = "YES"

def setSaved (name value : String) (sensor : Sensor) : Sensor :=
  ⟨(sensor.params.set name value).save⟩

def setMeasure (md : String) (sensor : Sensor) : Sensor :=
  if md ≠ "YES" ∧ md ≠ "NO" then sensor else sensor.setSaved "control_measure" md

def setStatus (md : String) (sensor : Sensor) : Sensor :=
  if md ≠ "ON" ∧ md ≠ "OFF" then sensor else sensor.setSaved "status" md

def setThreshold (md : String) (sensor : Sensor) : Sensor :=
  if md = "" then sensor else sensor.setSaved "threshold" md

def name (sensor : Sensor) : String := sensor.params.get "name"

theorem get_setSaved_of_ne {name other : String} (hne : name ≠ other) (value : String)
    (sensor : Sensor) :
    (sensor.setSaved name value).params.get other = sensor.params.get other := by
  rw [setSaved, MParams.get_save, MParams.get_set_of_ne _ _ hne]

theorem name_setMeasure (md : String) (sensor : Sensor) :
    (sensor.setMeasure md).name = sensor.name := by
  rw [setMeasure]
  split
  · rfl
  · exact get_setSaved_of_ne (by decide) md sensor

theorem name_setStatus (md : String) (sensor : Sensor) :
    (sensor.setStatus md).name = sensor.name := by
  rw [setStatus]
  split
  · rfl
  · exact get_setSaved_of_ne (by decide) md sensor

theorem name_setThreshold (md : String) (sensor : Sensor) :
    (sensor.setThreshold md).name = sensor.name := by
  rw [setThreshold]
  split
  · rfl
  · exact get_setSaved_of_ne (by decide) md sensor

theorem ismeasure_setThreshold (md : String) (sensor : Sensor) :
    (sensor.setThreshold md).ismeasure = sensor.ismeasure := by
  rw [setThreshold]
  split
  · rfl
  · rw [ismeasure, ismeasure, get_setSaved_of_ne (by decide)]

/-- A sensor from which the measure has been taken is none, also if it lacks the attribute. -/
theorem ismeasure_setMeasure_no (sensor : Sensor) : (sensor.setMeasure "NO").ismeasure = false := by
  rw [setMeasure, if_neg (by decide), ismeasure, setSaved, MParams.get_save]
  refine decide_eq_false fun hyes => ?_
  have hvalue : "NO" ≠ "" := by decide
  obtain hno | hsame := MParams.get_set_cases sensor.params "control_measure" hvalue
  · exact absurd (hno.symm.trans hyes) (by decide)
  · rw [hsame] at hyes
    have hself : (sensor.params.set "control_measure" "NO").get "control_measure" = "NO" :=
      MParams.get_set_self sensor.params hvalue (by rw [hyes]; decide)
    rw [hsame, hyes] at hself
    exact absurd hself (by decide)

end Sensor

abbrev SensorSet := List Sensor

namespace SensorSet

def named (m : MMessage) : String :=
  if m.getString "sensorname" ≠ "" then m.getString "sensorname"
  else if m.getString "name" ≠ "" then m.getString "name"
  else m.getString "value"

/-- What `setSensor` does with a sensor of the name. -/
def update (m : MMessage) (sensor : Sensor) : Sensor :=
  ((sensor.setStatus (m.getString "status")).setMeasure
    (m.getString "control_measure")).setThreshold (m.getString "threshold")

def file (sensor : Sensor) : String × MParams :=
  ("/sensor/" ++ sensor.name ++ ".xml", sensor.params)

def setSensor (m : MMessage) (sensors : SensorSet) : SensorSet × Configured :=
  let name := named m
  let configure := m.getString "configure" = "YES"
  let updated := sensors.map fun sensor => if name = sensor.name then update m sensor else sensor
  let files := if configure then
      (sensors.filter fun sensor => name = sensor.name).map fun sensor => file (update m sensor)
    else []
  let done := sensors.foldl
    (fun done sensor => if name = sensor.name then (update m sensor).ismeasure else done) false
  if done then
    let others := updated.map fun sensor =>
      if name ≠ sensor.name then sensor.setMeasure "NO" else sensor
    (others, files ++ if configure then
        (others.filter fun sensor => name ≠ sensor.name).map file
      else [])
  else (updated, files)

/-- The source asks for `controlname` here. -/
def resetNamed (m : MMessage) : String := ControlSet.named m

def reset (sensor : Sensor) : Sensor := (sensor.setMeasure "NO").setThreshold "3000"

def resetSensor (m : MMessage) (sensors : SensorSet) : SensorSet :=
  if resetNamed m = "" then sensors.map reset
  else Selection.changeFirst (fun sensor => sensor.name = resetNamed m) reset sensors

def getControlMeasure (sensors : SensorSet) : String :=
  match sensors.find? (·.ismeasure) with
  | some sensor => sensor.name
  | none => ""

def getThreshold (sensors : SensorSet) : String :=
  match sensors.find? (·.ismeasure) with
  | some sensor => sensor.params.get "threshold"
  | none => ""

/-- The sensors have different names. -/
def Distinct (sensors : SensorSet) : Prop := sensors.Pairwise fun a b => a.name ≠ b.name

/-- No two of the sensors are the control measure. -/
def Exclusive (sensors : SensorSet) : Prop :=
  sensors.Pairwise fun a b => ¬(a.ismeasure = true ∧ b.ismeasure = true)

instance (sensors : SensorSet) : Decidable (Distinct sensors) :=
  inferInstanceAs (Decidable (List.Pairwise _ sensors))

instance (sensors : SensorSet) : Decidable (Exclusive sensors) :=
  inferInstanceAs (Decidable (List.Pairwise _ sensors))

/-- A sensor that keeps its name and has not become the measure. -/
structure Yields (sensor changed : Sensor) : Prop where
  name : changed.name = sensor.name
  ismeasure : changed.ismeasure = true → sensor.ismeasure = true

variable {m : MMessage} {sensors changed : SensorSet}

theorem Yields.refl (sensor : Sensor) : Yields sensor sensor := ⟨rfl, id⟩

theorem distinct_of_names (hnames : List.Forall₂ (fun a b => Sensor.name b = Sensor.name a)
    sensors changed) (hdistinct : Distinct sensors) : Distinct changed :=
  Selection.pairwise_of_forall₂ (fun _ _ _ _ ha hb hne heq => hne (ha ▸ hb ▸ heq)) hnames
    hdistinct

theorem exclusive_of_yields (hyields : List.Forall₂ Yields sensors changed)
    (hexclusive : Exclusive sensors) : Exclusive changed :=
  Selection.pairwise_of_forall₂
    (fun _ _ _ _ ha hb hnot hboth => hnot ⟨ha.ismeasure hboth.1, hb.ismeasure hboth.2⟩) hyields
    hexclusive

/-- Where all measures have one name, there is at most one among sensors of different names. -/
theorem exclusive_of_name {name : String} (hdistinct : Distinct sensors)
    (hname : ∀ sensor ∈ sensors, sensor.ismeasure = true → sensor.name = name) :
    Exclusive sensors :=
  hdistinct.imp_of_mem fun ha hb hne hboth =>
    hne ((hname _ ha hboth.1).trans (hname _ hb hboth.2).symm)

theorem name_update (m : MMessage) (sensor : Sensor) : (update m sensor).name = sensor.name := by
  rw [update, Sensor.name_setThreshold, Sensor.name_setMeasure, Sensor.name_setStatus]

theorem yields_reset (sensor : Sensor) : Yields sensor (reset sensor) where
  name := by rw [reset, Sensor.name_setThreshold, Sensor.name_setMeasure]
  ismeasure := by
    rw [reset, Sensor.ismeasure_setThreshold, Sensor.ismeasure_setMeasure_no]
    exact fun h => absurd h Bool.false_ne_true

theorem yields_resetSensor (m : MMessage) (sensors : SensorSet) :
    List.Forall₂ Yields sensors (resetSensor m sensors) := by
  rw [resetSensor]
  split
  · exact List.forall₂_map_right_iff.mpr (List.forall₂_same.mpr fun s _ => yields_reset s)
  · exact Selection.forall₂_changeFirst Yields.refl (fun s _ => yields_reset s) sensors

/-- Among sensors of different names, the flag of the first pass is that of the one named. -/
theorem foldl_done {name : String} {measure : Sensor → Bool} {sensors : SensorSet}
    (hdistinct : Distinct sensors) (done : Bool) {sensor : Sensor} (hmem : sensor ∈ sensors)
    (hname : name = sensor.name) :
    sensors.foldl (fun done s => if name = s.name then measure s else done) done =
      measure sensor := by
  induction sensors generalizing done with
  | nil => exact absurd hmem List.not_mem_nil
  | cons head rest ih =>
      obtain ⟨hhead, hrest⟩ := List.pairwise_cons.mp hdistinct
      rw [List.foldl_cons]
      obtain rfl | hmem' := List.mem_cons.mp hmem
      · rw [if_pos hname]
        refine List.foldlRecOn (motive := fun flag => flag = measure sensor) rest _ rfl ?_
        intro flag hflag s hs
        rw [if_neg (fun h => hhead s hs (hname.symm.trans h)), hflag]
      · exact ih hrest _ hmem'

theorem distinct_setSensor (hdistinct : Distinct sensors) :
    Distinct (setSensor m sensors).1 := by
  have hupdated : Distinct (sensors.map fun s => if named m = s.name then update m s else s) := by
    refine distinct_of_names (List.forall₂_map_right_iff.mpr (List.forall₂_same.mpr ?_)) hdistinct
    intro s _
    split
    · exact name_update m s
    · rfl
  rw [setSensor]
  split
  · refine distinct_of_names (List.forall₂_map_right_iff.mpr (List.forall₂_same.mpr ?_)) hupdated
    intro s _
    split
    · exact Sensor.name_setMeasure "NO" s
    · rfl
  · exact hupdated

/-- The first pass may make a sensor the measure; then the second pass takes it from the
others. -/
theorem exclusive_setSensor (hdistinct : Distinct sensors) (hexclusive : Exclusive sensors) :
    Exclusive (setSensor m sensors).1 := by
  have hafter := distinct_setSensor (m := m) hdistinct
  rw [setSensor] at hafter ⊢
  split
  · rename_i hdone
    rw [if_pos hdone] at hafter
    refine @exclusive_of_name _ (named m) hafter fun s hs hmeasure => ?_
    obtain ⟨before, _, rfl⟩ := List.mem_map.mp hs
    split at hmeasure
    · rw [Sensor.ismeasure_setMeasure_no] at hmeasure
      exact absurd hmeasure Bool.false_ne_true
    · rename_i hname
      rw [if_neg hname]
      exact (not_not.mp hname).symm
  · rename_i hdone
    refine exclusive_of_yields (List.forall₂_map_right_iff.mpr (List.forall₂_same.mpr ?_))
      hexclusive
    intro s hs
    split
    · rename_i hname
      have hflag : sensors.foldl (fun done s =>
          if named m = s.name then (update m s).ismeasure else done) false =
            (update m s).ismeasure := foldl_done hdistinct false hs hname
      rw [hflag] at hdone
      exact ⟨name_update m s, fun h => absurd h hdone⟩
    · exact Yields.refl s

theorem distinct_resetSensor (hdistinct : Distinct sensors) :
    Distinct (resetSensor m sensors) :=
  distinct_of_names ((yields_resetSensor m sensors).imp fun _ _ h => h.name) hdistinct

theorem exclusive_resetSensor (hexclusive : Exclusive sensors) :
    Exclusive (resetSensor m sensors) :=
  exclusive_of_yields (yields_resetSensor m sensors) hexclusive

end SensorSet

end Hat
