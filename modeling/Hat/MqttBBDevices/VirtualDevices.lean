import Hat.Core.Places
import Hat.Core.Machine
import Hat.MqttBBDevices.BinaryInput
import Hat.MqttBBDevices.BinaryOutput
import Hat.MqttBBDevices.TriStateOutput

/-!
# The devices of an agent

The agent loads its devices from files and keeps them under their names and under the names
of their inputs.  A message goes to one of them.  The end of a wait names the device within
its value, behind the duration and before the separator; an output puts the name attribute of
its file there, and an input the name of its file.
-/

namespace Hat

open Hat.Hsrv

/-- Of the kinds other than these three, only the place under their names is kept. -/
inductive VrtDevice
  | binaryOutput (output : BinaryOutput)
  | triStateOutput (output : TriStateOutput)
  | binaryInput (input : BinaryInput)
  | other (name : String) (inputs : List String)

/-- A file of a device, with its stem. -/
inductive DeviceFile
  | binaryOutput (params : MParams) (stem : String)
  | triStateOutput (params : MParams) (stem : String)
  | binaryInput (params : MParams) (stem : String)
  | other (stem : String) (inputs : List String)

namespace DeviceFile

def stem : DeviceFile → String
  | binaryOutput _ stem => stem
  | triStateOutput _ stem => stem
  | binaryInput _ stem => stem
  | other stem _ => stem

def load : DeviceFile → VrtDevice
  | binaryOutput params stem => .binaryOutput (.new params stem)
  | triStateOutput params stem => .triStateOutput (.new params stem)
  | binaryInput params stem => .binaryInput (.new params stem)
  | other stem inputs => .other stem inputs

end DeviceFile

def BinaryInput.setstatus (host : DeviceHost) (env : Env) (m : MMessage) (input : BinaryInput) :
    BinaryInput × List MMessage :=
  let newstatus := m.getString "value"
  let changed :=
    if (newstatus = "ON" ∨ newstatus = "OFF") ∧ input.params.get "status" ≠ newstatus then
      { input with params := (input.params.add "status" newstatus).save }
    else input
  let status := if changed.params.get "status" ≠ "" then changed.params.get "status" else "OFF"
  (changed, if host.mqtt = "ON" then
    [host.mkMqttmessage env status "event" input.name ("status=" ++ status)
      (m.getString "mqtttag")] else [])

namespace VrtDevice

def name : VrtDevice → String
  | binaryOutput output => output.name
  | triStateOutput output => output.name
  | binaryInput input => input.name
  | other name _ => name

def inputs : VrtDevice → List String
  | binaryOutput _ => []
  | triStateOutput output => [output.ing1, output.ing2]
  | binaryInput input => [input.inp]
  | other _ inputs => inputs

variable (host : DeviceHost) (env : Env) (m : MMessage)

def execcmd : VrtDevice → VrtDevice × List MMessage
  | binaryOutput output =>
      (.binaryOutput (output.execcmd host env m).1, (output.execcmd host env m).2.notified)
  | triStateOutput output =>
      (.triStateOutput (output.execcmd host env m).1, (output.execcmd host env m).2.notified)
  | binaryInput input => (.binaryInput (input.execcmd env m).1, (input.execcmd env m).2.notified)
  | other name inputs => (.other name inputs, [])

/-- Only inputs have a status that can be set. -/
def setstatus : VrtDevice → VrtDevice × List MMessage
  | binaryInput input =>
      (.binaryInput (input.setstatus host env m).1, (input.setstatus host env m).2)
  | device => (device, [])

end VrtDevice

/-- The devices in the order in which they were loaded, and their places in the two maps. -/
structure VrtDevices where
  device : List VrtDevice
  devByName : String → Option ℕ
  devByIo : String → Option ℕ
  configureEnabled : Bool

namespace VrtDevices

/-- A device that is loaded later takes the place of one with the same name. -/
def load (configureEnabled : Bool) (files : List DeviceFile) : VrtDevices where
  device := files.map DeviceFile.load
  devByName name := lastIdx (fun device : VrtDevice => device.name = name)
    (files.map DeviceFile.load)
  devByIo input := lastIdx (fun device : VrtDevice => input ∈ device.inputs)
    (files.map DeviceFile.load)
  configureEnabled := configureEnabled

/-- The letters up to the separator. -/
def upToSeparator (text : String) : String :=
  String.ofList (text.toList.takeWhile fun c => c ≠ '$')

/-- The device that a wait end is for.  The length of the value has no sign, so that two less
than no or one letter is more than any place. -/
def waitDevice (value : String) : String :=
  let i := (value.toList.takeWhile fun c => c ≠ '_').length
  upToSeparator (String.ofList
    (if value.toList.length < 2 ∨ i + 2 < value.toList.length then value.toList.drop (i + 1)
      else value.toList))

/-- A device is called: what it becomes, which one it is and what it notifies. -/
def call (place : Option ℕ) (run : VrtDevice → VrtDevice × List MMessage) (vrt : VrtDevices) :
    VrtDevices × Option (ℕ × List MMessage) :=
  match place.bind fun k => vrt.device[k]?.map fun device => (k, device) with
  | some (k, device) =>
      ({ vrt with device := vrt.device.set k (run device).1 }, some (k, (run device).2))
  | none => (vrt, none)

/-- What `do_work` does with a message, as far as it concerns one device. -/
def receive (host : DeviceHost) (env : Env) (msg : MMessage) (vrt : VrtDevices) :
    VrtDevices × Option (ℕ × List MMessage) :=
  if msg.mtype = "cmd" ∧ msg.msubtype = "reset" then (vrt, none)
  else if msg.mtype = "local_event" ∧ msg.msubtype = "update" then
    vrt.call (vrt.devByIo (msg.getString "name"))
      (VrtDevice.execcmd host env { msg with msubtype := msg.getString "name" })
  else if msg.mtype = "cmd" ∧ msg.msubtype ∈ ["putConf", "devConfigure", "devDelete"] ∧
      vrt.configureEnabled then (vrt, none)
  else if msg.mtype = "cmd" then
    vrt.call (vrt.devByName msg.msubtype) (VrtDevice.execcmd host env msg)
  else if msg.mtype = "set" then
    vrt.call (vrt.devByName msg.msubtype) (VrtDevice.setstatus host env msg)
  else if msg.mtype = "local_event" then
    vrt.call (vrt.devByIo msg.msubtype) (VrtDevice.execcmd host env msg)
  else if msg.mtype = "wait" ∧ msg.msubtype = "end" then
    vrt.call (vrt.devByName (waitDevice (msg.getString "value"))) (VrtDevice.execcmd host env msg)
  else (vrt, none)

def next (host : DeviceHost) (vrt : VrtDevices) (call : Env × MMessage) : VrtDevices :=
  (vrt.receive host call.1 call.2).1

def run (host : DeviceHost) (vrt : VrtDevices) (calls : List (Env × MMessage)) : VrtDevices :=
  calls.foldl (next host) vrt

end VrtDevices

/-- A message that asks the timer for a wait. -/
def SetsWait (m : MMessage) : Prop := m.mtype = "wait" ∧ m.msubtype = "set"

instance (m : MMessage) : Decidable (SetsWait m) := inferInstanceAs (Decidable (_ ∧ _))

/-- The end of the wait goes to the device that has set it, and so to no other one. -/
def VrtDevices.Delivers (host : DeviceHost) (vrt : VrtDevices) (k : ℕ) (m : MMessage) : Prop :=
  ∀ (env : Env) (waitEnd : MMessage), waitEnd.mtype = "wait" → waitEnd.msubtype = "end" →
    waitEnd.getString "value" = m.getString "value" →
    (vrt.receive host env waitEnd).2.map Prod.fst = some k

namespace DeviceFile

/-- No underscore in the duration and no separator in the name. -/
def Regular : DeviceFile → Prop
  | binaryOutput params stem => '_' ∉ (params.load.get "duration").toList ∧ '$' ∉ stem.toList
  | triStateOutput params stem => '_' ∉ (params.load.get "duration").toList ∧ '$' ∉ stem.toList
  | binaryInput params stem => '_' ∉ (params.load.get "delay").toList ∧ '$' ∉ stem.toList
  | other _ _ => True

/-- What a wait of an output is found by: the name attribute, or the whole key if that has
less than two letters. -/
def waitName (params : MParams) : String :=
  VrtDevices.upToSeparator
    (if 2 ≤ (params.load.get "name").toList.length then params.load.get "name"
      else params.load.get "duration" ++ "_" ++ params.load.get "name")

/-- The waits of an input are always found by its name. -/
def NamesItself : DeviceFile → Prop
  | binaryOutput params stem => waitName params = stem
  | triStateOutput params stem => waitName params = stem
  | binaryInput _ _ => True
  | other _ _ => True

end DeviceFile

theorem VrtDevices.upToSeparator_append {front : String} (hfront : '$' ∉ front.toList)
    (back : String) : upToSeparator (front ++ "$" ++ back) = front := by
  have hfree : ∀ c ∈ front.toList, decide (c ≠ '$') = true := by
    intro c hmem
    exact decide_eq_true fun heq => hfront (heq ▸ hmem)
  have htext : (front ++ "$" ++ back).toList = front.toList ++ '$' :: back.toList := by
    simp
  rw [upToSeparator, htext, List.takeWhile_append_of_pos hfree,
    List.takeWhile_cons_of_neg (by decide), List.append_nil, String.ofList_toList]

/-- A duration and an underscore are taken off, unless less than two letters follow. -/
theorem VrtDevices.waitDevice_append {duration : String} (hnonempty : duration ≠ "")
    (hduration : '_' ∉ duration.toList) (name : String) :
    waitDevice (duration ++ "_" ++ name) =
      upToSeparator (if 2 ≤ name.toList.length then name else duration ++ "_" ++ name) := by
  have hfree : ∀ c ∈ duration.toList, decide (c ≠ '_') = true := by
    intro c hmem
    exact decide_eq_true fun heq => hduration (heq ▸ hmem)
  have htext : (duration ++ "_" ++ name).toList = duration.toList ++ '_' :: name.toList := by
    simp
  have hfront : (duration.toList ++ '_' :: name.toList).takeWhile (fun c => c ≠ '_') =
      duration.toList := by
    rw [List.takeWhile_append_of_pos hfree, List.takeWhile_cons_of_neg (by decide),
      List.append_nil]
  have hdrop : (duration.toList ++ '_' :: name.toList).drop (duration.toList.length + 1) =
      name.toList := by
    rw [List.drop_append, List.drop_eq_nil_of_le (Nat.le_succ _), List.nil_append,
      Nat.add_sub_cancel_left, List.drop_succ_cons, List.drop_zero]
  have hpositive : 0 < duration.toList.length := by
    apply List.length_pos_iff.mpr
    intro hnil
    exact hnonempty (String.toList_inj.mp hnil)
  have hlength : (duration.toList ++ '_' :: name.toList).length =
      duration.toList.length + 1 + name.toList.length := by
    rw [List.length_append, List.length_cons]
    omega
  rw [waitDevice, htext, hfront, hdrop, hlength]
  by_cases hname : 2 ≤ name.toList.length
  · rw [if_pos hname, if_pos (Or.inr (by omega)), String.ofList_toList]
  · rw [if_neg hname, if_neg (by omega), ← htext, String.ofList_toList]

namespace BinaryOutput

variable (host : DeviceHost) (env : Env) (msg : MMessage)

theorem getString_wait (subtype : String) (output : BinaryOutput) :
    (output.wait subtype).getString "value" = output.waitCondition :=
  MMessage.getString_add_self _ _ _ fun _ => Option.some_ne_none _ ∘ Eq.symm

/-- The waits that an output sets have its own key. -/
theorem getString_of_setsWait {output : BinaryOutput} {m : MMessage}
    (hm : m ∈ (output.execcmd host env msg).2.notified) (hsets : SetsWait m) :
    output.duration ≠ "0" ∧ m.getString "value" = output.waitCondition := by
  by_cases hmsg : msg.msubtype = output.name ∨ (msg.mtype = "wait" ∧ msg.msubtype = "end")
  · have hmem : m ∈ (output.execcmd host env msg).2.notified.filter isWait := by
      refine List.mem_filter.mpr ⟨hm, ?_⟩
      simp [isWait, hsets.1, hsets.2]
    generalize hsent : (output.execcmd host env msg).2.notified.filter isWait = sent at hmem
    have hsends := hsent ▸ sends_execcmd host env msg output hmsg
    cases hsends with
    | set hasks =>
        rw [List.mem_singleton.mp hmem, getString_wait]
        exact ⟨hasks.2.1, rfl⟩
    | reset =>
        rw [List.mem_singleton.mp hmem] at hsets
        exact absurd hsets.2 (by simp [wait])
    | nothing => exact absurd hmem List.not_mem_nil
  · rw [not_or] at hmsg
    rw [execcmd, if_neg hmsg.1, if_neg hmsg.2] at hm
    exact absurd hm List.not_mem_nil

end BinaryOutput

namespace TriStateOutput

variable (host : DeviceHost) (env : Env)

theorem mtype_of_mem_devcmds {m sent : MMessage} {newstate : String} {output : TriStateOutput}
    (hsent : sent ∈ output.devcmds m newstate) : sent.mtype = m.mtype := by
  rw [devcmds] at hsent
  split_ifs at hsent
  all_goals
    first
      | exact absurd hsent List.not_mem_nil
      | rcases List.mem_pair.mp hsent with rfl | rfl <;> simp

theorem scalar_getLastD_devcmds {m : MMessage}
    (hscalar : ∀ items, m.fields.find? "value" ≠ some (.mstringList items)) (newstate : String)
    (output : TriStateOutput) :
    ∀ items, ((output.devcmds m newstate).getLastD m).fields.find? "value" ≠
      some (.mstringList items) := by
  have hfill : ∀ out value, ∀ items,
      ({ m with msubtype := out }.add "value" value).fields.find? "value" ≠
        some (.mstringList items) := fun out value =>
    scalar_fill (m := { m with msubtype := out }) hscalar value
  have hrefill : ∀ out first other value, ∀ items,
      ({ ({ m with msubtype := out }.add "value" first) with msubtype := other }.add
        "value" value).fields.find? "value" ≠ some (.mstringList items) :=
    fun out first other value =>
      scalar_fill (m := { ({ m with msubtype := out }.add "value" first) with msubtype := other })
        (hfill out first) value
  rw [devcmds]
  split_ifs
  · exact hrefill output.out2 _ output.out1 _
  · exact hrefill output.out1 _ output.out2 _
  · exact hfill output.out1 _
  · exact hscalar

theorem getString_of_mem_docmdaction {newstate : String} {output : TriStateOutput} {m : MMessage}
    (hm : m ∈ (output.docmdaction env newstate).2.notified) (hsets : SetsWait m) :
    output.duration ≠ "0" ∧ m.getString "value" = output.waitCondition := by
  have hscalar : ∀ items, (({ MMessage.blank with mtype := "devcmd" }.add "time"
      (double2a env.gettime)).fields.find? "value") ≠ some (.mstringList items) := by
    intro items
    rw [MMessage.find?_add_of_ne _ _ (by decide)]
    exact Option.some_ne_none _ ∘ Eq.symm
  have hevent : ∀ value, m ≠ ({ MMessage.blank with
      mtype := "event", msubtype := output.params.get "eventname" }.add "value" value).add "time"
        (double2a env.gettime) := by
    rintro value rfl
    exact absurd hsets.1 (by simp)
  rw [docmdaction] at hm
  by_cases hsame : output.currentStatus = newstate
  · rw [if_neg (not_not.mpr hsame)] at hm
    exact absurd (List.mem_singleton.mp hm) (hevent newstate)
  rw [if_pos hsame] at hm
  rcases List.mem_append.mp hm with hbefore | hlast
  · rcases List.mem_append.mp hbefore with hsent | hwait
    · have hdevcmd := mtype_of_mem_devcmds hsent
      rw [hsets.1, MMessage.mtype_add] at hdevcmd
      exact absurd hdevcmd (by decide)
    · split_ifs at hwait with hwaits
      · rw [List.mem_singleton.mp hwait]
        exact ⟨hwaits.1, MMessage.getString_add_self _ _ _
          (scalar_getLastD_devcmds hscalar newstate output)⟩
      · exact absurd hwait List.not_mem_nil
  · exact absurd (List.mem_singleton.mp hlast) (hevent newstate)

theorem not_setsWait_of_mem_mqttEvent {value : String} {msg : MMessage} {output : TriStateOutput}
    {m : MMessage} (hm : m ∈ mqttEvent host env value msg output) : ¬SetsWait m := by
  rw [mqttEvent] at hm
  split_ifs at hm
  · rw [List.mem_singleton.mp hm]
    intro hsets
    exact absurd hsets.1 (by simp)
  · exact absurd hm List.not_mem_nil

theorem not_setsWait_of_mem_dowaitaction {output : TriStateOutput} {m : MMessage}
    (hm : m ∈ (output.dowaitaction env).2.notified) : ¬SetsWait m := by
  intro hsets
  have hwait := hsets.1
  rw [dowaitaction] at hm
  split_ifs at hm
  · simp only [notifyEvent, List.mem_append, List.mem_cons, List.not_mem_nil, or_false] at hm
    rcases hm with (rfl | rfl) | rfl <;> simp at hwait
  · exact absurd hm List.not_mem_nil

/-- The waits that an output sets have its own key. -/
theorem getString_of_setsWait {received : MMessage} {output : TriStateOutput} {m : MMessage}
    (hm : m ∈ (output.execcmd host env received).2.notified) (hsets : SetsWait m) :
    output.duration ≠ "0" ∧ m.getString "value" = output.waitCondition := by
  rw [execcmd] at hm
  by_cases hoff : output.status = "OFF"
  · rw [if_pos hoff] at hm
    exact absurd hsets (not_setsWait_of_mem_mqttEvent host env hm)
  rw [if_neg hoff] at hm
  by_cases hcmd : (checkUpcase received).mtype = "cmd" ∧
      (checkUpcase received).msubtype = output.name
  · rw [if_pos hcmd] at hm
    rcases List.mem_append.mp hm with hdone | hmqtt
    · exact getString_of_mem_docmdaction env hdone hsets
    · exact absurd hsets (not_setsWait_of_mem_mqttEvent host env hmqtt)
  rw [if_neg hcmd] at hm
  by_cases hlocal : (checkUpcase received).mtype = "local_event"
  · rw [if_pos hlocal] at hm
    cases hsensed : (output.sense (checkUpcase received)).sensed with
    | none =>
        rw [hsensed] at hm
        exact absurd hm List.not_mem_nil
    | some state =>
        rw [hsensed] at hm
        obtain ⟨up, down, hsense⟩ := sensedFrom_sense (checkUpcase received) output
        have hown := getString_of_mem_docmdaction env hm hsets
        rwa [hsense] at hown
  rw [if_neg hlocal] at hm
  by_cases hwait : (checkUpcase received).mtype = "wait" ∧ (checkUpcase received).msubtype = "end"
  · rw [if_pos hwait] at hm
    exact absurd hsets (not_setsWait_of_mem_dowaitaction env hm)
  · rw [if_neg hwait] at hm
    exact absurd hm List.not_mem_nil

/-- What a call does not change. -/
structure SameWaits (output next : TriStateOutput) : Prop where
  name : next.name = output.name
  duration : next.duration = output.duration
  waitCondition : next.waitCondition = output.waitCondition

theorem sameWaits_execcmd (received : MMessage) (output : TriStateOutput) :
    SameWaits output (output.execcmd host env received).1 := by
  obtain ⟨sensed, ⟨up, down, rfl⟩, hacts⟩ := acts_execcmd host env received output
  generalize output.reaction received = reaction at hacts
  generalize (output.execcmd host env received).1 = next at hacts ⊢
  generalize orders (output.execcmd host env received).2.notified = sent at hacts
  generalize (output.execcmd host env received).2.published = published at hacts
  cases hacts with
  | ignores => exact ⟨rfl, rfl, rfl⟩
  | command newstate => exact ⟨rfl, rfl, rfl⟩
  | rests => exact ⟨rfl, rfl, rfl⟩
  | ends => exact ⟨rfl, rfl, rfl⟩

end TriStateOutput

namespace BinaryInput

variable (host : DeviceHost) (env : Env) (msg : MMessage)

/-- The events that are kept. -/
def KeepsEvents (input : BinaryInput) : Prop :=
  ∀ key event, input.delayTable.find? key = some event → event.mtype = "event"

/-- What a call does not change. -/
structure SameKeys (input next : BinaryInput) : Prop where
  name : next.name = input.name
  delay : next.delay = input.delay
  events : input.KeepsEvents → next.KeepsEvents

/-- The waits that an input sets have a key of their own. -/
theorem getString_of_setsWait {input : BinaryInput} (hevents : input.KeepsEvents) {m : MMessage}
    (hm : m ∈ (input.execcmd env msg).2.notified) (hsets : SetsWait m) :
    input.delay ≠ "" ∧ m.getString "value" = input.delayKey env := by
  have hnone : ∀ event : MMessage, event.mtype = "event" → m ∉ [event] := by
    intro event hevent hmem
    rw [← List.mem_singleton.mp hmem, hsets.1] at hevent
    exact absurd hevent (by decide)
  rw [execcmd] at hm
  by_cases hoff : input.params.get "status" = "OFF"
  · rw [if_pos hoff] at hm
    exact absurd hm List.not_mem_nil
  rw [if_neg hoff] at hm
  by_cases hwait : msg.mtype = "wait" ∧ msg.msubtype = "end"
  · rw [if_pos hwait] at hm
    cases hfind : input.delayTable.find? (msg.getString "value") with
    | none =>
        rw [hfind] at hm
        exact absurd hm List.not_mem_nil
    | some event =>
        rw [hfind] at hm
        exact absurd hm (hnone event (hevents _ event hfind))
  rw [if_neg hwait] at hm
  simp only [update] at hm
  split_ifs at hm with hchannel hchange hdelay hkey
  all_goals try exact absurd hm List.not_mem_nil
  · exact absurd hm (hnone _ (by simp [event]))
  · rw [List.mem_singleton.mp hm]
    exact ⟨fun hempty => hdelay (Or.inr hempty),
      InputSite.getString_waitSet input (env, input.remap (msg.getString "value"))⟩

/-- The key of an input is its delay, its name and, behind the separator, a time stamp. -/
theorem waitDevice_delayKey {input : BinaryInput} (hnonempty : input.delay ≠ "")
    (hdelay : '_' ∉ input.delay.toList) (hname : '$' ∉ input.name.toList) :
    VrtDevices.waitDevice (input.delayKey env) = input.name := by
  have hkey : input.delayKey env =
      input.delay ++ "_" ++ (input.name ++ "$" ++ getasciitimecompact env.localtime) := by
    simp only [delayKey, String.append_assoc]
  have hlength : 2 ≤ (input.name ++ "$" ++ getasciitimecompact env.localtime).toList.length := by
    rw [String.toList_append, List.length_append, getasciitimecompact, String.toList_ofList,
      length_digits]
    exact Nat.le_add_left_of_le (by simp)
  rw [hkey, VrtDevices.waitDevice_append hnonempty hdelay, if_pos hlength,
    VrtDevices.upToSeparator_append hname]

theorem underscore_notMem_delay {params : MParams} {stem : String}
    (hdelay : '_' ∉ (params.load.get "delay").toList) :
    '_' ∉ (BinaryInput.new params stem).delay.toList := by
  change '_' ∉ (if params.load.get "delay" ≠ "" then params.load.get "delay" else "0").toList
  split_ifs
  · exact hdelay
  · decide

theorem sameKeys_execcmd (input : BinaryInput) : SameKeys input (input.execcmd env msg).1 := by
  have hsame : SameKeys input input := ⟨rfl, rfl, id⟩
  rw [execcmd]
  by_cases hoff : input.params.get "status" = "OFF"
  · rw [if_pos hoff]
    exact hsame
  rw [if_neg hoff]
  by_cases hwait : msg.mtype = "wait" ∧ msg.msubtype = "end"
  · rw [if_pos hwait]
    cases input.delayTable.find? (msg.getString "value") with
    | none => exact hsame
    | some event =>
        refine ⟨rfl, rfl, fun hevents key event hfind => ?_⟩
        rw [SortedMap.find?_erase] at hfind
        split_ifs at hfind
        exact hevents key event hfind
  rw [if_neg hwait]
  simp only [update]
  split_ifs with hchannel hchange hdelay hkey
  all_goals try exact hsame
  · exact ⟨rfl, rfl, id⟩
  · exact ⟨rfl, rfl, id⟩
  · refine ⟨rfl, rfl, fun hevents key kept hfind => ?_⟩
    rw [SortedMap.find?_insert] at hfind
    split_ifs at hfind
    · rw [← Option.some.inj hfind]
      simp [event]
    · exact hevents key kept hfind

theorem sameKeys_setstatus (input : BinaryInput) :
    SameKeys input (input.setstatus host env msg).1 := by
  simp only [setstatus]
  split_ifs
  all_goals exact ⟨rfl, rfl, id⟩

theorem not_setsWait_of_mem_setstatus {input : BinaryInput} {m : MMessage}
    (hm : m ∈ (input.setstatus host env msg).2) : ¬SetsWait m := by
  intro hsets
  simp only [setstatus] at hm
  split_ifs at hm
  all_goals
    first
      | exact absurd hm List.not_mem_nil
      | rw [List.mem_singleton.mp hm] at hsets
        exact absurd hsets.1 (by simp)

end BinaryInput

/-! ## Devices and their files -/

/-- What a device keeps of its file through all calls. -/
def DeviceFile.Keeps : DeviceFile → VrtDevice → Prop
  | binaryOutput params stem, .binaryOutput output =>
      BinaryOutput.SameSetup (.new params stem) output
  | triStateOutput params stem, .triStateOutput output =>
      TriStateOutput.SameWaits (.new params stem) output
  | binaryInput params stem, .binaryInput input =>
      BinaryInput.SameKeys (.new params stem) input
  | other stem inputs, device => device = .other stem inputs
  | _, _ => False

namespace DeviceFile

variable {file : DeviceFile} {device : VrtDevice}

theorem keeps_load (file : DeviceFile) : file.Keeps file.load := by
  cases file with
  | binaryOutput => exact ⟨rfl, rfl, rfl, rfl⟩
  | triStateOutput => exact ⟨rfl, rfl, rfl⟩
  | binaryInput => exact ⟨rfl, rfl, id⟩
  | other => rfl

theorem name_load (file : DeviceFile) : file.load.name = file.stem := by
  cases file <;> rfl

theorem Keeps.execcmd (h : file.Keeps device) (host : DeviceHost) (env : Env) (m : MMessage) :
    file.Keeps (device.execcmd host env m).1 := by
  cases file with
  | binaryOutput params stem =>
      cases device with
      | binaryOutput output =>
          have hnext := BinaryOutput.sameSetup_execcmd host env m output
          exact ⟨hnext.name.trans h.name, hnext.duration.trans h.duration,
            hnext.defaultValue.trans h.defaultValue, hnext.waitCondition.trans h.waitCondition⟩
      | triStateOutput => exact h.elim
      | binaryInput => exact h.elim
      | other => exact h.elim
  | triStateOutput params stem =>
      cases device with
      | triStateOutput output =>
          have hnext := TriStateOutput.sameWaits_execcmd host env m output
          exact ⟨hnext.name.trans h.name, hnext.duration.trans h.duration,
            hnext.waitCondition.trans h.waitCondition⟩
      | binaryOutput => exact h.elim
      | binaryInput => exact h.elim
      | other => exact h.elim
  | binaryInput params stem =>
      cases device with
      | binaryInput input =>
          have hnext := BinaryInput.sameKeys_execcmd env m input
          exact ⟨hnext.name.trans h.name, hnext.delay.trans h.delay, hnext.events ∘ h.events⟩
      | binaryOutput => exact h.elim
      | triStateOutput => exact h.elim
      | other => exact h.elim
  | other stem inputs =>
      have hother : device = .other stem inputs := h
      rw [hother]
      rfl

theorem Keeps.setstatus (h : file.Keeps device) (host : DeviceHost) (env : Env) (m : MMessage) :
    file.Keeps (device.setstatus host env m).1 := by
  cases device with
  | binaryOutput => exact h
  | triStateOutput => exact h
  | other => exact h
  | binaryInput input =>
      cases file with
      | binaryInput params stem =>
          have hnext := BinaryInput.sameKeys_setstatus host env m input
          exact ⟨hnext.name.trans h.name, hnext.delay.trans h.delay, hnext.events ∘ h.events⟩
      | binaryOutput => exact h.elim
      | triStateOutput => exact h.elim
      | other stem inputs => exact nomatch h

/-- The name that the waits of a device are found by. -/
def foundBy : DeviceFile → String
  | binaryOutput params _ => waitName params
  | triStateOutput params _ => waitName params
  | binaryInput _ stem => stem
  | other stem _ => stem

theorem namesItself_iff (file : DeviceFile) : file.NamesItself ↔ file.foundBy = file.stem := by
  cases file with
  | binaryOutput => exact Iff.rfl
  | triStateOutput => exact Iff.rfl
  | binaryInput => exact (iff_true_intro rfl).symm
  | other => exact (iff_true_intro rfl).symm

/-- The key of an output is its duration and its name attribute. -/
theorem waitDevice_waitName {params : MParams} (hduration : params.load.get "duration" ≠ "")
    (hregular : '_' ∉ (params.load.get "duration").toList) :
    VrtDevices.waitDevice (params.load.get "duration" ++ "_" ++ params.load.get "name") =
      waitName params :=
  VrtDevices.waitDevice_append hduration hregular _

/-- The waits that a device sets are found by one name. -/
theorem Keeps.waitDevice (h : file.Keeps device) (hregular : file.Regular) {host : DeviceHost}
    {env : Env} {msg m : MMessage} (hm : m ∈ (device.execcmd host env msg).2)
    (hsets : SetsWait m) : VrtDevices.waitDevice (m.getString "value") = file.foundBy := by
  cases file with
  | binaryOutput params stem =>
      cases device with
      | binaryOutput output =>
          obtain ⟨hduration, hvalue⟩ := BinaryOutput.getString_of_setsWait host env msg hm hsets
          rw [h.duration] at hduration
          have hkey : (BinaryOutput.new params stem).waitCondition =
              params.load.get "duration" ++ "_" ++ params.load.get "name" := if_pos hduration
          rw [hvalue, h.waitCondition, hkey]
          refine waitDevice_waitName (fun hempty => hduration ?_) hregular.1
          exact if_pos (Or.inl hempty)
      | triStateOutput => exact h.elim
      | binaryInput => exact h.elim
      | other => exact h.elim
  | triStateOutput params stem =>
      cases device with
      | triStateOutput output =>
          obtain ⟨hduration, hvalue⟩ := TriStateOutput.getString_of_setsWait host env hm hsets
          rw [h.duration] at hduration
          have hkey : (TriStateOutput.new params stem).waitCondition =
              params.load.get "duration" ++ "_" ++ params.load.get "name" := if_pos hduration
          rw [hvalue, h.waitCondition, hkey]
          refine waitDevice_waitName (fun hempty => hduration ?_) hregular.1
          exact if_pos (Or.inl hempty)
      | binaryOutput => exact h.elim
      | binaryInput => exact h.elim
      | other => exact h.elim
  | binaryInput params stem =>
      cases device with
      | binaryInput input =>
          have hevents : input.KeepsEvents :=
            h.events fun key event hfind => absurd hfind (Option.some_ne_none _).symm
          obtain ⟨hdelay, hvalue⟩ := BinaryInput.getString_of_setsWait env msg hevents hm hsets
          rw [hvalue]
          refine (BinaryInput.waitDevice_delayKey env hdelay ?_ ?_).trans h.name
          · rw [h.delay]
            exact BinaryInput.underscore_notMem_delay hregular.1
          · rw [h.name]
            exact hregular.2
      | binaryOutput => exact h.elim
      | triStateOutput => exact h.elim
      | other => exact h.elim
  | other stem inputs =>
      have hother : device = .other stem inputs := h
      rw [hother] at hm
      exact absurd hm List.not_mem_nil

theorem not_setsWait_of_mem_setstatus {host : DeviceHost} {env : Env} {msg m : MMessage}
    (hm : m ∈ (device.setstatus host env msg).2) : ¬SetsWait m := by
  cases device with
  | binaryInput input => exact BinaryInput.not_setsWait_of_mem_setstatus host env msg hm
  | binaryOutput => exact absurd hm List.not_mem_nil
  | triStateOutput => exact absurd hm List.not_mem_nil
  | other => exact absurd hm List.not_mem_nil

end DeviceFile

/-! ## Runs -/

namespace VrtDevices

variable {host : DeviceHost} {configureEnabled : Bool} {files : List DeviceFile}
  {vrt : VrtDevices} {k : ℕ}

/-- The devices of the files, whatever has become of them. -/
structure LoadedFrom (files : List DeviceFile) (vrt : VrtDevices) : Prop where
  names : ∀ name, vrt.devByName name =
    lastIdx (fun device : VrtDevice => device.name = name) (files.map DeviceFile.load)
  length : vrt.device.length = files.length
  keeps : ∀ (k : ℕ) (file : DeviceFile) (device : VrtDevice), files[k]? = some file →
    vrt.device[k]? = some device → file.Keeps device

theorem loadedFrom_load (configureEnabled : Bool) (files : List DeviceFile) :
    LoadedFrom files (load configureEnabled files) where
  names _ := rfl
  length := List.length_map _
  keeps k file device hfile hdevice := by
    have hload : (files.map DeviceFile.load)[k]? = some device := hdevice
    rw [List.getElem?_map, hfile, Option.map_some, Option.some.injEq] at hload
    exact hload ▸ file.keeps_load

/-- A message calls one device or none. -/
inductive Calls (host : DeviceHost) (env : Env) (vrt : VrtDevices) :
    VrtDevices × Option (ℕ × List MMessage) → Prop
  | quiet : Calls host env vrt (vrt, none)
  | execcmd {k : ℕ} {device : VrtDevice} (hdevice : vrt.device[k]? = some device)
      (passed : MMessage) :
      Calls host env vrt
        ({ vrt with device := vrt.device.set k (device.execcmd host env passed).1 },
          some (k, (device.execcmd host env passed).2))
  | setstatus {k : ℕ} {device : VrtDevice} (hdevice : vrt.device[k]? = some device)
      (passed : MMessage) :
      Calls host env vrt
        ({ vrt with device := vrt.device.set k (device.setstatus host env passed).1 },
          some (k, (device.setstatus host env passed).2))

theorem call_cases (place : Option ℕ) (run : VrtDevice → VrtDevice × List MMessage)
    (vrt : VrtDevices) :
    vrt.call place run = (vrt, none) ∨
      ∃ k device, vrt.device[k]? = some device ∧ vrt.call place run =
        ({ vrt with device := vrt.device.set k (run device).1 }, some (k, (run device).2)) := by
  cases place with
  | none => exact Or.inl rfl
  | some k =>
      cases hdevice : vrt.device[k]? with
      | none =>
          refine Or.inl ?_
          simp only [call, Option.bind_some, hdevice, Option.map_none]
      | some device =>
          refine Or.inr ⟨k, device, hdevice, ?_⟩
          simp only [call, Option.bind_some, hdevice, Option.map_some]

theorem calls_receive (host : DeviceHost) (env : Env) (msg : MMessage) (vrt : VrtDevices) :
    Calls host env vrt (vrt.receive host env msg) := by
  have hexeccmd : ∀ place passed,
      Calls host env vrt (vrt.call place (VrtDevice.execcmd host env passed)) := by
    intro place passed
    rcases call_cases place (VrtDevice.execcmd host env passed) vrt with
      hcall | ⟨k, device, hdevice, hcall⟩
    · exact hcall ▸ Calls.quiet
    · exact hcall ▸ Calls.execcmd hdevice passed
  have hsetstatus : ∀ place passed,
      Calls host env vrt (vrt.call place (VrtDevice.setstatus host env passed)) := by
    intro place passed
    rcases call_cases place (VrtDevice.setstatus host env passed) vrt with
      hcall | ⟨k, device, hdevice, hcall⟩
    · exact hcall ▸ Calls.quiet
    · exact hcall ▸ Calls.setstatus hdevice passed
  rw [receive]
  split_ifs
  · exact Calls.quiet
  · exact hexeccmd _ _
  · exact Calls.quiet
  · exact hexeccmd _ _
  · exact hsetstatus _ _
  · exact hexeccmd _ _
  · exact hexeccmd _ _
  · exact Calls.quiet

/-- A device that keeps what it has of its file takes its own place. -/
theorem LoadedFrom.set (h : LoadedFrom files vrt) {device next : VrtDevice}
    (hdevice : vrt.device[k]? = some device)
    (hnext : ∀ file : DeviceFile, file.Keeps device → file.Keeps next) :
    LoadedFrom files { vrt with device := vrt.device.set k next } := by
  refine ⟨h.names, List.length_set.trans h.length, fun j file other hfile hother => ?_⟩
  have hset : (vrt.device.set k next)[j]? = some other := hother
  by_cases hj : k = j
  · subst hj
    rw [List.getElem?_set_self (List.getElem?_eq_some_iff.mp hdevice).1, Option.some.injEq] at hset
    exact hset ▸ hnext file (h.keeps k file device hfile hdevice)
  · rw [List.getElem?_set_ne hj] at hset
    exact h.keeps j file other hfile hset

theorem LoadedFrom.receive (h : LoadedFrom files vrt) (host : DeviceHost) (env : Env)
    (msg : MMessage) : LoadedFrom files (vrt.receive host env msg).1 := by
  have hcalls := calls_receive host env msg vrt
  generalize vrt.receive host env msg = received at hcalls
  cases hcalls with
  | quiet => exact h
  | execcmd hdevice passed => exact h.set hdevice fun _ hkeeps => hkeeps.execcmd host env passed
  | setstatus hdevice passed => exact h.set hdevice fun _ hkeeps => hkeeps.setstatus host env passed

theorem LoadedFrom.run (h : LoadedFrom files vrt) (host : DeviceHost)
    (calls : List (Env × MMessage)) : LoadedFrom files (vrt.run host calls) := by
  induction calls generalizing vrt with
  | nil => exact h
  | cons call rest ih => exact ih (h.receive host call.1 call.2)

/-- The end of a wait goes to the device with its name that was loaded last. -/
theorem LoadedFrom.receive_waitEnd (h : LoadedFrom files vrt) (host : DeviceHost) (env : Env)
    {waitEnd : MMessage} (hmtype : waitEnd.mtype = "wait") (hmsubtype : waitEnd.msubtype = "end") :
    (vrt.receive host env waitEnd).2.map Prod.fst =
      lastIdx (fun device : VrtDevice => device.name = waitDevice (waitEnd.getString "value"))
        (files.map DeviceFile.load) := by
  have hcall : vrt.receive host env waitEnd =
      vrt.call (vrt.devByName (waitDevice (waitEnd.getString "value")))
        (VrtDevice.execcmd host env waitEnd) := by
    simp [VrtDevices.receive, hmtype, hmsubtype]
  rw [hcall, h.names]
  cases hplace : lastIdx (fun device : VrtDevice =>
      device.name = waitDevice (waitEnd.getString "value")) (files.map DeviceFile.load) with
  | none => rfl
  | some k =>
      obtain ⟨⟨device, hdevice, -⟩, -⟩ := (lastIdx_eq_some_iff _ _ k).mp hplace
      have hlt := (List.getElem?_eq_some_iff.mp hdevice).1
      rw [List.length_map, ← h.length] at hlt
      simp only [call, Option.bind_some, List.getElem?_eq_getElem hlt, Option.map_some]

/-- A device is found by its name if no later one has the same name. -/
theorem lastIdx_load_iff {file : DeviceFile} (hfile : files[k]? = some file) (name : String) :
    lastIdx (fun device : VrtDevice => device.name = name) (files.map DeviceFile.load) = some k ↔
      name = file.stem ∧ ∀ j other, k < j → files[j]? = some other → other.stem ≠ name := by
  rw [lastIdx_eq_some_iff]
  refine and_congr ?_ (forall_congr' fun j => ?_)
  · rw [List.getElem?_map, hfile, Option.map_some]
    constructor
    · rintro ⟨device, hdevice, hname⟩
      rw [← hname, ← Option.some.inj hdevice, file.name_load]
    · rintro rfl
      exact ⟨_, rfl, file.name_load⟩
  · constructor
    · intro hlast other hj hother
      have hload : (files.map DeviceFile.load)[j]? = some other.load := by
        rw [List.getElem?_map, hother, Option.map_some]
      rw [← other.name_load]
      exact hlast other.load hj hload
    · intro hlast device hj hdevice
      rw [List.getElem?_map] at hdevice
      obtain ⟨other, hother, rfl⟩ := Option.map_eq_some_iff.mp hdevice
      rw [other.name_load]
      exact hlast other hj hother

/-- After any calls, the end of a wait goes to the device that has set it exactly if that device
names itself in its waits and no device loaded later has its name. -/
theorem delivers_iff (calls : List (Env × MMessage)) (env : Env) (msg : MMessage)
    {notified : List MMessage} {m : MMessage} {file : DeviceFile}
    (hcalled : (((load configureEnabled files).run host calls).receive host env msg).2 =
      some (k, notified))
    (hm : m ∈ notified) (hsets : SetsWait m) (hfile : files[k]? = some file)
    (hregular : file.Regular) :
    (∀ later, Delivers host
        ((((load configureEnabled files).run host calls).receive host env msg).1.run host later)
        k m) ↔
      file.NamesItself ∧ ∀ j other, k < j → files[j]? = some other → other.stem ≠ file.stem := by
  have hloaded := (loadedFrom_load configureEnabled files).run host calls
  have hfound : waitDevice (m.getString "value") = file.foundBy := by
    have hcalls := calls_receive host env msg ((load configureEnabled files).run host calls)
    generalize ((load configureEnabled files).run host calls).receive host env msg = received
      at hcalls hcalled
    cases hcalls with
    | quiet => exact absurd hcalled (Option.some_ne_none _).symm
    | execcmd hdevice passed =>
        obtain ⟨rfl, rfl⟩ := Prod.mk.injEq .. ▸ Option.some.inj hcalled
        exact (hloaded.keeps _ file _ hfile hdevice).waitDevice hregular hm hsets
    | setstatus hdevice passed =>
        obtain ⟨rfl, rfl⟩ := Prod.mk.injEq .. ▸ Option.some.inj hcalled
        exact absurd hsets (DeviceFile.not_setsWait_of_mem_setstatus hm)
  have hdelivers : ∀ later, Delivers host
      ((((load configureEnabled files).run host calls).receive host env msg).1.run host later)
        k m ↔ file.foundBy = file.stem ∧
          ∀ j other, k < j → files[j]? = some other → other.stem ≠ file.foundBy := by
    intro later
    have hafter := (hloaded.receive host env msg).run host later
    rw [← lastIdx_load_iff hfile]
    constructor
    · intro hdelivered
      have hend := hdelivered env ((MMessage.mk2 "wait" "end").add "value" (m.getString "value"))
        (MMessage.mtype_add _ _ _) (MMessage.msubtype_add _ _ _)
        (MMessage.getString_add_self _ _ _ fun _ => Option.some_ne_none _ ∘ Eq.symm)
      rw [hafter.receive_waitEnd host env (MMessage.mtype_add _ _ _) (MMessage.msubtype_add _ _ _),
        MMessage.getString_add_self _ _ _ fun _ => Option.some_ne_none _ ∘ Eq.symm,
        hfound] at hend
      exact hend
    · intro hlast clock waitEnd hmtype hmsubtype hvalue
      rw [hafter.receive_waitEnd host clock hmtype hmsubtype, hvalue, hfound]
      exact hlast
  rw [file.namesItself_iff]
  constructor
  · intro hall
    obtain ⟨hname, hlast⟩ := (hdelivers []).mp (hall [])
    exact ⟨hname, hname ▸ hlast⟩
  · rintro ⟨hname, hlast⟩ later
    exact (hdelivers later).mpr ⟨hname, hname.symm ▸ hlast⟩

/-- A light that is switched off after five seconds. -/
def stairs (name : String) : MParams where
  ty := "output"
  attributes := []
  path := some ("output",
    [⟨"name", "generic", name⟩, ⟨"duration", "generic", "5"⟩, ⟨"default", "generic", "OFF"⟩,
      ⟨"output", "output", "gpio4"⟩])
  pathh := none

def quietHost : DeviceHost := ⟨false, "OFF", ""⟩

def switchOn (name : String) : MMessage := (MMessage.mk2 "cmd" name).add "value" "ON"

theorem delivers_iff_stairs :
    (∀ later, Delivers quietHost
        ((((load true [.binaryOutput (stairs "DO_1") "DO_1"]).run quietHost []).receive quietHost
          firstNight (switchOn "DO_1")).1.run quietHost later)
        0 ((BinaryOutput.new (stairs "DO_1") "DO_1").wait "set")) ↔
      (DeviceFile.binaryOutput (stairs "DO_1") "DO_1").NamesItself ∧
        ∀ j other, 0 < j → [DeviceFile.binaryOutput (stairs "DO_1") "DO_1"][j]? = some other →
          other.stem ≠ (DeviceFile.binaryOutput (stairs "DO_1") "DO_1").stem := by
  have hcalled : (((load true [.binaryOutput (stairs "DO_1") "DO_1"]).run quietHost []).receive
      quietHost firstNight (switchOn "DO_1")).2 =
      some (0, ((BinaryOutput.new (stairs "DO_1") "DO_1").execcmd quietHost firstNight
        (switchOn "DO_1")).2.notified) := by
    decide +kernel
  have hm : (BinaryOutput.new (stairs "DO_1") "DO_1").wait "set" ∈
      ((BinaryOutput.new (stairs "DO_1") "DO_1").execcmd quietHost firstNight
        (switchOn "DO_1")).2.notified := by
    decide +kernel
  exact delivers_iff [] firstNight (switchOn "DO_1") hcalled hm (by decide +kernel) rfl
    ⟨by decide +kernel, by decide +kernel⟩

/-- The key of a light with a name of one letter is looked for as a whole. -/
theorem not_delivers_stairs :
    SetsWait ((BinaryOutput.new (stairs "a") "a").wait "set") ∧
      (DeviceFile.binaryOutput (stairs "a") "a").Regular ∧
      (∃ notified, ((load true [.binaryOutput (stairs "a") "a"]).receive quietHost firstNight
        (switchOn "a")).2 = some (0, notified) ∧
          (BinaryOutput.new (stairs "a") "a").wait "set" ∈ notified) ∧
      ¬Delivers quietHost
        ((load true [.binaryOutput (stairs "a") "a"]).receive quietHost firstNight
          (switchOn "a")).1
        0 ((BinaryOutput.new (stairs "a") "a").wait "set") := by
  refine ⟨by decide +kernel, ⟨by decide +kernel, by decide +kernel⟩, ?_, fun h => ?_⟩
  · exact ⟨((BinaryOutput.new (stairs "a") "a").execcmd quietHost firstNight
      (switchOn "a")).2.notified, by decide +kernel, by decide +kernel⟩
  · have hend := h firstNight ((MMessage.mk2 "wait" "end").add "value" "5_a") rfl rfl
      (by decide +kernel)
    exact absurd hend (by decide +kernel)

end VrtDevices

end Hat
