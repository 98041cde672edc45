import Hat.Core.Automaton
import Hat.Core.Places
import Hat.Minilibs.AgentInfo
import Hat.Minilibs.MParams
import Hat.MqttBBDevices.Device
import Mathlib.Data.List.Nodup

/-!
# Devices given by an automaton

`FSMDevice` reads states and transitions from an XML document, replaces the names of the
target states by positions, and keeps the conditions of the current state in a list that
every input is looked up in first.  A step of the model is a call of `execcmd` or `update`;
it is undefined where the code would follow a null pointer, an unset variable or a position
outside the states.
-/

namespace Hat

open Hat.Hsrv

structure FSMCondition where
  type : String
  subtype : String
  value : String
  deriving DecidableEq

def FSMCondition.new (root : XmlNode) : FSMCondition :=
  ⟨root.getAttrbyName "type", root.getAttrbyName "subtype", root.getAttrbyName "value"⟩

namespace FSMDevice

structure Action where
  type : String
  subtype : String
  value : String
  deriving DecidableEq

def Action.new (root : XmlNode) : Action :=
  ⟨root.getAttrbyName "type", root.getAttrbyName "subtype", root.getAttrbyName "value"⟩

/-- `nextstate` is unset until a state of the name `newstate` is found. -/
structure Transition where
  name : String
  newstate : String
  condition : FSMCondition
  action : List Action
  nextstate : Option ℕ
  deriving DecidableEq

namespace Transition

/-- The condition is the first child, and the actions are the children of the second. -/
def new : XmlNode → Option Transition
  | .other => some ⟨"", "", ⟨"", "", ""⟩, [], none⟩
  | .element attributes (condition :: actions :: rest) =>
      let root := XmlNode.element attributes (condition :: actions :: rest)
      some ⟨root.getAttrbyName "name", root.getAttrbyName "to", FSMCondition.new condition,
        actions.children.map Action.new, none⟩
  | .element _ _ => none

def activeFSMConditions (c : List FSMCondition) (transition : Transition) : List FSMCondition :=
  if transition.condition ∈ c then c else c ++ [transition.condition]

/-- One message is filled again for each action. -/
def emit : MMessage → List Action → List MMessage
  | _, [] => []
  | am, action :: rest =>
      let filled := { am with mtype := action.type, msubtype := action.subtype }.add "value"
        action.value
      filled :: emit filled rest

def exec (c : FSMCondition) (transition : Transition) : Option (List MMessage × Option ℕ) :=
  if c = transition.condition then
    some (emit MMessage.blank transition.action, transition.nextstate)
  else none

def compileNumeric (sn : String) (nn : ℕ) (transition : Transition) : Transition :=
  if transition.newstate = sn then { transition with nextstate := some nn } else transition

end Transition

/-- `start` is unset in a state that is made from a node other than an element. -/
structure State where
  name : String
  start : Option Bool
  transitions : List Transition
  deriving DecidableEq

namespace State

/-- Whether the state is the start is read from its name. -/
def new (root : XmlNode) : Option State :=
  match root with
  | .other => some ⟨"", none, []⟩
  | .element _ _ =>
      (root.children.mapM Transition.new).map fun transitions =>
        ⟨root.getAttrbyName "name", some (root.getAttrbyName "name" = "TRUE"), transitions⟩

def activeFSMConditions (c : List FSMCondition) (state : State) : List FSMCondition :=
  state.transitions.foldl Transition.activeFSMConditions c

/-- The first transition that executes ends the loop. -/
def exec (c : FSMCondition) (state : State) : Option (List MMessage × Option ℕ) :=
  state.transitions.findSome? (Transition.exec c)

def compileNumeric (sn : String) (nn : ℕ) (state : State) : State :=
  { state with transitions := state.transitions.map (Transition.compileNumeric sn nn) }

end State

end FSMDevice

structure FSMDevice where
  name : String
  aliasName : String
  status : String
  states : List FSMDevice.State
  current : ℕ
  expected : List FSMCondition
  currentValue : String
  deriving DecidableEq

/-- What a call sends: the messages of the actions, the answer to the rpc, and the message
for the mqtt interface. -/
structure FSMOutput where
  notified : List MMessage
  answer : Option MMessage
  mqtt : Option MMessage
  deriving DecidableEq

/-- The calls from outside. -/
inductive FSMInput
  | execcmd (env : Env) (msg : MMessage)
  | update (channel value : String)

namespace FSMDevice

/-- The node behind the declaration, or the one behind that if it has no name. -/
def deviceNode : List XmlNode → Option XmlNode
  | _ :: dev :: rest => if dev.getAttrbyName "name" = "*" then rest.head? else some dev
  | _ => none

/-- Every name is offered to all transitions, in the order of the states. -/
def compile (states : List State) : List State :=
  (states.map State.name).zipIdx.foldl
    (fun states entry => states.map (State.compileNumeric entry.1 entry.2)) states

/-- The last state that is marked as the start, and otherwise the first one. -/
def startOf (states : List State) : Option ℕ :=
  states.zipIdx.foldlM
    (fun current entry => entry.1.start.map fun start => if start then entry.2 else current) 0

def load (fname : String) (doc : List XmlNode) : Option FSMDevice :=
  (deviceNode doc).bind fun dev =>
    (dev.children.mapM State.new).bind fun states =>
      (startOf (compile states)).map fun current =>
        { name := fname, aliasName := dev.getAttrbyName "alias", status := "ON",
          states := compile states, current := current, expected := [], currentValue := "OFF" }

def page (kind value : String) : String :=
  "type=\"" ++ kind ++ "\" value=\"" ++ value ++ "\" status=\"ON\""

/-- The names that a device publishes its value under, besides its own. -/
def aliases (device : FSMDevice) : NameList :=
  if 3 < device.aliasName.utf8ByteSize then NameList.init [] device.aliasName '+' else []

def publish (device : FSMDevice) (index : SortedMap String String) : SortedMap String String :=
  device.aliases.foldl (fun index name => index.insert name (page "source" device.currentValue))
    (index.insert device.name (page "target" device.currentValue))

/-- The conditions of the current state; undefined outside the states. -/
def activeFSMConditions (device : FSMDevice) : Option (List FSMCondition) :=
  device.states[device.current]?.map (State.activeFSMConditions [])

def new (fname : String) (doc : List XmlNode) (index : SortedMap String String) :
    Option (FSMDevice × SortedMap String String) :=
  (load fname doc).bind fun device =>
    device.activeFSMConditions.map fun expected =>
      ({ device with expected := expected }, { device with expected := expected }.publish index)

/-- The constructor without arguments. -/
def newEmpty (index : SortedMap String String) : FSMDevice × SortedMap String String :=
  let device : FSMDevice := ⟨"", "", "OFF", [], 0, [], "OFF"⟩
  (device, device.publish index)

/-! ## Steps -/

/-- A transition without target leaves the current state undefined. -/
def exec (c : FSMCondition) (device : FSMDevice) : Option (FSMDevice × List MMessage) :=
  device.states[device.current]?.bind fun state =>
    match state.exec c with
    | some (m, ns) => ns.map fun current => ({ device with current := current }, m)
    | none => some (device, [])

/-- What `execcmd` and `update` do first with an expected condition. -/
def accept (c : FSMCondition) (device : FSMDevice) : Option (FSMDevice × List MMessage) :=
  (device.exec c).bind fun moved =>
    moved.1.activeFSMConditions.map fun expected => ({ moved.1 with expected := expected }, moved.2)

/-- The value after the messages of a transition: that of the last event whose subtype
contains the name of the device. -/
def valueAfter (res : List MMessage) (device : FSMDevice) : String :=
  res.foldl (fun value m =>
    if m.mtype = "event" ∧ finds m.msubtype device.name then m.getString "value" else value)
    device.currentValue

variable (host : DeviceHost)

def reply (env : Env) (msg : MMessage) (device : FSMDevice) (res : List MMessage)
    (sendsMqtt : Bool) : FSMOutput where
  notified := res
  answer := host.rpcNotify (msg.getString "tag") "value" device.currentValue
  mqtt := if sendsMqtt then some (host.mkMqttmessage env device.status "event" device.name
    ("value=" ++ device.currentValue) (msg.getString "mqtttag")) else none

def execcmd (env : Env) (msg : MMessage) (device : FSMDevice) (index : SortedMap String String) :
    Option ((FSMDevice × SortedMap String String) × FSMOutput) :=
  let c : FSMCondition := ⟨msg.mtype, msg.msubtype, msg.getString "value"⟩
  if c ∈ device.expected then
    (device.accept c).map fun moved =>
      let device := { moved.1 with currentValue := moved.1.valueAfter moved.2 }
      ((device, device.publish index), reply host env msg device moved.2 (host.mqtt = "ON"))
  else
    some ((device, index),
      reply host env msg device [] (host.mqtt = "ON" ∧ msg.getString "mqtt" ≠ ""))

def update (channel value : String) (device : FSMDevice) (index : SortedMap String String) :
    Option ((FSMDevice × SortedMap String String) × FSMOutput) :=
  let c : FSMCondition := ⟨"local_event", channel, value⟩
  if c ∈ device.expected then
    (device.accept c).map fun moved => ((moved.1, index), ⟨moved.2, none, none⟩)
  else some ((device, index), ⟨[], none, none⟩)

def step (world : FSMDevice × SortedMap String String) :
    FSMInput → Option ((FSMDevice × SortedMap String String) × FSMOutput)
  | .execcmd env msg => execcmd host env msg world.1 world.2
  | .update channel value => update channel value world.1 world.2

end FSMDevice

/-- The condition that an input is looked up as. -/
def FSMInput.condition : FSMInput → FSMCondition
  | .execcmd _ msg => ⟨msg.mtype, msg.msubtype, msg.getString "value"⟩
  | .update channel value => ⟨"local_event", channel, value⟩

namespace FSMDevice

def Action.message (action : Action) : MMessage :=
  (MMessage.mk2 action.type action.subtype).add "value" action.value

/-- The messages of one transition do not share what they say: filling the message again
overwrites its only field. -/
theorem Transition.emit_eq (actions : List Action) (am : MMessage) (hpriority : am.priority = 0)
    (hfields : am.fields = SortedMap.empty ∨
      ∃ value, am.fields = SortedMap.empty.insert "value" (.mstring value)) :
    Transition.emit am actions = actions.map Action.message := by
  induction actions generalizing am with
  | nil => rfl
  | cons action rest ih =>
      have hfilled : { am with mtype := action.type, msubtype := action.subtype }.add "value"
          action.value = action.message := by
        obtain hempty | ⟨value, hvalue⟩ := hfields
        · rw [Action.message, MMessage.mk2, ← hpriority, ← hempty]
        · simp only [Action.message, MMessage.mk2, MMessage.add, hvalue, hpriority,
            SortedMap.find?_insert_self, SortedMap.find?_empty, MstringList.add,
            MMessage.mk.injEq, true_and]
          refine SortedMap.eq_of_find? fun key => ?_
          simp only [SortedMap.find?_insert]
          split_ifs <;> rfl
      rw [Transition.emit, List.map_cons, hfilled,
        ih action.message rfl (Or.inr ⟨action.value, rfl⟩)]

/-- The transition that a condition fires in the current state. -/
def fired (c : FSMCondition) (device : FSMDevice) : Option Transition :=
  device.states[device.current]?.bind fun state =>
    state.transitions.find? fun transition => transition.condition = c

theorem State.exec_eq (c : FSMCondition) (state : State) :
    state.exec c = (state.transitions.find? fun transition => transition.condition = c).map
      fun transition => (transition.action.map Action.message, transition.nextstate) := by
  rw [State.exec]
  induction state.transitions with
  | nil => rfl
  | cons transition rest ih =>
      rw [List.findSome?_cons, List.find?_cons, Transition.exec]
      by_cases hc : transition.condition = c
      · rw [if_pos hc.symm, Transition.emit_eq _ _ rfl (Or.inl rfl)]
        simp only [hc, decide_true, Option.map_some]
      · rw [if_neg (Ne.symm hc), ih]
        simp only [hc, decide_false]

/-- A fired transition is executed as soon as its target is a state. -/
theorem accept_of_fired {c : FSMCondition} {device : FSMDevice} {transition : Transition}
    (hfired : device.fired c = some transition) :
    device.accept c = transition.nextstate.bind fun current =>
      device.states[current]?.map fun state =>
        ({ device with current := current, expected := state.activeFSMConditions [] },
          transition.action.map Action.message) := by
  obtain ⟨state, hstate, hfind⟩ := Option.bind_eq_some_iff.mp hfired
  rw [accept, exec, hstate, Option.bind_some, State.exec_eq, hfind]
  simp only [Option.map_some, activeFSMConditions]
  cases transition.nextstate with
  | none => rfl
  | some current =>
      simp only [Option.map_some, Option.bind_some, Option.map_map]
      rfl

theorem mem_activeFSMConditions (transitions : List Transition) (conditions : List FSMCondition)
    (c : FSMCondition) :
    c ∈ transitions.foldl Transition.activeFSMConditions conditions ↔
      c ∈ conditions ∨ ∃ transition ∈ transitions, transition.condition = c := by
  induction transitions generalizing conditions with
  | nil => simp
  | cons transition rest ih =>
      have hmem : c ∈ transition.activeFSMConditions conditions ↔
          c ∈ conditions ∨ transition.condition = c := by
        rw [Transition.activeFSMConditions]
        split_ifs with hin
        · exact ⟨Or.inl, fun h => h.elim id fun heq => heq ▸ hin⟩
        · rw [List.mem_append, List.mem_singleton, eq_comm (a := c)]
      rw [List.foldl_cons, ih, hmem, or_assoc, List.exists_mem_cons_iff]

theorem nodup_activeFSMConditions (transitions : List Transition)
    {conditions : List FSMCondition} (hnodup : conditions.Nodup) :
    (transitions.foldl Transition.activeFSMConditions conditions).Nodup := by
  induction transitions generalizing conditions with
  | nil => exact hnodup
  | cons transition rest ih =>
      apply ih
      rw [Transition.activeFSMConditions]
      split_ifs with hin
      · exact hnodup
      · rw [← List.concat_eq_append]
        exact hnodup.concat hin

/-- The list that inputs are looked up in belongs to the current state. -/
def Fresh (device : FSMDevice) : Prop :=
  device.activeFSMConditions = some device.expected

theorem Fresh.mem_expected_iff {device : FSMDevice} (hfresh : device.Fresh) (c : FSMCondition) :
    c ∈ device.expected ↔ (device.fired c).isSome := by
  obtain ⟨state, hstate, hactive⟩ := Option.map_eq_some_iff.mp hfresh
  rw [← hactive, fired, hstate, Option.bind_some, State.activeFSMConditions,
    mem_activeFSMConditions, List.find?_isSome]
  simp

theorem Fresh.nodup_expected {device : FSMDevice} (hfresh : device.Fresh) :
    device.expected.Nodup := by
  obtain ⟨state, -, hactive⟩ := Option.map_eq_some_iff.mp hfresh
  rw [← hactive]
  exact nodup_activeFSMConditions _ List.nodup_nil

/-- The list is made anew with every move. -/
theorem fresh_of_accept {c : FSMCondition} {device : FSMDevice}
    {moved : FSMDevice × List MMessage} (haccept : device.accept c = some moved) :
    moved.1.Fresh := by
  obtain ⟨next, -, hnext⟩ := Option.bind_eq_some_iff.mp haccept
  obtain ⟨expected, hactive, rfl⟩ := Option.map_eq_some_iff.mp hnext
  exact hactive

variable (host : DeviceHost) (world : FSMDevice × SortedMap String String) {input : FSMInput}

/-- An input that is not expected leaves the device and the pages as they are. -/
theorem step_of_unexpected (hinput : input.condition ∉ world.1.expected) :
    ∃ output, step host world input = some (world, output) ∧ output.notified = [] := by
  cases input with
  | execcmd env msg => exact ⟨_, if_neg hinput, rfl⟩
  | update channel value => exact ⟨_, if_neg hinput, rfl⟩

/-- An expected input is accepted, and its messages are sent. -/
theorem step_of_accept {moved : FSMDevice × List MMessage}
    (hinput : input.condition ∈ world.1.expected)
    (haccept : world.1.accept input.condition = some moved) :
    ∃ value index output,
      step host world input = some (({ moved.1 with currentValue := value }, index), output) ∧
        output.notified = moved.2 := by
  cases input with
  | execcmd env msg =>
      rw [FSMInput.condition] at hinput haccept
      simp only [step, execcmd, if_pos hinput, haccept, Option.map_some]
      exact ⟨_, _, _, rfl, rfl⟩
  | update channel value =>
      rw [FSMInput.condition] at hinput haccept
      simp only [step, update, if_pos hinput, haccept, Option.map_some]
      exact ⟨moved.1.currentValue, _, _, rfl, rfl⟩

/-- Where the move is undefined, so is the step. -/
theorem step_of_accept_eq_none (hinput : input.condition ∈ world.1.expected)
    (haccept : world.1.accept input.condition = none) : step host world input = none := by
  cases input with
  | execcmd env msg =>
      rw [FSMInput.condition] at hinput haccept
      simp only [step, execcmd, if_pos hinput, haccept, Option.map_none]
  | update channel value =>
      rw [FSMInput.condition] at hinput haccept
      simp only [step, update, if_pos hinput, haccept, Option.map_none]

end FSMDevice

end Hat
