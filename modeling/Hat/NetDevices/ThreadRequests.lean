import Hat.Manager.RuleEngine
import Hat.Manager.ProgramStatus
import Hat.Minilibs.ObserverThread
import Hat.MqttBBDevices.BinaryInput
import Hat.MqttBBDevices.BinaryOutput
import Hat.MqttBBDevices.FSMDevice
import Hat.MqttBBDevices.TriStateOutput
import Hat.NetDevices.Automaton
import Hat.NetDevices.Component

/-!
# What the threads request

The counters, conditions, rules, components and automata in a thread add their pairs to the
same set of attributes, in which a pair overwrites those with its subtype.  This module says
when a thread is registered for all that was requested, and that a rule engine is.
-/

namespace Hat

open ObserverThread

/-- Counters and conditions observe the events of their name and of their other aliases. -/
def eventRequests (nn : String) (aliases : NameList) : List Request :=
  ⟨"event", nn⟩ :: (aliases.filter fun name => nn ≠ name).map fun name => ⟨"event", name⟩

def EventCounter.observations (counter : EventCounter) : List Request :=
  eventRequests (counter.params.get "name") counter.aliases

def BooleanCondition.observations (condition : BooleanCondition) : List Request :=
  eventRequests (condition.params.get "name") condition.aliases

def Rule.subjects (rule : Rule) : List Request := [⟨"alarm", rule.params.get "alarm"⟩]

def Automaton.observations (automaton : MParams) : List Request :=
  let cmds := NameList.init [] (automaton.getCategory "cmd" "trigger") '+'
  let events := NameList.init [] (automaton.getCategory "event" "trigger") '+'
  events.map (fun name => ⟨"event", name⟩) ++ cmds.map fun name => ⟨"cmd", name⟩

namespace Component

def observations (component : Component) : List Request :=
  [⟨"event", component.params.getCategory "event" "generic"⟩]

def subjects (component : Component) : List Request :=
  [⟨"cmd", component.params.getCategory "name" "generic"⟩]

end Component

namespace FSMDevice

def Transition.observations (transition : Transition) : List Request :=
  [⟨transition.condition.type, transition.condition.subtype⟩]

def Transition.subjects (transition : Transition) : List Request :=
  transition.action.map fun action => ⟨action.type, action.subtype⟩

/-- What the transitions of all states observe, and what their actions announce. -/
def requests (device : FSMDevice) : Hosted where
  observations := device.states.flatMap fun state =>
    state.transitions.flatMap Transition.observations
  subjects := device.states.flatMap fun state => state.transitions.flatMap Transition.subjects

end FSMDevice

def BinaryInput.requests (input : BinaryInput) : Hosted :=
  ⟨[⟨"set", input.name⟩], [⟨"event", input.name⟩]⟩

def BinaryOutput.requests (output : BinaryOutput) : Hosted where
  observations := [⟨"cmd", output.name⟩]
  subjects := [⟨"event", output.params.get "eventname"⟩,
    ⟨"devcmd", output.params.getCategory "output" "output"⟩]

def TriStateOutput.requests (output : TriStateOutput) : Hosted where
  observations := [⟨"cmd", output.name⟩]
  subjects := [⟨"event", output.params.get "eventname"⟩,
    ⟨"devcmd", output.params.getCategory "output1" "output"⟩,
    ⟨"devcmd", output.params.getCategory "output2" "output"⟩]

def RuleEngine.thread (param : MParams) (engine : RuleEngine) : ObserverThread where
  param := param
  own := ⟨[], [⟨"rlcmd", "todo"⟩]⟩
  hosted := engine.eventCounter.map (fun counter => ⟨counter.observations, []⟩) ++
    (engine.condition.getD []).map (fun condition => ⟨condition.observations, []⟩) ++
    engine.rule.rules.map fun rule => ⟨[], rule.subjects⟩

/-- The subjects of the timed rules are commented out in the source. -/
def TimedRuleEngine.thread (param : MParams) (condition : Option BooleanConditionSet) :
    ObserverThread where
  param := param
  own := ⟨[], [⟨"rlcmd", "todo"⟩]⟩
  hosted := (condition.getD []).map fun condition => ⟨condition.observations, []⟩

/-- The thread of a device with its components and the automaton that controls them. -/
def Device.thread (param device : MParams) (component : List Component) (control : MParams) :
    ObserverThread where
  param := param
  own := ⟨[⟨"trigger", "sync"⟩], [⟨"event", device.getCategory "eventname" "generic"⟩]⟩
  hosted := component.map (fun component => ⟨component.observations, component.subjects⟩) ++
    [⟨Automaton.observations control, []⟩]

/-- The thread of the virtual devices, with what each of them adds. -/
def VrtDevices.thread (param : MParams) (devices : List Hosted) : ObserverThread :=
  ⟨param, ⟨[], []⟩, devices⟩

def ActionEngine.thread (param : MParams) (actions : List MParams) : ObserverThread :=
  ⟨param, ⟨[], []⟩, actions.map fun action => ⟨[], [⟨"cmd", action.get "cmd"⟩]⟩⟩

namespace ObserverThread

variable {O : Type*} [DecidableEq O]

/-- The calls make a subject of the key. -/
def AddedBy (others : List (SubjectSet.Call O)) (key : SubjectKey) : Prop :=
  ∃ type subtype, SubjectSet.Call.addSubject type subtype ∈ others ∧
    Request.subjectKey ⟨type, subtype⟩ = key

/-- The subjects that the thread starts with: other threads have made calls since its `init`. -/
def atStart (thread : ObserverThread) (set : SubjectSet O) (others : List (SubjectSet.Call O)) :
    SubjectSet O :=
  (others.foldl SubjectSet.History.next ⟨thread.init set, []⟩).set

/-- The subjects after `init`, the calls of other threads, and `start`. -/
def started (thread : ObserverThread) (observer : O) (set : SubjectSet O)
    (others : List (SubjectSet.Call O)) : SubjectSet O :=
  thread.start observer (thread.atStart set others)

/-- The thread is registered for every pair requested, and every pair announced is a subject. -/
structure Connected (thread : ObserverThread) (observer : O) (set : SubjectSet O)
    (others : List (SubjectSet.Call O)) : Prop where
  observations : ∀ request ∈ thread.requested,
    Registered (thread.started observer set others) observer request
  subjects : ∀ request ∈ thread.announced,
    (thread.started observer set others).contains request.subjectKey

/-- At the start there is a subject for every pair requested, and each of its subjects has the
thread already or is one of a pair that no later one overwrites; every pair announced is a
subject without this thread, or the subject of a pair that no later one overwrites. -/
structure Covered (thread : ObserverThread) (observer : O) (set : SubjectSet O)
    (others : List (SubjectSet.Call O)) : Prop where
  found : ∀ request ∈ thread.requested, request.keys (thread.atStart set others) ≠ []
  observations : ∀ request ∈ thread.requested, ∀ key ∈ request.keys (thread.atStart set others),
    observer ∈ (thread.atStart set others).observersOf key ∨
      ∃ last, Survives Request.subtype thread.requested last ∧
        key ∈ last.keys (thread.atStart set others)
  subjects : ∀ request ∈ thread.announced, set.contains request.subjectKey ∨
    AddedBy others request.subjectKey ∨
      ∃ last, Survives Request.subtype thread.announced last ∧
        last.subjectKey = request.subjectKey

theorem contains_calls (others : List (SubjectSet.Call O)) (history : SubjectSet.History O)
    (key : SubjectKey) :
    (others.foldl SubjectSet.History.next history).set.contains key ↔
      history.set.contains key ∨ AddedBy others key := by
  induction others generalizing history with
  | nil => simp [AddedBy]
  | cons call rest ih =>
      rw [List.foldl_cons, ih]
      cases call with
      | addSubject type subtype =>
          have hadded : AddedBy (.addSubject type subtype :: rest) key ↔
              Request.subjectKey ⟨type, subtype⟩ = key ∨ AddedBy rest key := by
            simp [AddedBy, or_and_right, exists_or]
          rw [hadded, SubjectSet.History.next, SubjectSet.addSubject,
            SortedMap.contains_insertNew, or_comm (a := SubjectSet.key _ _ = key), or_assoc]
          rfl
      | addObserver type subtype observer =>
          rw [SubjectSet.History.next, contains_addObserver]
          simp [AddedBy]
      | notify type subtype =>
          rw [SubjectSet.History.next]
          simp [AddedBy]

/-- After `init` and `start` a thread is registered for all that was requested, and all that was
announced is a subject, exactly when the pairs lost are covered by others. -/
theorem connected_iff_covered (thread : ObserverThread) (observer : O) (set : SubjectSet O)
    (others : List (SubjectSet.Call O)) :
    Connected thread observer set others ↔ Covered thread observer set others := by
  obtain ⟨hcontains, hkeys, hobservers⟩ :=
    thread.start_spec observer (thread.atStart set others)
  have hregistered : ∀ request, Registered (thread.started observer set others) observer request ↔
      request.keys (thread.atStart set others) ≠ [] ∧
        ∀ key ∈ request.keys (thread.atStart set others),
          observer ∈ (thread.atStart set others).observersOf key ∨
            ∃ last, Survives Request.subtype thread.requested last ∧
              key ∈ last.keys (thread.atStart set others) := by
    intro request
    simp only [started, registered_iff, hkeys, hobservers]
  have hsubject : ∀ key, (thread.started observer set others).contains key ↔
      set.contains key ∨ AddedBy others key ∨
        ∃ last, Survives Request.subtype thread.announced last ∧ last.subjectKey = key := by
    intro key
    rw [started, hcontains, atStart, contains_calls, contains_init, or_assoc,
      or_comm (b := AddedBy others key)]
  constructor
  · intro h
    exact ⟨fun request hmem => ((hregistered request).mp (h.observations request hmem)).1,
      fun request hmem => ((hregistered request).mp (h.observations request hmem)).2,
      fun request hmem => (hsubject _).mp (h.subjects request hmem)⟩
  · intro h
    exact ⟨fun request hmem =>
        (hregistered request).mpr ⟨h.found request hmem, h.observations request hmem⟩,
      fun request hmem => (hsubject _).mpr (h.subjects request hmem)⟩

/-- The device reacts to the command and to the event of one name. -/
def hall : ObserverThread :=
  Device.thread ⟨"hall", [], none, none⟩
    ⟨"hall", [⟨"eventname", "generic", "LI_hall"⟩], none, none⟩ []
    ⟨"control", [⟨"cmd", "trigger", "LI_hall"⟩, ⟨"event", "trigger", "LI_hall"⟩], none, none⟩

def hallSubjects : SubjectSet Unit :=
  SubjectSet.addSubject "trigger" "sync" (SubjectSet.addSubject "cmd" "LI_hall" SortedMap.empty)

/-- The device is not registered for its event, since its command is requested afterwards. -/
theorem not_connected_hall : ¬Connected hall () hallSubjects [] := by
  intro h
  have hrequested : (⟨"event", "LI_hall"⟩ : Request) ∈ hall.requested := by decide
  have hfiled := (h.observations _ hrequested).filed (SubjectSet.key "event" "LI_hall") (by decide)
  exact absurd hfiled (by decide)

end ObserverThread

end Hat
