import Hat.Core.Collect
import Hat.MqttBBDevices.FSMDevice

/-!
# A device follows the automaton of its document

The document describes an automaton over the positions of its state elements: a row for
each transition, with the messages of its actions and the name of its target.  A device
that is loaded from the document holds the same rows with the targets resolved, and each
of its steps is a move of the automaton as long as the target is declared.
-/

namespace Hat

open FSMDevice

namespace XmlNode

def IsElement : XmlNode → Prop
  | element _ _ => True
  | other => False

/-- A condition, and a list of actions behind it. -/
def IsTransition : XmlNode → Prop
  | element _ (element _ _ :: element _ actions :: _) => ∀ action ∈ actions, action.IsElement
  | _ => False

def IsState : XmlNode → Prop
  | element _ transitions => ∀ transition ∈ transitions, transition.IsTransition
  | other => False

def IsAutomaton : XmlNode → Prop
  | element _ states => states ≠ [] ∧ ∀ state ∈ states, state.IsState
  | other => False

def stateNames (dev : XmlNode) : List String := dev.children.map (getAttrbyName "name")

def row (transition : XmlNode) : Row String FSMCondition MMessage where
  on :=
    let condition := transition.children.headD other
    ⟨condition.getAttrbyName "type", condition.getAttrbyName "subtype",
      condition.getAttrbyName "value"⟩
  emits := (transition.children.getD 1 other).children.map fun action =>
    (MMessage.mk2 (action.getAttrbyName "type") (action.getAttrbyName "subtype")).add "value"
      (action.getAttrbyName "value")
  goto := transition.getAttrbyName "to"

/-- The states are the positions of the state elements. -/
def automaton (dev : XmlNode) : Automaton ℕ String FSMCondition MMessage where
  rows place := (dev.children[place]?.map fun state => state.children.map row).getD []
  Named place name := dev.stateNames[place]? = some name

/-- Pairwise distinct names leave no choice of a target. -/
theorem named_unique {dev : XmlNode} (hnames : dev.stateNames.Nodup) (name : String)
    (left right : ℕ) (hleft : dev.automaton.Named left name)
    (hright : dev.automaton.Named right name) : left = right :=
  (List.getElem?_inj (List.getElem?_eq_some_iff.mp hleft).1 hnames).mp (hleft.trans hright.symm)

/-- A row leads to the last state that has the name of its target. -/
def Leads (dev : XmlNode) (left right : ℕ) : Prop :=
  ∃ c row, dev.automaton.fires left c = some row ∧
    lastIdx (fun name => name = row.goto) dev.stateNames = some right

end XmlNode

namespace FSMDevice

/-- The transition made from an element, with the position of its target among the names. -/
def Transition.resolved (names : List String) (root : XmlNode) : Transition :=
  ⟨root.getAttrbyName "name", root.getAttrbyName "to",
    FSMCondition.new (root.children.headD .other),
    (root.children.getD 1 .other).children.map Action.new,
    lastIdx (fun name => name = root.getAttrbyName "to") names⟩

def State.resolved (names : List String) (root : XmlNode) : State :=
  ⟨root.getAttrbyName "name", some (root.getAttrbyName "name" = "TRUE"),
    root.children.map (Transition.resolved names)⟩

theorem Transition.new_eq {root : XmlNode} (hform : root.IsTransition) :
    Transition.new root = some (Transition.resolved [] root) := by
  match root, hform with
  | .element _ (.element _ _ :: .element _ _ :: _), _ => rfl

theorem State.new_eq {root : XmlNode} (hform : root.IsState) :
    State.new root = some (State.resolved [] root) := by
  cases root with
  | other => exact absurd hform id
  | element attributes transitions =>
      have hmapM : transitions.mapM Transition.new =
          some (transitions.map (Transition.resolved [])) :=
        mapM_eq_map fun transition hmem => Transition.new_eq (hform transition hmem)
      simp only [State.new, XmlNode.children, hmapM, Option.map_some]
      rfl

/-- Offering a name to a transition makes its position the target if it is the name of the
target. -/
theorem Transition.compileNumeric_resolved (names : List String) (name : String)
    (root : XmlNode) :
    Transition.compileNumeric name names.length (Transition.resolved names root) =
      Transition.resolved (names ++ [name]) root := by
  have hlast := lastIdx_append_singleton (fun other => other = root.getAttrbyName "to") names name
  rw [Transition.compileNumeric]
  by_cases heq : (Transition.resolved names root).newstate = name
  · have hname : name = root.getAttrbyName "to" := heq.symm
    rw [if_pos hname] at hlast
    rw [if_pos heq]
    exact congrArg (Transition.mk _ _ _ _) hlast.symm
  · rw [if_neg fun h => heq h.symm] at hlast
    rw [if_neg heq]
    exact congrArg (Transition.mk _ _ _ _) hlast.symm

theorem State.compileNumeric_resolved (names : List String) (name : String) (root : XmlNode) :
    State.compileNumeric name names.length (State.resolved names root) =
      State.resolved (names ++ [name]) root := by
  simp only [State.compileNumeric, State.resolved, List.map_map, State.mk.injEq, true_and]
  exact List.map_congr_left fun transition _ =>
    Transition.compileNumeric_resolved names name transition

/-- Once all names were offered, each target is the last state of its name. -/
theorem compile_resolved (nodes : List XmlNode) :
    compile (nodes.map (State.resolved [])) =
      nodes.map (State.resolved (nodes.map (XmlNode.getAttrbyName "name"))) := by
  have hoffer : ∀ names before : List String,
      (names.zipIdx before.length).foldl
          (fun states entry => states.map (State.compileNumeric entry.1 entry.2))
          (nodes.map (State.resolved before)) = nodes.map (State.resolved (before ++ names)) := by
    intro names
    induction names with
    | nil => intro before; rw [List.append_nil]; rfl
    | cons name rest ih =>
        intro before
        have hrest := ih (before ++ [name])
        rw [List.length_append, List.length_singleton] at hrest
        rw [List.zipIdx_cons, List.foldl_cons, List.map_map, List.append_cons, ← hrest]
        congr 1
        exact List.map_congr_left fun node _ => State.compileNumeric_resolved before name node
  rw [compile, List.map_map]
  exact hoffer _ []

/-- The loop ends at the last state named `TRUE`, or where it began. -/
theorem startOf_resolved (names : List String) (nodes : List XmlNode) :
    startOf (nodes.map (State.resolved names)) =
      some ((lastIdx (fun name => name = "TRUE") (nodes.map (XmlNode.getAttrbyName "name"))).getD
        0) := by
  have hloop : ∀ (nodes : List XmlNode) (place first : ℕ),
      ((nodes.map (State.resolved names)).zipIdx place).foldlM (fun current entry =>
          entry.1.start.map fun start => if start then entry.2 else current) first =
        some (((nodes.map (XmlNode.getAttrbyName "name")).zipIdx place).foldl
          (fun current entry => if entry.1 = "TRUE" then entry.2 else current) first) := by
    intro nodes
    induction nodes with
    | nil => intro place first; rfl
    | cons node rest ih =>
        intro place first
        simp only [List.map_cons, List.zipIdx_cons, List.foldlM_cons, List.foldl_cons]
        rw [← ih (place + 1)]
        simp only [State.resolved, Option.map_some, decide_eq_true_eq]
        rfl
  rw [← foldl_zipIdx_eq_getD, startOf]
  exact hloop nodes 0 0

/-- What a device holds that was loaded from a document. -/
structure Loaded (dev : XmlNode) (device : FSMDevice) : Prop where
  states : device.states = dev.children.map (State.resolved dev.stateNames)
  fresh : device.Fresh

theorem load_eq {doc : List XmlNode} {dev : XmlNode} (hdev : deviceNode doc = some dev)
    (hform : dev.IsAutomaton) (fname : String) :
    load fname doc = some
      { name := fname, aliasName := dev.getAttrbyName "alias", status := "ON",
        states := dev.children.map (State.resolved dev.stateNames),
        current := (lastIdx (fun name => name = "TRUE") dev.stateNames).getD 0,
        expected := [], currentValue := "OFF" } := by
  have hmapM : dev.children.mapM State.new = some (dev.children.map (State.resolved [])) := by
    refine mapM_eq_map fun node hnode => State.new_eq ?_
    cases dev with
    | other => exact absurd hform id
    | element attributes states => exact hform.2 node hnode
  rw [load, hdev, Option.bind_some, hmapM, Option.bind_some, compile_resolved, startOf_resolved,
    Option.map_some]
  rfl

theorem new_eq {doc : List XmlNode} {dev : XmlNode} (hdev : deviceNode doc = some dev)
    (hform : dev.IsAutomaton) (fname : String) (index : SortedMap String String) :
    ∃ world, new fname doc index = some world ∧ Loaded dev world.1 ∧
      world.1.current = (lastIdx (fun name => name = "TRUE") dev.stateNames).getD 0 := by
  rw [new, load_eq hdev hform, Option.bind_some]
  have hlt : (lastIdx (fun name => name = "TRUE") dev.stateNames).getD 0 < dev.children.length := by
    cases hlast : lastIdx (fun name => name = "TRUE") dev.stateNames with
    | none =>
        cases dev with
        | other => exact absurd hform id
        | element attributes states => exact List.length_pos_of_ne_nil hform.1
    | some i =>
        obtain ⟨⟨name, hname, -⟩, -⟩ := (lastIdx_eq_some_iff _ _ i).mp hlast
        have hi := (List.getElem?_eq_some_iff.mp hname).1
        rw [XmlNode.stateNames, List.length_map] at hi
        exact hi
  simp only [activeFSMConditions, List.getElem?_map, List.getElem?_eq_getElem hlt, Option.map_some]
  refine ⟨_, rfl, ⟨rfl, ?_⟩, rfl⟩
  simp only [Fresh, activeFSMConditions, List.getElem?_map, List.getElem?_eq_getElem hlt,
    Option.map_some]

/-- A transition as a row of the automaton. -/
def Transition.row (transition : Transition) : Row String FSMCondition MMessage :=
  ⟨transition.condition, transition.action.map Action.message, transition.newstate⟩

theorem Transition.row_resolved (names : List String) (root : XmlNode) :
    (Transition.resolved names root).row = root.row := by
  simp only [Transition.row, Transition.resolved, XmlNode.row, List.map_map]
  rfl

namespace Loaded

variable {dev : XmlNode} {device : FSMDevice}

theorem current_lt (hloaded : Loaded dev device) : device.current < dev.children.length := by
  obtain ⟨state, hstate, -⟩ := Option.map_eq_some_iff.mp hloaded.fresh
  have hlt := (List.getElem?_eq_some_iff.mp hstate).1
  rw [hloaded.states, List.length_map] at hlt
  exact hlt

/-- The rows of the automaton that fire are the transitions of the device that do. -/
theorem fires_eq (hloaded : Loaded dev device) (c : FSMCondition) :
    dev.automaton.fires device.current c = (device.fired c).map Transition.row := by
  have hlt := hloaded.current_lt
  simp only [Automaton.fires, XmlNode.automaton, fired, hloaded.states, List.getElem?_map,
    List.getElem?_eq_getElem hlt, Option.map_some, Option.getD_some, Option.bind_some,
    State.resolved, List.find?_map, Function.comp_def, Option.map_map, Transition.row_resolved]
  rfl

/-- A transition of the device leads to the last state of its target's name. -/
theorem nextstate_eq (hloaded : Loaded dev device) {c : FSMCondition} {transition : Transition}
    (hfired : device.fired c = some transition) :
    transition.nextstate = lastIdx (fun name => name = transition.newstate) dev.stateNames := by
  obtain ⟨state, hstate, hfind⟩ := Option.bind_eq_some_iff.mp hfired
  rw [hloaded.states, List.getElem?_map, Option.map_eq_some_iff] at hstate
  obtain ⟨node, -, rfl⟩ := hstate
  obtain ⟨root, -, rfl⟩ := List.mem_map.mp (List.mem_of_find?_eq_some hfind)
  rfl

/-- The list of expected conditions is that of the current state of the automaton. -/
theorem mem_expected_iff (hloaded : Loaded dev device) (c : FSMCondition) :
    c ∈ device.expected ↔ (dev.automaton.fires device.current c).isSome := by
  rw [hloaded.fresh.mem_expected_iff, hloaded.fires_eq, Option.isSome_map]

variable (host : DeviceHost) (index : SortedMap String String) (input : FSMInput)

/-- Without a row for the input nothing moves. -/
theorem step_stays (hloaded : Loaded dev device)
    (hfires : dev.automaton.fires device.current input.condition = none) :
    ∃ output, step host (device, index) input = some ((device, index), output) ∧
      output.notified = [] := by
  apply step_of_unexpected
  rw [hloaded.mem_expected_iff, hfires]
  exact Bool.false_ne_true

/-- The move to the last state that has the name of the target. -/
theorem step_moves (hloaded : Loaded dev device) {row : Row String FSMCondition MMessage}
    {place : ℕ} (hfires : dev.automaton.fires device.current input.condition = some row)
    (hplace : lastIdx (fun name => name = row.goto) dev.stateNames = some place) :
    ∃ next output, step host (device, index) input = some (next, output) ∧ Loaded dev next.1 ∧
      next.1.current = place ∧ output.notified = row.emits := by
  rw [hloaded.fires_eq, Option.map_eq_some_iff] at hfires
  obtain ⟨transition, hfired, rfl⟩ := hfires
  have hmem : input.condition ∈ device.expected := by
    rw [hloaded.fresh.mem_expected_iff, hfired]
    rfl
  have hnext : transition.nextstate = some place := (hloaded.nextstate_eq hfired).trans hplace
  have hlt : place < dev.children.length := by
    obtain ⟨⟨name, hname, -⟩, -⟩ := (lastIdx_eq_some_iff _ _ place).mp hplace
    have hplt := (List.getElem?_eq_some_iff.mp hname).1
    rw [XmlNode.stateNames, List.length_map] at hplt
    exact hplt
  have haccept := accept_of_fired hfired
  rw [hnext, Option.bind_some, hloaded.states, List.getElem?_map, List.getElem?_eq_getElem hlt,
    Option.map_some, Option.map_some] at haccept
  obtain ⟨value, index', output, hstep, hnotified⟩ :=
    step_of_accept host (device, index) hmem haccept
  exact ⟨_, output, hstep, ⟨rfl, fresh_of_accept haccept⟩, rfl, hnotified⟩

/-- A step that finds its target is a move of the automaton. -/
theorem step_follows (hloaded : Loaded dev device)
    (hdeclared : ∀ row, dev.automaton.fires device.current input.condition = some row →
      row.goto ∈ dev.stateNames) :
    ∃ next output, step host (device, index) input = some (next, output) ∧ Loaded dev next.1 ∧
      dev.automaton.Goes device.current input.condition next.1.current output.notified ∧
      Relation.ReflTransGen dev.Leads device.current next.1.current := by
  cases hfires : dev.automaton.fires device.current input.condition with
  | none =>
      obtain ⟨output, hstep, hnotified⟩ := hloaded.step_stays host index input hfires
      exact ⟨(device, index), output, hstep, hloaded, hnotified ▸ Automaton.Goes.stays hfires,
        Relation.ReflTransGen.refl⟩
  | some row =>
      obtain ⟨place, hplace⟩ : ∃ place,
          lastIdx (fun name => name = row.goto) dev.stateNames = some place := by
        rw [← Option.isSome_iff_exists, Option.isSome_iff_ne_none, ne_eq, lastIdx_eq_none_iff]
        exact fun hnone => hnone row.goto (hdeclared row hfires) rfl
      obtain ⟨next, output, hstep, hnext, hcurrent, hnotified⟩ :=
        hloaded.step_moves host index input hfires hplace
      subst hcurrent
      refine ⟨next, output, hstep, hnext, hnotified ▸ Automaton.Goes.moves hfires ?_,
        Relation.ReflTransGen.single ⟨input.condition, row, hfires, hplace⟩⟩
      obtain ⟨⟨name, hname, rfl⟩, -⟩ := (lastIdx_eq_some_iff _ _ _).mp hplace
      exact hname

end Loaded

/-! ## Runs -/

/-- For an automaton with pairwise distinct state names and declared targets, every run of
the device from its construction is the run of the automaton from the state it begins in,
with the same messages.  After every run the current state is a state, the expected
conditions are those of its rows, and an input without a row changes nothing. -/
theorem refines_automaton (host : DeviceHost) (fname : String) (doc : List XmlNode)
    (index : SortedMap String String) (dev : XmlNode) (hdev : deviceNode doc = some dev)
    (hform : dev.IsAutomaton) (hnames : dev.stateNames.Nodup)
    (hdeclared : ∀ state ∈ dev.children, ∀ transition ∈ state.children,
      transition.getAttrbyName "to" ∈ dev.stateNames) :
    ∃ world, new fname doc index = some world ∧
      ∀ inputs, ∃ final outputs,
        Automaton.produce (step host) world inputs = some (final, outputs) ∧
        (∀ place emitted,
          dev.automaton.Runs world.1.current (inputs.map FSMInput.condition) place emitted ↔
            place = final.1.current ∧ emitted = outputs.map FSMOutput.notified) ∧
        (final.1.current < final.1.states.length ∧
          final.1.states.length = dev.children.length) ∧
        (final.1.expected.Nodup ∧ ∀ c, c ∈ final.1.expected ↔
          ∃ row ∈ dev.automaton.rows final.1.current, row.on = c) ∧
        ∀ input, dev.automaton.fires final.1.current input.condition = none →
          ∃ output, step host final input = some (final, output) ∧ output.notified = [] := by
  obtain ⟨world, hnew, hloaded, -⟩ := new_eq hdev hform fname index
  refine ⟨world, hnew, fun inputs => ?_⟩
  have hgoto : ∀ place c row, dev.automaton.fires place c = some row →
      row.goto ∈ dev.stateNames := by
    intro place c row hfires
    have hmem := List.mem_of_find?_eq_some hfires
    simp only [XmlNode.automaton] at hmem
    cases hstate : dev.children[place]? with
    | none => simp [hstate] at hmem
    | some state =>
        rw [hstate, Option.map_some, Option.getD_some] at hmem
        obtain ⟨transition, htransition, rfl⟩ := List.mem_map.mp hmem
        exact hdeclared state (List.mem_of_getElem? hstate) transition htransition
  obtain ⟨final, outputs, hproduce, hfinal, hruns⟩ :=
    Automaton.produce_follows dev.automaton
      (fun world : FSMDevice × SortedMap String String => world.1.current) FSMInput.condition
      FSMOutput.notified (I := fun world => Loaded dev world.1)
      (fun world input hloaded => by
        obtain ⟨next, output, hstep, hnext, hgoes, -⟩ :=
          hloaded.step_follows host world.2 input (hgoto _ _)
        exact ⟨next, output, hstep, hnext, hgoes⟩) inputs hloaded
  refine ⟨final, outputs, hproduce, fun place emitted => ⟨fun hother => ?_, ?_⟩, ?_, ?_, ?_⟩
  · exact Automaton.Runs.unique _ (XmlNode.named_unique hnames) hruns hother
  · rintro ⟨rfl, rfl⟩
    exact hruns
  · rw [hfinal.states, List.length_map]
    exact ⟨hfinal.current_lt, rfl⟩
  · refine ⟨hfinal.fresh.nodup_expected, fun c => ?_⟩
    rw [hfinal.mem_expected_iff, Automaton.isSome_fires_iff]
  · intro input hfires
    exact hfinal.step_stays host final.2 input hfires

/-- A relay that a command switches on and a push button switches off. -/
def relay : XmlNode :=
  .element [("name", "SO_bath")]
    [.element [("name", "q0"), ("start", "TRUE")]
      [.element [("name", "t0"), ("to", "q1")]
        [.element [("type", "cmd"), ("subtype", "SO_bath"), ("value", "ON")] [],
          .element []
            [.element [("type", "devcmd"), ("subtype", "out1"), ("value", "ON")] [],
              .element [("type", "event"), ("subtype", "SO_bath"), ("value", "ON")] []]]],
      .element [("name", "q1"), ("start", "FALSE")]
        [.element [("name", "t1"), ("to", "q0")]
          [.element [("type", "local_event"), ("subtype", "in1"), ("value", "0")] [],
            .element []
              [.element [("type", "devcmd"), ("subtype", "out1"), ("value", "OFF")] [],
                .element [("type", "event"), ("subtype", "SO_bath"), ("value", "OFF")] []]]]]

theorem isAutomaton_relay : relay.IsAutomaton := by
  simp [relay, XmlNode.IsAutomaton, XmlNode.IsState, XmlNode.IsTransition, XmlNode.IsElement]

theorem refines_automaton_relay :
    ∃ world, new "SO_bath" [.other, relay] SortedMap.empty = some world ∧
      ∀ inputs, ∃ final outputs,
        Automaton.produce (step ⟨true, "ON", ""⟩) world inputs = some (final, outputs) ∧
        (∀ place emitted,
          relay.automaton.Runs world.1.current (inputs.map FSMInput.condition) place emitted ↔
            place = final.1.current ∧ emitted = outputs.map FSMOutput.notified) ∧
        (final.1.current < final.1.states.length ∧
          final.1.states.length = relay.children.length) ∧
        (final.1.expected.Nodup ∧ ∀ c, c ∈ final.1.expected ↔
          ∃ row ∈ relay.automaton.rows final.1.current, row.on = c) ∧
        ∀ input, relay.automaton.fires final.1.current input.condition = none →
          ∃ output, step ⟨true, "ON", ""⟩ final input = some (final, output) ∧
            output.notified = [] :=
  refines_automaton ⟨true, "ON", ""⟩ "SO_bath" [.other, relay] SortedMap.empty relay rfl
    isAutomaton_relay (by decide) (by decide)

end FSMDevice

end Hat
