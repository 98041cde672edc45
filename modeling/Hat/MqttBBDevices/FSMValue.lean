import Hat.Core.Machine
import Hat.MqttBBDevices.FSMStart

/-!
# The value of a device

A device keeps the value of its last event, publishes it on its pages and answers rpc
with it.  `execcmd` takes an event for its own if the subtype contains its name, and
`update` does not look at the events at all.  Beside the device the runs below keep the
value of the last event that was sent under its own name.
-/

namespace Hat

open FSMDevice

namespace FSMDevice

/-- The value of the last event among the actions whose subtype passes the test. -/
def lastEvent (p : String → Bool) (actions : List Action) : Option String :=
  ((actions.filter fun action => action.type = "event" ∧ p action.subtype).getLast?).map
    Action.value

theorem lastEvent_append_singleton (p : String → Bool) (actions : List Action)
    (action : Action) :
    lastEvent p (actions ++ [action]) =
      if action.type = "event" ∧ p action.subtype then some action.value
      else lastEvent p actions := by
  rw [lastEvent, List.filter_append]
  by_cases hp : action.type = "event" ∧ p action.subtype
  · simp [hp]
  · simp [lastEvent, hp]

/-- What a loop over the messages of the actions keeps is the value of the last event. -/
theorem foldl_message (p : String → Bool) (actions : List Action) (value : String) :
    (actions.map Action.message).foldl (fun value m =>
        if m.mtype = "event" ∧ p m.msubtype then m.getString "value" else value) value =
      (lastEvent p actions).getD value := by
  induction actions using List.reverseRecOn with
  | nil => rfl
  | append_singleton actions action ih =>
      have hvalue : action.message.getString "value" = action.value :=
        MMessage.getString_add_self "value" action.value (MMessage.mk2 action.type action.subtype)
          fun items hitems => Option.some_ne_none _ hitems.symm
      rw [List.map_append, List.foldl_append, ih, lastEvent_append_singleton, List.map_singleton,
        List.foldl_cons, List.foldl_nil, hvalue]
      by_cases hp : action.type = "event" ∧ p action.subtype
      · rw [if_pos hp, Option.getD_some]
        exact if_pos hp
      · rw [if_neg hp]
        exact if_neg hp

end FSMDevice

/-- A device with its pages, the value of the last event sent under its own name, and the
value answered by the last call. -/
structure FSMWatch where
  device : FSMDevice
  index : SortedMap String String
  own : String
  answered : Option String

namespace FSMWatch

def start (made : FSMDevice × SortedMap String String) : FSMWatch :=
  ⟨made.1, made.2, "OFF", none⟩

def step (host : DeviceHost) (watch : FSMWatch) (input : FSMInput) : Option FSMWatch :=
  (FSMDevice.step host (watch.device, watch.index) input).map fun result =>
    { device := result.1.1
      index := result.1.2
      own := result.2.notified.foldl (fun value m =>
        if m.mtype = "event" ∧ m.msubtype = watch.device.name then m.getString "value" else value)
        watch.own
      answered := result.2.answer.map (MMessage.getString "value") }

/-- All pages of the device are published with the value. -/
def PagesShow (device : FSMDevice) (index : SortedMap String String) (value : String) : Prop :=
  ∀ name ∈ device.name :: device.aliases,
    index.find? name = some (page "target" value) ∨ index.find? name = some (page "source" value)

/-- The value, the pages and the answer are those of the last event under the own name. -/
structure ShowsOwn (watch : FSMWatch) : Prop where
  currentValue : watch.device.currentValue = watch.own
  pages : PagesShow watch.device watch.index watch.own
  answered : ∀ value, watch.answered = some value → value = watch.own

/-- What a command or an input needs of the transition it takes: to a command the last event
that contains the name is worth the same as the last one under the name, and to an input
the latter is worth what the device has already. -/
def KeepsOwn (watch : FSMWatch) (input : FSMInput) : Prop :=
  ∀ transition, watch.device.fired input.condition = some transition →
    (transition.nextstate.bind fun current => watch.device.states[current]?) ≠ none →
    match input with
    | .execcmd _ _ =>
        (lastEvent (fun subtype => Hsrv.finds subtype watch.device.name)
            transition.action).getD watch.device.currentValue =
          (lastEvent (fun subtype => subtype = watch.device.name)
            transition.action).getD watch.device.currentValue
    | .update _ _ =>
        (lastEvent (fun subtype => subtype = watch.device.name)
          transition.action).getD watch.device.currentValue = watch.device.currentValue

/-- The expected conditions are those that fire a transition, and the pages and the answer
show the value that the device keeps. -/
structure Consistent (watch : FSMWatch) : Prop where
  expected : ∀ c, c ∈ watch.device.expected ↔ (watch.device.fired c).isSome
  pages : PagesShow watch.device watch.index watch.device.currentValue
  answered : ∀ value, watch.answered = some value → value = watch.device.currentValue

theorem Consistent.showsOwn_iff_eq {watch : FSMWatch} (hwatch : watch.Consistent) :
    watch.ShowsOwn ↔ watch.device.currentValue = watch.own := by
  constructor
  · exact fun hshows => hshows.currentValue
  · intro heq
    exact ⟨heq, heq ▸ hwatch.pages, heq ▸ hwatch.answered⟩

theorem pagesShow_publish (device : FSMDevice) (index : SortedMap String String) :
    PagesShow device (device.publish index) device.currentValue := by
  have hfold : ∀ (names : List String) (index : SortedMap String String) (name : String),
      (names.foldl (fun index name =>
          index.insert name (page "source" device.currentValue)) index).find? name =
        if name ∈ names then some (page "source" device.currentValue) else index.find? name := by
    intro names
    induction names with
    | nil => intro index name; rfl
    | cons first rest ih =>
        intro index name
        rw [List.foldl_cons, ih, SortedMap.find?_insert]
        by_cases hrest : name ∈ rest
        · rw [if_pos hrest, if_pos (List.mem_cons_of_mem first hrest)]
        · rw [if_neg hrest]
          simp only [List.mem_cons, hrest, or_false, eq_comm (a := name)]
  intro name hname
  rw [publish, hfold]
  by_cases halias : name ∈ device.aliases
  · exact Or.inr (if_pos halias)
  · obtain rfl := (List.mem_cons.mp hname).resolve_right halias
    exact Or.inl ((if_neg halias).trans (SortedMap.find?_insert_self _ _ _))

theorem currentValue_new {fname : String} {doc : List XmlNode} {index : SortedMap String String}
    {made : FSMDevice × SortedMap String String} (hnew : new fname doc index = some made) :
    made.1.currentValue = "OFF" := by
  obtain ⟨device, hload, hactive⟩ := Option.bind_eq_some_iff.mp hnew
  obtain ⟨expected, -, rfl⟩ := Option.map_eq_some_iff.mp hactive
  obtain ⟨dev, -, hload⟩ := Option.bind_eq_some_iff.mp hload
  obtain ⟨states, -, hload⟩ := Option.bind_eq_some_iff.mp hload
  obtain ⟨current, -, rfl⟩ := Option.map_eq_some_iff.mp hload
  rfl

theorem consistent_start {made : FSMDevice × SortedMap String String}
    (hmade : (∃ fname doc index, new fname doc index = some made) ∨
      ∃ index, newEmpty index = made) : (start made).Consistent := by
  obtain ⟨fname, doc, index, hnew⟩ | ⟨index, rfl⟩ := hmade
  · obtain ⟨device, -, hactive⟩ := Option.bind_eq_some_iff.mp hnew
    obtain ⟨expected, hexpected, rfl⟩ := Option.map_eq_some_iff.mp hactive
    have hfresh : Fresh { device with expected := expected } := hexpected
    exact ⟨hfresh.mem_expected_iff, pagesShow_publish _ _, fun value h => by cases h⟩
  · refine ⟨fun c => ?_, pagesShow_publish _ _, fun value h => by cases h⟩
    exact iff_of_false List.not_mem_nil Bool.false_ne_true

/-! ## What a step does -/

variable (host : DeviceHost) {watch : FSMWatch} {input : FSMInput}

theorem getString_rpcNotify (tag value : String) :
    ∀ answer, (host.rpcNotify tag "value" value).map (MMessage.getString "value") = some answer →
      answer = value := by
  intro answer hanswer
  rw [DeviceHost.rpcNotify] at hanswer
  split_ifs at hanswer
  · rw [Option.map_some, Option.some.injEq] at hanswer
    rw [← hanswer]
    refine MMessage.getString_add_self _ _ _ fun items hitems => ?_
    rw [MMessage.find?_add_of_ne tag _ (by decide)] at hitems
    exact Option.some_ne_none _ hitems.symm
  · cases hanswer

/-- An input that fires nothing is at most answered. -/
theorem step_of_not_fired (hwatch : watch.Consistent)
    (hfired : watch.device.fired input.condition = none) :
    ∃ answered, step host watch input = some { watch with answered := answered } ∧
      ∀ value, answered = some value → value = watch.device.currentValue := by
  have hunexpected : input.condition ∉ watch.device.expected := by
    rw [hwatch.expected, hfired]
    exact Bool.false_ne_true
  cases input with
  | execcmd env msg =>
      refine ⟨_, congrArg (Option.map _) (if_neg hunexpected), ?_⟩
      exact getString_rpcNotify host (msg.getString "tag") watch.device.currentValue
  | update channel value =>
      exact ⟨none, congrArg (Option.map _) (if_neg hunexpected), fun value h => by cases h⟩

/-- The value that the device keeps after a transition. -/
def valueOf (watch : FSMWatch) (input : FSMInput) (transition : Transition) : String :=
  match input with
  | .execcmd _ _ =>
      (lastEvent (fun subtype => Hsrv.finds subtype watch.device.name)
        transition.action).getD watch.device.currentValue
  | .update _ _ => watch.device.currentValue

/-- A transition whose target is no state leaves nothing defined. -/
theorem step_of_lost (hwatch : watch.Consistent) {transition : Transition}
    (hfired : watch.device.fired input.condition = some transition)
    (hlost : (transition.nextstate.bind fun current => watch.device.states[current]?) = none) :
    step host watch input = none := by
  have hmem : input.condition ∈ watch.device.expected := by
    rw [hwatch.expected, hfired]
    rfl
  have haccept : watch.device.accept input.condition = none := by
    rw [accept_of_fired hfired]
    cases hnext : transition.nextstate with
    | none => rfl
    | some current =>
        rw [hnext, Option.bind_some] at hlost
        rw [Option.bind_some, hlost, Option.map_none]
  exact congrArg (Option.map _)
    (step_of_accept_eq_none host (watch.device, watch.index) hmem haccept)

/-- A transition with a target is taken; the value kept, the pages and the answer agree. -/
theorem step_of_fired (hwatch : watch.Consistent) {transition : Transition} {current : ℕ}
    {state : State} (hfired : watch.device.fired input.condition = some transition)
    (hnext : transition.nextstate = some current)
    (hstate : watch.device.states[current]? = some state) :
    ∃ next, step host watch input = some next ∧ next.Consistent ∧
      next.device.currentValue = watch.valueOf input transition ∧
      next.own = (lastEvent (fun subtype => subtype = watch.device.name)
        transition.action).getD watch.own := by
  have hmem : input.condition ∈ watch.device.expected := by
    rw [hwatch.expected, hfired]
    rfl
  have haccept := accept_of_fired hfired
  rw [hnext, Option.bind_some, hstate, Option.map_some] at haccept
  have hfresh := fresh_of_accept haccept
  have hown := foldl_message (fun subtype => subtype = watch.device.name) transition.action
    watch.own
  simp only [decide_eq_true_eq] at hown
  have hvalue := foldl_message (fun subtype => Hsrv.finds subtype watch.device.name)
    transition.action watch.device.currentValue
  cases input with
  | execcmd env msg =>
      rw [FSMInput.condition] at hmem haccept
      simp only [step, FSMDevice.step, execcmd, if_pos hmem, haccept, Option.map_some, reply, hown]
      refine ⟨_, rfl, ⟨hfresh.mem_expected_iff, pagesShow_publish _ _, ?_⟩, hvalue, rfl⟩
      exact getString_rpcNotify host (msg.getString "tag") _
  | update channel value =>
      rw [FSMInput.condition] at hmem haccept
      simp only [step, FSMDevice.step, update, if_pos hmem, haccept, Option.map_some, hown]
      exact ⟨_, rfl, ⟨hfresh.mem_expected_iff, hwatch.pages, fun value h => by cases h⟩, rfl, rfl⟩

theorem consistent_step (hwatch : watch.Consistent) {next : FSMWatch}
    (hstep : step host watch input = some next) : next.Consistent := by
  cases hfired : watch.device.fired input.condition with
  | none =>
      obtain ⟨answered, hnext, hanswered⟩ := step_of_not_fired host hwatch hfired
      rw [hstep, Option.some.injEq] at hnext
      subst hnext
      exact ⟨hwatch.expected, hwatch.pages, hanswered⟩
  | some transition =>
      cases hlands : transition.nextstate.bind fun current => watch.device.states[current]? with
      | none =>
          rw [step_of_lost host hwatch hfired hlands] at hstep
          cases hstep
      | some state =>
          obtain ⟨current, hnext, hstate⟩ := Option.bind_eq_some_iff.mp hlands
          obtain ⟨next', hnext', hconsistent, -⟩ :=
            step_of_fired host hwatch hfired hnext hstate
          rw [hstep, Option.some.injEq] at hnext'
          exact hnext' ▸ hconsistent

/-- A step keeps the agreement exactly if the events of its transition do. -/
theorem showsOwn_step_iff (hwatch : watch.Consistent) (hshows : watch.ShowsOwn) :
    (∀ next, step host watch input = some next → next.ShowsOwn) ↔ watch.KeepsOwn input := by
  have hvalue := hshows.currentValue
  cases hfired : watch.device.fired input.condition with
  | none =>
      obtain ⟨answered, hnext, hanswered⟩ := step_of_not_fired host hwatch hfired
      refine iff_of_true (fun next hstep => ?_) fun transition h => ?_
      · rw [hstep, Option.some.injEq] at hnext
        subst hnext
        exact ⟨hvalue, hshows.pages, hvalue ▸ hanswered⟩
      · rw [hfired] at h
        cases h
  | some transition =>
      have hkeeps : watch.KeepsOwn input ↔
          (transition.nextstate.bind fun current => watch.device.states[current]?) ≠ none →
            watch.valueOf input transition = (lastEvent (fun subtype => subtype = watch.device.name)
              transition.action).getD watch.device.currentValue := by
        rw [KeepsOwn]
        constructor
        · intro hall hlands
          cases input with
          | execcmd env msg => exact hall transition hfired hlands
          | update channel value => exact (hall transition hfired hlands).symm
        · intro h other hother hlands
          rw [hfired, Option.some.injEq] at hother
          subst hother
          cases input with
          | execcmd env msg => exact h hlands
          | update channel value => exact (h hlands).symm
      rw [hkeeps]
      cases hlands : transition.nextstate.bind fun current => watch.device.states[current]? with
      | none =>
          refine iff_of_true (fun next hstep => ?_) fun h => absurd rfl h
          rw [step_of_lost host hwatch hfired hlands] at hstep
          cases hstep
      | some state =>
          obtain ⟨current, hnext, hstate⟩ := Option.bind_eq_some_iff.mp hlands
          obtain ⟨next, hstep, hconsistent, hkept, hown⟩ :=
            step_of_fired host hwatch hfired hnext hstate
          rw [hvalue, ← hown, ← hkept, ← hconsistent.showsOwn_iff_eq]
          constructor
          · exact fun hall _ => hall next hstep
          · intro h other hother
            rw [hstep, Option.some.injEq] at hother
            exact hother ▸ h (Option.some_ne_none state)

/-- The value of a device, its pages and its answers are those of the last event under its
own name throughout a run exactly if every step of the run keeps them so. -/
theorem showsOwn_iff (made : FSMDevice × SortedMap String String)
    (hmade : (∃ fname doc index, new fname doc index = some made) ∨
      ∃ index, newEmpty index = made) (inputs : List FSMInput) :
    Machine.Always (step host) ShowsOwn (start made) inputs ↔
      Machine.Along (step host) KeepsOwn (start made) inputs := by
  have hstart := consistent_start hmade
  refine Machine.always_iff_along (I := Consistent)
    (fun watch input next hwatch hstep => consistent_step host hwatch hstep)
    (fun watch input hwatch hshows => showsOwn_step_iff host hwatch hshows) inputs hstart ?_
  rw [hstart.showsOwn_iff_eq]
  obtain ⟨fname, doc, index, hnew⟩ | ⟨index, rfl⟩ := hmade
  · exact currentValue_new hnew
  · rfl

/-- The relay is switched on by a command and off by its push button. -/
def onAndOff : List FSMInput :=
  [.ofCondition ⟨"cmd", "SO_bath", "ON"⟩, .update "in1" "0"]

theorem showsOwn_iff_relay :
    ∃ made, new "SO_bath" [.other, relay] SortedMap.empty = some made ∧
      (Machine.Always (step ⟨true, "ON", ""⟩) ShowsOwn (start made) onAndOff ↔
        Machine.Along (step ⟨true, "ON", ""⟩) KeepsOwn (start made) onAndOff) :=
  ⟨_, rfl, showsOwn_iff ⟨true, "ON", ""⟩ _ (Or.inl ⟨"SO_bath", [.other, relay], _, rfl⟩) onAndOff⟩

/-- The event `OFF` that the push button causes is sent, and the value stays `ON`. -/
theorem not_showsOwn_relay :
    ∃ made, new "SO_bath" [.other, relay] SortedMap.empty = some made ∧
      ¬Machine.Always (step ⟨true, "ON", ""⟩) ShowsOwn (start made) onAndOff := by
  refine ⟨_, rfl, fun halways => ?_⟩
  have hfirst := halways.2 _ rfl
  have hsecond := hfirst.2 _ rfl
  exact absurd hsecond.currentValue (by decide +kernel)

end FSMWatch

end Hat
