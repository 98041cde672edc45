import Hat.MqttBBDevices.FSMRefinement

/-!
# The state a device begins in

A state element is marked as the start by its attribute `start`, and the constructor of
`State` looks for the mark in its attribute `name`.  So a device begins in its start state
only where this makes no difference.
-/

namespace Hat

open FSMDevice

namespace XmlNode

/-- Exactly the state at this place is marked as the start. -/
def StartsOnlyAt (dev : XmlNode) (place : ℕ) : Prop :=
  ∀ i, dev.children[i]?.map (getAttrbyName "start") = some "TRUE" ↔ i = place

/-- The place is that of the last state named `TRUE`, or the first without such a state. -/
def TakenAsStart (dev : XmlNode) (place : ℕ) : Prop :=
  (dev.stateNames[place]? = some "TRUE" ∧ ∀ j, place < j → dev.stateNames[j]? ≠ some "TRUE") ∨
    (place = 0 ∧ "TRUE" ∉ dev.stateNames)

/-- No row that can fire on a way from this place leads to a name that no state has. -/
def FindsTargets (dev : XmlNode) (place : ℕ) : Prop :=
  ∀ reached, Relation.ReflTransGen dev.Leads place reached →
    ∀ c row, dev.automaton.fires reached c = some row → row.goto ∈ dev.stateNames

theorem takenAsStart_iff (dev : XmlNode) (place : ℕ) :
    (lastIdx (fun name => name = "TRUE") dev.stateNames).getD 0 = place ↔
      dev.TakenAsStart place := by
  cases hlast : lastIdx (fun name => name = "TRUE") dev.stateNames with
  | none =>
      have hnone := (lastIdx_eq_none_iff _ _).mp hlast
      have hmem : "TRUE" ∉ dev.stateNames := fun hmem => hnone "TRUE" hmem rfl
      rw [Option.getD_none, TakenAsStart]
      constructor
      · exact fun hplace => Or.inr ⟨hplace.symm, hmem⟩
      · rintro (⟨hname, -⟩ | ⟨hplace, -⟩)
        · exact absurd (List.mem_of_getElem? hname) hmem
        · exact hplace.symm
  | some last =>
      obtain ⟨⟨name, hname, rfl⟩, hbehind⟩ := (lastIdx_eq_some_iff _ _ last).mp hlast
      rw [Option.getD_some, TakenAsStart]
      constructor
      · rintro rfl
        exact Or.inl ⟨hname, fun j hj hother => hbehind j "TRUE" hj hother rfl⟩
      · rintro (⟨hplace, hlater⟩ | ⟨-, hmem⟩)
        · by_contra hne
          obtain hlt | hgt := Nat.lt_or_gt_of_ne hne
          · exact hbehind place "TRUE" hlt hplace rfl
          · exact hlater last hgt hname
        · exact absurd (List.mem_of_getElem? hname) hmem

end XmlNode

/-- A command that is looked up as this condition; what the clock shows is only written
into messages. -/
def FSMInput.ofCondition (c : FSMCondition) : FSMInput :=
  .execcmd Hsrv.firstNight ((MMessage.mk2 c.type c.subtype).add "value" c.value)

theorem FSMInput.condition_ofCondition (c : FSMCondition) : (ofCondition c).condition = c := by
  simp only [ofCondition, condition, MMessage.mtype_add, MMessage.msubtype_add]
  rw [MMessage.getString_add_self "value" c.value (MMessage.mk2 c.type c.subtype)
    fun items hitems => Option.some_ne_none _ hitems.symm]
  rfl

namespace FSMDevice

/-- The device begins in this state of the automaton: it expects conditions of that state
only, and each of its runs is a run from there. -/
structure BeginsAt (host : DeviceHost) (dev : XmlNode) (place : ℕ)
    (world : FSMDevice × SortedMap String String) : Prop where
  current : world.1.current = place
  expected : ∀ c ∈ world.1.expected, ∃ row ∈ dev.automaton.rows place, row.on = c
  runs : ∀ inputs, ∃ final outputs,
    Automaton.produce (step host) world inputs = some (final, outputs) ∧
      dev.automaton.Runs place (inputs.map FSMInput.condition) final.1.current
        (outputs.map FSMOutput.notified)

variable {dev : XmlNode} {world : FSMDevice × SortedMap String String}

/-- As long as the targets on its way are found, the device follows the automaton. -/
theorem Loaded.runs_of_findsTargets (host : DeviceHost) (hloaded : Loaded dev world.1)
    (hfinds : dev.FindsTargets world.1.current) (inputs : List FSMInput) :
    ∃ final outputs, Automaton.produce (step host) world inputs = some (final, outputs) ∧
      dev.automaton.Runs world.1.current (inputs.map FSMInput.condition) final.1.current
        (outputs.map FSMOutput.notified) := by
  obtain ⟨final, outputs, hproduce, -, hruns⟩ :=
    Automaton.produce_follows dev.automaton
      (fun reached : FSMDevice × SortedMap String String => reached.1.current)
      FSMInput.condition FSMOutput.notified
      (I := fun reached => Loaded dev reached.1 ∧
        Relation.ReflTransGen dev.Leads world.1.current reached.1.current)
      (fun reached input hreached => by
        obtain ⟨next, output, hstep, hnext, hgoes, hleads⟩ :=
          hreached.1.step_follows host reached.2 input
            (hfinds reached.1.current hreached.2 input.condition)
        exact ⟨next, output, hstep, ⟨hnext, hreached.2.trans hleads⟩, hgoes⟩)
      inputs ⟨hloaded, Relation.ReflTransGen.refl⟩
  exact ⟨final, outputs, hproduce, hruns⟩

/-- A step on a row without target is not defined. -/
theorem Loaded.goto_mem_of_step (host : DeviceHost) (input : FSMInput)
    {row : Row String FSMCondition MMessage} (hloaded : Loaded dev world.1)
    (hfires : dev.automaton.fires world.1.current input.condition = some row)
    (hstep : step host world input ≠ none) : row.goto ∈ dev.stateNames := by
  by_contra hlost
  apply hstep
  apply step_of_accept_eq_none
  · rw [hloaded.mem_expected_iff, hfires]
    rfl
  · rw [hloaded.fires_eq, Option.map_eq_some_iff] at hfires
    obtain ⟨transition, hfired, rfl⟩ := hfires
    have hnone : lastIdx (fun name => name = transition.newstate) dev.stateNames = none :=
      (lastIdx_eq_none_iff _ _).mpr fun name hname heq => by
        subst heq
        exact hlost hname
    rw [accept_of_fired hfired, hloaded.nextstate_eq hfired, hnone, Option.bind_none]

/-- A device whose runs are all defined finds every target on its way. -/
theorem Loaded.findsTargets_of_runs (host : DeviceHost) (hloaded : Loaded dev world.1)
    (hruns : ∀ inputs, Automaton.produce (step host) world inputs ≠ none) :
    dev.FindsTargets world.1.current := by
  intro reached hreached
  obtain ⟨place, hplace⟩ : ∃ place, world.1.current = place := ⟨_, rfl⟩
  rw [hplace] at hreached
  -- On the way to the state reached, each row is taken by the input it is for.
  induction hreached using Relation.ReflTransGen.head_induction_on generalizing world with
  | refl =>
      intro c row hfires
      refine hloaded.goto_mem_of_step host (.ofCondition c) ?_ fun hnone => ?_
      · rw [FSMInput.condition_ofCondition, hplace, hfires]
      · apply hruns [.ofCondition c]
        rw [Automaton.produce, hnone, Option.bind_none]
  | head hleads _ ih =>
      obtain ⟨c, row, hfires, hlast⟩ := hleads
      have hcondition := FSMInput.condition_ofCondition c
      obtain ⟨next, output, hstep, hnext, hcurrent, -⟩ :=
        hloaded.step_moves host world.2 (.ofCondition c)
          (hcondition.symm ▸ hplace.symm ▸ hfires) hlast
      refine ih hnext (fun inputs hnone => ?_) hcurrent
      apply hruns (.ofCondition c :: inputs)
      rw [Automaton.produce, hstep, Option.bind_some, hnone, Option.map_none]

/-- A device begins in the start state of its document exactly if that is the state the
loop takes for it, and every target on the way from there is the name of a state. -/
theorem beginsAt_iff (host : DeviceHost) (fname : String) (doc : List XmlNode)
    (index : SortedMap String String) (dev : XmlNode) (hdev : deviceNode doc = some dev)
    (hform : dev.IsAutomaton) (place : ℕ) (_hstart : dev.StartsOnlyAt place) :
    ∃ world, new fname doc index = some world ∧
      (BeginsAt host dev place world ↔ dev.TakenAsStart place ∧ dev.FindsTargets place) := by
  obtain ⟨world, hnew, hloaded, hcurrent⟩ := new_eq hdev hform fname index
  refine ⟨world, hnew, ?_⟩
  rw [← XmlNode.takenAsStart_iff, ← hcurrent]
  constructor
  · intro hbegins
    refine ⟨hbegins.current, hbegins.current ▸ hloaded.findsTargets_of_runs host ?_⟩
    intro inputs hnone
    obtain ⟨final, outputs, hproduce, -⟩ := hbegins.runs inputs
    exact Option.some_ne_none _ (hproduce.symm.trans hnone)
  · rintro ⟨rfl, hfinds⟩
    refine ⟨rfl, fun c hc => ?_, hloaded.runs_of_findsTargets host hfinds⟩
    exact (Automaton.isSome_fires_iff _ _ _).mp ((hloaded.mem_expected_iff c).mp hc)

theorem startsOnlyAt_relay : relay.StartsOnlyAt 0 := by
  rintro (_ | _ | i)
  · exact iff_of_true (by decide) rfl
  · exact iff_of_false (by decide) (by decide)
  · exact iff_of_false (by simp [relay, XmlNode.children]) (by omega)

theorem beginsAt_iff_relay :
    ∃ world, new "SO_bath" [.other, relay] SortedMap.empty = some world ∧
      (BeginsAt ⟨true, "ON", ""⟩ relay 0 world ↔ relay.TakenAsStart 0 ∧ relay.FindsTargets 0) :=
  beginsAt_iff ⟨true, "ON", ""⟩ "SO_bath" [.other, relay] SortedMap.empty relay rfl
    isAutomaton_relay 0 startsOnlyAt_relay

/-- A relay that is on at first, with its states in the order of their names. -/
def relayOn : XmlNode :=
  .element [("name", "SO_bath")]
    [.element [("name", "q0"), ("start", "FALSE")]
      [.element [("name", "t0"), ("to", "q1")]
        [.element [("type", "cmd"), ("subtype", "SO_bath"), ("value", "ON")] [],
          .element [] [.element [("type", "devcmd"), ("subtype", "out1"), ("value", "ON")] []]]],
      .element [("name", "q1"), ("start", "TRUE")]
        [.element [("name", "t1"), ("to", "q0")]
          [.element [("type", "cmd"), ("subtype", "SO_bath"), ("value", "OFF")] [],
            .element [] [.element [("type", "devcmd"), ("subtype", "out1"), ("value", "OFF")] []]]]]

/-- The device begins in the first state, where it expects to be switched on. -/
theorem not_beginsAt_relayOn :
    relayOn.IsAutomaton ∧ relayOn.StartsOnlyAt 1 ∧
      ∃ world, new "SO_bath" [.other, relayOn] SortedMap.empty = some world ∧
        world.1.current = 0 ∧ world.1.expected = [⟨"cmd", "SO_bath", "ON"⟩] ∧
        ¬BeginsAt ⟨true, "ON", ""⟩ relayOn 1 world := by
  refine ⟨?_, ?_, ?_⟩
  · simp [relayOn, XmlNode.IsAutomaton, XmlNode.IsState, XmlNode.IsTransition, XmlNode.IsElement]
  · rintro (_ | _ | i)
    · exact iff_of_false (by decide) (by decide)
    · exact iff_of_true (by decide) rfl
    · exact iff_of_false (by simp [relayOn, XmlNode.children]) (by omega)
  · refine ⟨_, rfl, rfl, by decide, fun hbegins => ?_⟩
    exact absurd hbegins.current (by decide)

end FSMDevice

end Hat
