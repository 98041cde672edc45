import Hat.Manager.RuleEngine

/-!
# The rule engine of the player

The player has the manager's rules without the program: nothing but the status, the conditions
and the counters of a rule decides, every action is enabled, and the commands carry a delay.
The two engines answer alike as long as the manager's rules are always on.
-/

namespace Hat.Player

open Hat.Hsrv

namespace Rule

/-- What a rule is given: there is no program to ask. -/
def heard (counters : EventCounterSet) (conditions : Option BooleanConditionSet) :
    Hat.Rule.Circumstances :=
  ⟨[], false, counters, conditions⟩

def computeDelay (env : Env) (n : ℕ) (rule : Hat.Rule) : String :=
  let adelay := rule.params.get "delay"
  if adelay = "" then "0" else double2a (a2double env adelay * n)

def statusGate (rule : Hat.Rule) : Except MatchState MatchState :=
  if rule.status ≠ .on then .error rule.state else .ok rule.state

/-- All tests of `match` in order. -/
def gates (env : Env) (counters : EventCounterSet) (conditions : Option BooleanConditionSet)
    (rule : Hat.Rule) : Except MatchState MatchState := do
  let given := heard counters conditions
  let state ← statusGate rule
  let state ← rule.trueGate given (Hat.Rule.notePrcondition env.gettime state)
  let state ← rule.falseGate given (Hat.Rule.noteTcondition env.gettime state)
  rule.eventGate env.gettime
    (rule.noteEvcondition env.gettime counters (Hat.Rule.noteFcondition env.gettime state))

def fillCommand (env : Env) (rule : Hat.Rule) (found : Hat.Rule.Evidence) (j : ℕ) (action : String)
    (message : MMessage) : MMessage :=
  let message := Hat.Rule.fillCommand found action message
  if rule.params.get "delay" = "" then message
  else message.add "delay" (computeDelay env j rule)

/-- The loop over the actions: the message of action `j` is filled at the position behind. -/
def pushCommands (env : Env) (rule : Hat.Rule) (found : Hat.Rule.Evidence) :
    List String → ℕ → List MMessage → List MMessage
  | [], _, answer => answer
  | action :: rest, j, answer =>
      pushCommands env rule found rest (j + 1)
        ((answer ++ [MMessage.mk2 "rlcmd" "todo"]).modify (j + 1)
          (fillCommand env rule found j action))

def pushAnswer (env : Env) (counters : EventCounterSet) (rule : Hat.Rule)
    (answer : List MMessage) : List MMessage :=
  let alarm := rule.params.get "alarm"
  let found := rule.evidence counters
  pushCommands env rule found rule.action 0
    ((answer ++ [MMessage.mk2 "alarm" alarm]).modify 0 (Hat.Rule.fillAlarm alarm found))

/-- `Rule::match` of the player. -/
def matchRule (env : Env) (counters : EventCounterSet) (conditions : Option BooleanConditionSet)
    (rule : Hat.Rule) (answer : List MMessage) : Bool × Hat.Rule × List MMessage :=
  match gates env counters conditions rule with
  | .error state => (false, { rule with state := state }, answer)
  | .ok state =>
      (true, { rule with state := rule.settle env state }, pushAnswer env counters rule answer)

end Rule

namespace RuleSet

def matchRules (env : Env) (counters : EventCounterSet)
    (conditions : Option BooleanConditionSet) :
    List Hat.Rule → List MMessage → ℕ × List Hat.Rule × List MMessage
  | [], answer => (0, [], answer)
  | rule :: rest, answer =>
      let matched := Rule.matchRule env counters conditions rule answer
      let tail := matchRules env counters conditions rest matched.2.2
      ((if matched.1 then 1 else 0) + tail.1, matched.2.1 :: tail.2.1, tail.2.2)

end RuleSet

structure Pages where
  eventcounters : List (String × String)
  conditions : List (String × String)
  rules : List (String × String)
  index : SortedMap String String

structure RuleEngine where
  eventCounter : EventCounterSet
  condition : Option BooleanConditionSet
  rule : List Hat.Rule
  pages : Pages

namespace RuleEngine

def makeEventcounterPage (engine : RuleEngine) : RuleEngine :=
  { engine with pages := { engine.pages with
      eventcounters := engine.eventCounter.map fun ec => (ec.name, ec.params.get "status") } }

def makeConditionPage (conditions : BooleanConditionSet) (engine : RuleEngine) : RuleEngine :=
  { engine with pages := { engine.pages with
      conditions := conditions.map fun cnd => (cnd.name, cnd.params.get "status") } }

def makeRulePage (engine : RuleEngine) : RuleEngine :=
  { engine with pages := { engine.pages with
      rules := Hat.RuleEngine.rulePage engine.rule
      index := engine.rule.foldl
        (fun index rule => index.insert rule.name (Hat.RuleEngine.dynamicDesc rule))
        engine.pages.index } }

/-- The files of the waiting times are read and not used. -/
def new (env : Env) (files : RuleEngineFiles) : RuleEngine where
  eventCounter := files.eventcounters.map fun file => EventCounter.new env file.2 file.1
  condition := files.conditions.map fun conditions =>
    conditions.map fun file => BooleanCondition.new env file.2 file.1
  rule := files.rules.map fun file =>
    (Hat.Rule.new env file.memory file.params file.stem).load.init env
  pages := ⟨[], [], [], SortedMap.empty⟩

/-- What the service thread does before its loop. -/
def start (engine : RuleEngine) : RuleEngine := engine.makeEventcounterPage.makeRulePage

def evaluate (env : Env) (engine : RuleEngine) : RuleEngine × List MMessage :=
  let matched := RuleSet.matchRules env engine.eventCounter engine.condition engine.rule []
  ({ engine with rule := matched.2.1 }, matched.2.2)

/-- The rules are only updated when no counter is positive. -/
def updateAll (env : Env) (engine : RuleEngine) : Bool × RuleEngine :=
  let counted := engine.eventCounter.timeUpdate env
  if counted.1 then (true, { engine with eventCounter := counted.2 })
  else (true, { engine with
    eventCounter := counted.2
    rule := engine.rule.map (Hat.Rule.cycleUpdate env) })

def eventupdate (env : Env) (engine : RuleEngine) : RuleEngine × List MMessage :=
  let updated := engine.updateAll env
  if updated.1 then updated.2.evaluate env else (updated.2, [])

def noteEvent (env : Env) (msg : MMessage) (engine : RuleEngine) : RuleEngine :=
  let counters := (engine.eventCounter.timeUpdate env).2
  { engine with
    condition := engine.condition.map (BooleanConditionSet.eventUpdate env msg)
    eventCounter := (EventCounterSet.eventUpdate env msg counters).2 }

def event (env : Env) (msg : MMessage) (engine : RuleEngine) : RuleEngine × List MMessage :=
  (engine.noteEvent env msg).evaluate env

def mapCounterParams (change : String → MParams → MParams) (engine : RuleEngine) : RuleEngine :=
  let changed := engine.eventCounter.map fun ec =>
    { ec with params := change ec.name ec.params }
  { engine with eventCounter := changed }.makeEventcounterPage

def mapConditionParams (change : String → MParams → MParams) (engine : RuleEngine) : RuleEngine :=
  match engine.condition with
  | none => engine
  | some conditions =>
      let changed := conditions.map fun cnd => { cnd with params := change cnd.name cnd.params }
      { engine with condition := some changed }.makeConditionPage changed

def mapRuleParams (change : String → MParams → MParams) (engine : RuleEngine) : RuleEngine :=
  let changed := engine.rule.map fun rule =>
    { rule with params := change rule.name rule.params }
  { engine with rule := changed }.makeRulePage

def setValidityTime (name asfrom asto : String) (rules : List Hat.Rule) : List Hat.Rule :=
  Hat.RuleSet.modifyNamed name (fun rule => (rule.setValidityTime asfrom asto).2) rules

def setrulemode (msg : MMessage) (engine : RuleEngine) : RuleEngine :=
  let name := msg.getString "name"
  let rstatus := msg.getString "status"
  let asfrom := msg.getString "from"
  let asto := msg.getString "to"
  let set := if rstatus = "ON" ∨ rstatus = "OFF"
    then Hat.RuleSet.modifyNamed name (Hat.Rule.setStatus rstatus) engine.rule else engine.rule
  let set := if asfrom ≠ "" ∧ asto ≠ "" then setValidityTime name asfrom asto set else set
  { engine with rule := set }.makeRulePage

def setvaliditytime (msg : MMessage) (engine : RuleEngine) : RuleEngine :=
  { engine with
    rule := setValidityTime (msg.getString "rule") (msg.getString "from") (msg.getString "to")
      engine.rule }

def branchOf (msg : MMessage) : RuleBranch :=
  if msg.mtype = "trigger" ∧ msg.msubtype = "eventupdate" then .eventupdate
  else if msg.mtype = "event" then .event
  else if msg.mtype = "cmd" ∧ msg.msubtype = "seteventcounters" then .seteventcounters
  else if msg.mtype = "cmd" ∧ msg.msubtype = "reseteventcounters" then .reseteventcounters
  else if msg.mtype = "cmd" ∧ msg.msubtype = "setconditions" then .setconditions
  else if msg.mtype = "cmd" ∧ msg.msubtype = "resetconditions" then .resetconditions
  else if msg.mtype = "cmd" ∧ msg.msubtype = "setrulemode" then .setrulemode
  else if msg.mtype = "cmd" ∧ msg.msubtype = "setrules" then .setrules
  else if msg.mtype = "cmd" ∧ msg.msubtype = "setvaliditytime" then .setvaliditytime
  else if msg.mtype = "cmd" ∧ msg.msubtype = "resetrules" then .resetrules
  else .ignored

/-- One turn of the loop: the engine afterwards and the messages it notifies. -/
def doWork (env : Env) (msg : MMessage) (engine : RuleEngine) : RuleEngine × List MMessage :=
  match branchOf msg with
  | .eventupdate => engine.eventupdate env
  | .event => engine.event env msg
  | .seteventcounters => (engine.mapCounterParams (Hat.RuleEngine.setFromField msg), [])
  | .reseteventcounters => (engine.mapCounterParams fun _ => Hat.RuleEngine.resetStatus, [])
  | .setconditions => (engine.mapConditionParams (Hat.RuleEngine.setFromField msg), [])
  | .resetconditions => (engine.mapConditionParams fun _ => Hat.RuleEngine.resetStatus, [])
  | .setrulemode => (engine.setrulemode msg, [])
  | .setrules => (engine.mapRuleParams (Hat.RuleEngine.setFromField msg), [])
  | .setvaliditytime => (engine.setvaliditytime msg, [])
  | .resetrules => (engine.mapRuleParams fun _ => Hat.RuleEngine.resetStatus, [])
  | _ => (engine, [])

end RuleEngine

def asAlways (rule : Hat.Rule) : Hat.Rule := { rule with behavior := "always" }

def withoutDelay (message : MMessage) : MMessage :=
  { message with fields := message.fields.erase "delay" }

@[simp]
theorem withoutDelay_mk2 (mtype msubtype : String) :
    withoutDelay (MMessage.mk2 mtype msubtype) = MMessage.mk2 mtype msubtype := rfl

theorem add_eq (field value : String) (message : MMessage) :
    message.add field value = { message with
      fields := message.fields.insert field
        (MMessage.added value (message.fields.find? field)) } := by
  rw [MMessage.add]
  cases message.fields.find? field <;> rfl

@[simp]
theorem withoutDelay_add {field : String} (hfield : field ≠ "delay") (value : String)
    (message : MMessage) :
    withoutDelay (message.add field value) = (withoutDelay message).add field value := by
  have hfind : (message.fields.erase "delay").find? field = message.fields.find? field := by
    rw [SortedMap.find?_erase, if_neg (Ne.symm hfield)]
  rw [withoutDelay, withoutDelay, add_eq, add_eq, hfind]
  congr 1
  apply SortedMap.eq_of_find?
  intro key
  rw [SortedMap.find?_erase, SortedMap.find?_insert, SortedMap.find?_insert,
    SortedMap.find?_erase]
  by_cases hkey : field = key
  · rw [if_pos hkey, if_pos hkey, if_neg (hkey ▸ Ne.symm hfield)]
  · rw [if_neg hkey, if_neg hkey]

@[simp]
theorem withoutDelay_add_delay (value : String) (message : MMessage) :
    withoutDelay (message.add "delay" value) = withoutDelay message := by
  rw [withoutDelay, withoutDelay, add_eq]
  congr 1
  apply SortedMap.eq_of_find?
  intro key
  rw [SortedMap.find?_erase, SortedMap.find?_insert, SortedMap.find?_erase]
  by_cases hkey : "delay" = key
  · rw [if_pos hkey, if_pos hkey]
  · rw [if_neg hkey, if_neg hkey, if_neg hkey]

section Answer

variable (env : Env) (rule : Hat.Rule) (found : Hat.Rule.Evidence)

theorem withoutDelay_fillAlarm (alarm : String) (message : MMessage) :
    withoutDelay (Hat.Rule.fillAlarm alarm found message) =
      Hat.Rule.fillAlarm alarm found (withoutDelay message) := by
  simp only [Hat.Rule.fillAlarm]
  split <;> simp

theorem withoutDelay_fillCommand (j : ℕ) (action : String) (message : MMessage) :
    withoutDelay (Rule.fillCommand env rule found j action message) =
      Hat.Rule.fillCommand found action (withoutDelay message) := by
  simp only [Rule.fillCommand]
  split <;> simp [Hat.Rule.fillCommand]

theorem map_modify {fill fillOther : MMessage → MMessage}
    (hfill : ∀ message, withoutDelay (fill message) = fillOther (withoutDelay message))
    (answer : List MMessage) (index : ℕ) :
    (answer.modify index fill).map withoutDelay =
      (answer.map withoutDelay).modify index fillOther := by
  induction answer generalizing index with
  | nil => rw [List.modify_nil, List.map_nil, List.modify_nil]
  | cons message rest ih =>
      cases index with
      | zero => rw [List.modify_zero_cons, List.map_cons, List.map_cons, hfill,
          List.modify_zero_cons]
      | succ index => rw [List.modify_succ_cons, List.map_cons, List.map_cons, ih,
          List.modify_succ_cons]

theorem map_pushCommands (actions : List String) (j : ℕ) (answer : List MMessage) :
    (Rule.pushCommands env rule found actions j answer).map withoutDelay =
      Hat.Rule.pushCommands found actions (j + 1) (answer.map withoutDelay) := by
  induction actions generalizing j answer with
  | nil => rfl
  | cons action rest ih =>
      rw [Rule.pushCommands, Hat.Rule.pushCommands, ih,
        map_modify (withoutDelay_fillCommand env rule found j action), List.map_append]
      rfl

/-- All actions of a rule that is always on are enabled. -/
theorem enabledActions_asAlways (active : List String) :
    (asAlways rule).enabledActions active = rule.action := by
  apply List.filter_eq_self.mpr
  intro action _
  simp [Hat.Rule.isNotMember, asAlways]

theorem map_pushAnswer (given : Hat.Rule.Circumstances) (answer : List MMessage) :
    (Rule.pushAnswer env given.counters rule answer).map withoutDelay =
      (asAlways rule).pushAnswer given (answer.map withoutDelay) := by
  simp only [Rule.pushAnswer, Hat.Rule.pushAnswer]
  rw [map_pushCommands, map_modify (withoutDelay_fillAlarm _ _), enabledActions_asAlways,
    List.map_append]
  rfl

end Answer

variable {env : Env}

/-- Without a program to ask the tests are the same. -/
theorem gates_asAlways (given : Hat.Rule.Circumstances) (rule : Hat.Rule) :
    (asAlways rule).gates env given = Rule.gates env given.counters given.conditions rule := by
  have hprogram : (asAlways rule).programGate given (asAlways rule).state =
      Rule.statusGate rule := by
    simp [Hat.Rule.programGate, Rule.statusGate, asAlways]
  rw [Hat.Rule.gates, hprogram]
  rfl

theorem matchRule_asAlways (given : Hat.Rule.Circumstances) (rule : Hat.Rule)
    (answer : List MMessage) :
    let matched := Rule.matchRule env given.counters given.conditions rule answer
    (asAlways rule).matchRule env given (answer.map withoutDelay) =
      (matched.1, asAlways matched.2.1, matched.2.2.map withoutDelay) := by
  simp only [Rule.matchRule, Hat.Rule.matchRule, gates_asAlways]
  cases Rule.gates env given.counters given.conditions rule with
  | error state => rfl
  | ok state =>
      simp only [map_pushAnswer]
      rfl

theorem matchFrom_asAlways (given : Hat.Rule.Circumstances) (rules : List Hat.Rule)
    (answer : List MMessage) :
    let matched := RuleSet.matchRules env given.counters given.conditions rules answer
    Hat.RuleSet.matchFrom env given (rules.map asAlways) (answer.map withoutDelay) =
      (matched.1, matched.2.1.map asAlways, matched.2.2.map withoutDelay) := by
  induction rules generalizing answer with
  | nil => rfl
  | cons rule rest ih =>
      have hfirst := @matchRule_asAlways env given rule answer
      simp only [Hat.RuleSet.matchFrom, List.map_cons, hfirst, ih, RuleSet.matchRules]

theorem cycleUpdate_asAlways (rule : Hat.Rule) :
    (asAlways rule).cycleUpdate env = asAlways (rule.cycleUpdate env) := by
  simp only [Hat.Rule.cycleUpdate, apply_ite asAlways]
  rfl

theorem setValidityTime_asAlways (asfrom asto : String) (rule : Hat.Rule) :
    ((asAlways rule).setValidityTime asfrom asto).2 =
      asAlways (rule.setValidityTime asfrom asto).2 := by
  simp only [Hat.Rule.setValidityTime, apply_ite Prod.snd, apply_ite asAlways]
  rfl

theorem modifyNamed_asAlways {change : Hat.Rule → Hat.Rule}
    (hchange : ∀ rule, change (asAlways rule) = asAlways (change rule)) (name : String)
    (rules : List Hat.Rule) :
    Hat.RuleSet.modifyNamed name change (rules.map asAlways) =
      (Hat.RuleSet.modifyNamed name change rules).map asAlways := by
  induction rules with
  | nil => rfl
  | cons rule rest ih =>
      rw [List.map_cons, Hat.RuleSet.modifyNamed, Hat.RuleSet.modifyNamed, ih, hchange]
      by_cases hname : rule.name = name ∨ rule.aliasName = name
      · rw [if_pos hname]
        exact if_pos hname
      · rw [if_neg hname]
        exact if_neg hname

/-! ## The engines side by side -/

/-- The manager with all rules always on, and the player. -/
structure Alike (manager : Hat.RuleEngine) (player : RuleEngine) : Prop where
  eventCounter : manager.eventCounter = player.eventCounter
  condition : manager.condition = player.condition
  rule : manager.rule.rules = player.rule.map asAlways
  eventcounters : manager.pages.eventcounters = player.pages.eventcounters
  conditions : manager.pages.conditions = player.pages.conditions
  rules : manager.pages.rules = player.pages.rules
  index : manager.pages.index = player.pages.index

variable {manager : Hat.RuleEngine} {player : RuleEngine}

theorem Alike.evaluate (h : Alike manager player) :
    Alike (manager.evaluate env).1 (player.evaluate env).1 ∧
      (manager.evaluate env).2 = (player.evaluate env).2.map withoutDelay := by
  have hgiven : manager.given.counters = player.eventCounter ∧
      manager.given.conditions = player.condition := ⟨h.eventCounter, h.condition⟩
  have hmatch := @matchFrom_asAlways env manager.given player.rule []
  rw [hgiven.1, hgiven.2, ← h.rule, List.map_nil] at hmatch
  simp only [Hat.RuleEngine.evaluate, Hat.RuleSet.matchRules, RuleEngine.evaluate, hmatch]
  exact ⟨{ h with rule := rfl }, trivial⟩

theorem Alike.updateAll (h : Alike manager player) :
    Alike (manager.updateAll env).2 (player.updateAll env).2 := by
  simp only [Hat.RuleEngine.updateAll, RuleEngine.updateAll, h.eventCounter]
  split
  · exact { h with eventCounter := rfl }
  · refine { h with eventCounter := rfl, rule := ?_ }
    change manager.rule.rules.map (Hat.Rule.cycleUpdate env) =
      (player.rule.map (Hat.Rule.cycleUpdate env)).map asAlways
    rw [h.rule, List.map_map, List.map_map]
    exact List.map_congr_left fun rule _ => cycleUpdate_asAlways rule

theorem Alike.noteEvent (h : Alike manager player) (msg : MMessage) :
    Alike (manager.noteEvent env msg) (player.noteEvent env msg) := by
  simp only [Hat.RuleEngine.noteEvent, RuleEngine.noteEvent, h.eventCounter, h.condition]
  exact { h with eventCounter := rfl, condition := rfl }

theorem Alike.mapCounterParams (h : Alike manager player)
    (change : String → MParams → MParams) :
    Alike (manager.mapCounterParams change) (player.mapCounterParams change) := by
  simp only [Hat.RuleEngine.mapCounterParams, RuleEngine.mapCounterParams, h.eventCounter]
  exact { h with eventCounter := rfl, eventcounters := rfl }

theorem Alike.mapConditionParams (h : Alike manager player)
    (change : String → MParams → MParams) :
    Alike (manager.mapConditionParams change) (player.mapConditionParams change) := by
  simp only [Hat.RuleEngine.mapConditionParams, RuleEngine.mapConditionParams, h.condition]
  cases player.condition with
  | none => exact h
  | some conditions => exact { h with condition := rfl, conditions := rfl }

/-- The page and the index do not show the mode of a rule. -/
theorem Alike.makeRulePage (h : Alike manager player) :
    Alike manager.makeRulePage player.makeRulePage := by
  refine { h with rules := ?_, index := ?_ }
  · change Hat.RuleEngine.rulePage manager.rule.rules = Hat.RuleEngine.rulePage player.rule
    rw [h.rule, Hat.RuleEngine.rulePage, List.map_map]
    rfl
  · change manager.rule.rules.foldl _ manager.pages.index = player.rule.foldl _ player.pages.index
    rw [h.rule, List.foldl_map, h.index]
    rfl

theorem Alike.withRules (h : Alike manager player) {managed : Hat.RuleSet}
    {rules : List Hat.Rule} (hrules : managed.rules = rules.map asAlways) :
    Alike { manager with rule := managed } { player with rule := rules } :=
  { h with rule := hrules }

theorem Alike.mapRuleParams (h : Alike manager player) (change : String → MParams → MParams) :
    Alike (manager.mapRuleParams change) (player.mapRuleParams change) := by
  apply Alike.makeRulePage
  apply h.withRules
  rw [h.rule, List.map_map, List.map_map]
  rfl

theorem Alike.setValidityTime (h : Alike manager player) (name asfrom asto : String) :
    (manager.rule.setValidityTime name asfrom asto).rules =
      (RuleEngine.setValidityTime name asfrom asto player.rule).map asAlways := by
  rw [Hat.RuleSet.setValidityTime, RuleEngine.setValidityTime, h.rule]
  exact modifyNamed_asAlways (setValidityTime_asAlways asfrom asto) name player.rule

theorem Alike.setStatus (h : Alike manager player) (name rstatus : String) :
    (manager.rule.setStatus name rstatus).rules =
      (Hat.RuleSet.modifyNamed name (Hat.Rule.setStatus rstatus) player.rule).map asAlways := by
  have hchange : ∀ rule, Hat.Rule.setStatus rstatus (asAlways rule) =
      asAlways (Hat.Rule.setStatus rstatus rule) := fun _ => rfl
  rw [Hat.RuleSet.setStatus, h.rule]
  exact modifyNamed_asAlways hchange name player.rule

theorem Alike.setrulemode (h : Alike manager player) (msg : MMessage) :
    Alike (manager.setrulemode msg) (player.setrulemode msg) := by
  apply Alike.makeRulePage
  by_cases hstatus : msg.getString "status" = "ON" ∨ msg.getString "status" = "OFF"
  · have hset := h.withRules (h.setStatus (msg.getString "name") (msg.getString "status"))
    rw [if_pos hstatus, if_pos hstatus]
    split
    · exact h.withRules (hset.setValidityTime _ _ _)
    · exact hset
  · rw [if_neg hstatus, if_neg hstatus]
    split
    · exact h.withRules (h.setValidityTime _ _ _)
    · exact h

/-- The two engines take a message for the same, but for the switch of the program, which is an
event for the player, and for what the player does not know. -/
def played : RuleBranch → RuleBranch
  | .switch => .event
  | .prgstatus | .setwait | .waitfor => .ignored
  | branch => branch

theorem branchOf_eq (msg : MMessage) :
    RuleEngine.branchOf msg = played (Hat.RuleEngine.branchOf msg) := by
  by_cases hprogram : msg.mtype = "program" ∧ msg.msubtype = "prgstatus"
  · simp [RuleEngine.branchOf, Hat.RuleEngine.branchOf, played, hprogram.1, hprogram.2]
  by_cases hsetwait : msg.mtype = "cmd" ∧ msg.msubtype = "setwait"
  · simp [RuleEngine.branchOf, Hat.RuleEngine.branchOf, played, hsetwait.1, hsetwait.2]
  by_cases hwaitfor : msg.mtype = "cmd" ∧ msg.msubtype = "waitfor"
  · simp [RuleEngine.branchOf, Hat.RuleEngine.branchOf, played, hwaitfor.1, hwaitfor.2]
  rw [RuleEngine.branchOf, Hat.RuleEngine.branchOf, if_neg hprogram, if_neg hsetwait,
    if_neg hwaitfor]
  by_cases hevent : msg.mtype = "event"
  · by_cases hswitch : msg.msubtype = "_SWITCH" ∨ msg.msubtype = "_ON"
    · simp [hevent, hswitch, played]
    · simp [hevent, hswitch, played]
  · have hswitch : ¬(msg.mtype = "event" ∧ (msg.msubtype = "_SWITCH" ∨ msg.msubtype = "_ON")) :=
      fun h => hevent h.1
    rw [if_neg hevent, if_neg hswitch]
    simp only [apply_ite played]
    rfl

/-- The messages that a player gets: the manager's without those that concern the program. -/
def ForPlayer (msg : MMessage) : Prop :=
  Hat.RuleEngine.branchOf msg ≠ .switch ∧ Hat.RuleEngine.branchOf msg ≠ .prgstatus

instance : DecidablePred ForPlayer := fun _ => inferInstanceAs (Decidable (_ ∧ _))

theorem Alike.doWork (h : Alike manager player) {msg : MMessage} (hmsg : ForPlayer msg) :
    Alike (manager.doWork env msg).1 (player.doWork env msg).1 ∧
      (manager.doWork env msg).2 = (player.doWork env msg).2.map withoutDelay := by
  rw [Hat.RuleEngine.doWork, RuleEngine.doWork, branchOf_eq]
  obtain ⟨hswitch, hprgstatus⟩ := hmsg
  cases hbranch : Hat.RuleEngine.branchOf msg with
  | eventupdate =>
      have hupdated : (player.updateAll env).1 = true := by
        rw [RuleEngine.updateAll]
        split <;> rfl
      simp only [played, Hat.RuleEngine.eventupdate, RuleEngine.eventupdate,
        Hat.RuleEngine.updateAll_fst, hupdated, if_true]
      exact h.updateAll.evaluate
  | switch => exact absurd hbranch hswitch
  | event => exact (h.noteEvent msg).evaluate
  | prgstatus => exact absurd hbranch hprgstatus
  | setwait => exact ⟨{ h with }, rfl⟩
  | waitfor =>
      have hrules : (manager.waitfor env msg).rule.rules = manager.rule.rules := by
        simp only [Hat.RuleEngine.waitfor, Hat.RuleSet.setWaitForbidden, Hat.RuleSet.setWait]
        split_ifs <;> rfl
      exact ⟨h.withRules (hrules.trans h.rule), rfl⟩
  | seteventcounters => exact ⟨h.mapCounterParams _, rfl⟩
  | reseteventcounters =>
      exact ⟨h.mapCounterParams fun _ => Hat.RuleEngine.resetStatus, rfl⟩
  | setconditions => exact ⟨h.mapConditionParams _, rfl⟩
  | resetconditions =>
      exact ⟨h.mapConditionParams fun _ => Hat.RuleEngine.resetStatus, rfl⟩
  | setrulemode => exact ⟨h.setrulemode msg, rfl⟩
  | setrules => exact ⟨h.mapRuleParams _, rfl⟩
  | setvaliditytime => exact ⟨h.withRules (h.setValidityTime _ _ _), rfl⟩
  | resetrules => exact ⟨h.mapRuleParams fun _ => Hat.RuleEngine.resetStatus, rfl⟩
  | ignored => exact ⟨h, rfl⟩

/-- What an engine notifies in each of its turns. -/
def notified {σ : Type*} (work : Env → MMessage → σ → σ × List MMessage) :
    σ → List Hat.RuleEngine.Turn → List (List MMessage)
  | _, [] => []
  | engine, turn :: rest =>
      (work turn.1 turn.2 engine).2 :: notified work (work turn.1 turn.2 engine).1 rest

theorem Alike.notified {turns : List Hat.RuleEngine.Turn} (h : Alike manager player)
    (hturns : ∀ turn ∈ turns, ForPlayer turn.2) :
    notified Hat.RuleEngine.doWork manager turns =
      (notified RuleEngine.doWork player turns).map (List.map withoutDelay) := by
  induction turns generalizing manager player with
  | nil => rfl
  | cons turn rest ih =>
      obtain ⟨hturn, hrest⟩ := List.forall_mem_cons.mp hturns
      obtain ⟨hafter, hanswer⟩ := @Alike.doWork turn.1 _ _ h _ hturn
      rw [Player.notified, Player.notified, List.map_cons, ← hanswer, ih hafter hrest]

/-- The rule files leave the mode open or say that the rule is always on. -/
def AllAlways (files : RuleEngineFiles) : Prop :=
  ∀ file ∈ files.rules, file.params.load.get "mode" = "" ∨ file.params.load.get "mode" = "always"

theorem get_mode_setValidityTime (rule : Hat.Rule) (asfrom asto : String) :
    (rule.setValidityTime asfrom asto).2.params.get "mode" = rule.params.get "mode" := by
  rw [Hat.Rule.setValidityTime]
  split
  · rw [MParams.get_save, MParams.get_add_of_ne _ _ (by decide),
      MParams.get_add_of_ne _ _ (by decide)]
  · rfl

theorem asAlways_of_behavior {rule : Hat.Rule} (hbehavior : rule.behavior = "always") :
    asAlways rule = rule := by
  rw [asAlways, ← hbehavior]

theorem behavior_init_load (rule : Hat.Rule) (env : Env) :
    (rule.load.init env).behavior = rule.behavior := rfl

theorem asAlways_new {file : RuleFile} (hmode : file.params.load.get "mode" = "" ∨
      file.params.load.get "mode" = "always") (env : Env) :
    asAlways ((Hat.Rule.new env file.memory file.params file.stem).load.init env) =
      (Hat.Rule.new env file.memory file.params file.stem).load.init env := by
  have hread : ∀ mode : String, mode = "" ∨ mode = "always" →
      (if mode = "" then "always" else mode) = "always" := by
    intro mode hmode
    split
    · rfl
    · exact hmode.resolve_left ‹_›
  have hbehavior : (Hat.Rule.new env file.memory file.params file.stem).behavior = "always" := by
    rw [Hat.Rule.new, Hat.Rule.setStoredValidityTime, get_mode_setValidityTime]
    exact hread _ hmode
  apply asAlways_of_behavior
  rw [behavior_init_load]
  exact hbehavior

theorem alike_start {files : RuleEngineFiles} (hfiles : AllAlways files) (env : Env) :
    Alike (Hat.RuleEngine.new env files).start (RuleEngine.new env files).start := by
  have hrules : (Hat.RuleEngine.new env files).rule.rules =
      (RuleEngine.new env files).rule.map asAlways := by
    rw [RuleEngine.new, List.map_map, Hat.RuleEngine.new, Hat.RuleSet.new]
    apply List.map_congr_left
    intro file hfile
    rw [Function.comp_apply, asAlways_new (hfiles file hfile)]
  have hnew : Alike (Hat.RuleEngine.new env files).makeEventcounterPage
      (RuleEngine.new env files).makeEventcounterPage :=
    ⟨rfl, rfl, hrules, rfl, rfl, rfl, rfl⟩
  exact { hnew.makeRulePage with }

/-- A rule without antecedents whose second action comes two seconds after the first. -/
def gardenFiles : RuleEngineFiles where
  params := ⟨"thread", [], none, none⟩
  timeparams := ⟨"params", [], none, none⟩
  eventcounters := []
  conditions := none
  rules := [{
    stem := "garden"
    params := ⟨"rule", [], some ("rule", [⟨"alarm", "generic", "GARDEN"⟩,
      ⟨"action", "generic", "siren+light"⟩, ⟨"delay", "generic", "20"⟩,
      ⟨"status", "generic", "ON"⟩]), none⟩
    memory := ⟨0, false, false, false, 0⟩ }]
  unsetWforbid := 0

def gardenTurns : List Hat.RuleEngine.Turn :=
  [(firstNight, MMessage.mk2 "event" "door"), (firstNight, MMessage.mk2 "cmd" "resetrules")]

end Hat.Player
