import Hat.Core.Machine
import Hat.Manager.RuleSet

/-!
# The rule engine

The service loop of the manager's rule engine: it receives one message after the
other, updates counters, conditions and rules, and notifies what the rules answer.
The pages it saves and the index it publishes are part of its state.
-/

namespace Hat

open Hat.Hsrv

/-- The saved item lists and the published index. -/
structure Pages where
  eventcounters : List (String × String)
  conditions : List (String × String)
  rules : List (String × String)
  parameters : List (String × String)
  index : SortedMap String String
  deriving DecidableEq

structure RuleEngine where
  waitAfterOn : String
  waitForbidden : String
  eventCounter : EventCounterSet
  condition : Option BooleanConditionSet
  rule : RuleSet
  program : MMessage
  alarmOn : Bool
  active : List String
  pages : Pages
  deriving DecidableEq

/-- What an engine is made from: the files that the constructor reads, and what the fields that
it leaves unset happen to hold. -/
structure RuleEngineFiles where
  params : MParams
  timeparams : MParams
  eventcounters : List (String × MParams)
  conditions : Option (List (String × MParams))
  rules : List RuleFile
  unsetWforbid : WithTop ℚ

/-- The branches of the loop. -/
inductive RuleBranch
  | eventupdate
  | switch
  | event
  | prgstatus
  | setwait
  | waitfor
  | seteventcounters
  | reseteventcounters
  | setconditions
  | resetconditions
  | setrulemode
  | setrules
  | setvaliditytime
  | resetrules
  | ignored
  deriving DecidableEq

namespace RuleEngine

def makeEventcounterPage (engine : RuleEngine) : RuleEngine :=
  { engine with pages := { engine.pages with
      eventcounters := engine.eventCounter.map fun ec => (ec.name, ec.params.get "status") } }

def makeConditionPage (conditions : BooleanConditionSet) (engine : RuleEngine) : RuleEngine :=
  { engine with pages := { engine.pages with
      conditions := conditions.map fun cnd => (cnd.name, cnd.params.get "status") } }

/-- The text published for a rule in the index. -/
def dynamicDesc (rule : Rule) : String :=
  "alias=\"" ++ rule.aliasName ++ "\" status=\"" ++ rule.params.get "status" ++
    "\" from=\"" ++ rule.params.get "from" ++ "\" to=\"" ++ rule.params.get "to" ++ "\""

def rulePage (rules : List Rule) : List (String × String) :=
  rules.map fun rule => (rule.name, rule.params.get "status")

def makeRulePage (engine : RuleEngine) : RuleEngine :=
  { engine with pages := { engine.pages with
      rules := rulePage engine.rule.rules
      index := engine.rule.rules.foldl (fun index rule => index.insert rule.name (dynamicDesc rule))
        engine.pages.index } }

/-- The same item is pushed twice, with the value meant for the other one. -/
def makeParameterPage (engine : RuleEngine) : RuleEngine :=
  let item := ("wait_after_on", engine.waitForbidden)
  { engine with pages := { engine.pages with parameters := [item, item] } }

def new (env : Env) (files : RuleEngineFiles) : RuleEngine where
  waitAfterOn := if files.timeparams.get "wait_after_on" = "" then files.params.get "wait_after_on"
    else files.timeparams.get "wait_after_on"
  waitForbidden := if files.timeparams.get "wait_forbidden" = ""
    then files.params.get "wait_forbidden" else files.timeparams.get "wait_forbidden"
  eventCounter := files.eventcounters.map fun file => EventCounter.new env file.2 file.1
  condition := files.conditions.map fun conditions =>
    conditions.map fun file => BooleanCondition.new env file.2 file.1
  rule := RuleSet.new env files.unsetWforbid files.rules
  program := MMessage.mk2 "" ""
  alarmOn := false
  active := []
  pages := ⟨[], [], [], [], SortedMap.empty⟩

/-- What the service thread does before its loop. -/
def start (engine : RuleEngine) : RuleEngine :=
  engine.makeEventcounterPage.makeRulePage.makeParameterPage

def given (engine : RuleEngine) : Rule.Circumstances :=
  ⟨engine.active, engine.alarmOn, engine.eventCounter, engine.condition⟩

/-- Evaluate the rules and notify their answer. -/
def evaluate (env : Env) (engine : RuleEngine) : RuleEngine × List MMessage :=
  let matched := engine.rule.matchRules env engine.given []
  ({ engine with rule := matched.2.1 }, matched.2.2)

/-- The operands of the disjunction: the rules are only updated when no counter is
positive. -/
def updateAll (env : Env) (engine : RuleEngine) : Bool × RuleEngine :=
  let counted := engine.eventCounter.timeUpdate env
  if counted.1 then (true, { engine with eventCounter := counted.2 })
  else
    let ruled := engine.rule.timeUpdate env
    (ruled.1, { engine with eventCounter := counted.2, rule := ruled.2 })

def eventupdate (env : Env) (engine : RuleEngine) : RuleEngine × List MMessage :=
  let updated := engine.updateAll env
  if updated.1 then updated.2.evaluate env else (updated.2, [])

def switch (msg : MMessage) (engine : RuleEngine) : RuleEngine × List MMessage :=
  let command := { msg with mtype := "cmd" }.add "program" msg.msubtype
  ({ engine with eventCounter := engine.eventCounter.clearDQ },
    [{ command with msubtype := "setprogram" }])

/-- Counters and conditions as the rules see them in the branch of an event. -/
def noteEvent (env : Env) (msg : MMessage) (engine : RuleEngine) : RuleEngine :=
  let counters := (engine.eventCounter.timeUpdate env).2
  { engine with
    condition := engine.condition.map (BooleanConditionSet.eventUpdate env msg)
    eventCounter := (EventCounterSet.eventUpdate env msg counters).2 }

def event (env : Env) (msg : MMessage) (engine : RuleEngine) : RuleEngine × List MMessage :=
  (engine.noteEvent env msg).evaluate env

def prgstatus (env : Env) (msg : MMessage) (engine : RuleEngine) : RuleEngine :=
  { engine with
    program := msg
    alarmOn := msg.getString "status" ≠ "OFF"
    active := msg.getList "active"
    rule := engine.rule.setWait env engine.waitAfterOn
    eventCounter := engine.eventCounter.clearDQ }

def waitfor (env : Env) (msg : MMessage) (engine : RuleEngine) : RuleEngine :=
  { engine with
    rule := if msg.getString "wait" = ""
      then engine.rule.setWaitForbidden env engine.waitAfterOn engine.waitForbidden
      else engine.rule.setWait env (msg.getString "wait") }

/-- The body of the loops that give each named item the status in its field. -/
def setFromField (msg : MMessage) (name : String) (params : MParams) : MParams :=
  if msg.getString name = "" then params
  else (params.set "status" (msg.getString name)).save

/-- The body of the loops that switch every item on again. -/
def resetStatus (params : MParams) : MParams := (params.set "status" "ON").save

def mapCounterParams (change : String → MParams → MParams) (engine : RuleEngine) : RuleEngine :=
  let changed := engine.eventCounter.map fun ec =>
    { ec with params := change ec.name ec.params }
  { engine with eventCounter := changed }.makeEventcounterPage

def mapConditionParams (change : String → MParams → MParams) (engine : RuleEngine) : RuleEngine :=
  match engine.condition with
  | none => engine
  | some conditions =>
      let changed := conditions.map fun cnd => { cnd with params := change cnd.name cnd.params }
      { engine with condition := some changed }.makeConditionPage changed

def mapRuleParams (change : String → MParams → MParams) (engine : RuleEngine) : RuleEngine :=
  let changed := engine.rule.rules.map fun rule =>
    { rule with params := change rule.name rule.params }
  { engine with rule := { engine.rule with rules := changed } }.makeRulePage

def setrulemode (msg : MMessage) (engine : RuleEngine) : RuleEngine :=
  let name := msg.getString "name"
  let rstatus := msg.getString "status"
  let asfrom := msg.getString "from"
  let asto := msg.getString "to"
  let set := if rstatus = "ON" ∨ rstatus = "OFF" then engine.rule.setStatus name rstatus
    else engine.rule
  let set := if asfrom ≠ "" ∧ asto ≠ "" then set.setValidityTime name asfrom asto else set
  { engine with rule := set }.makeRulePage

/-- This branch does not save the rule page. -/
def setvaliditytime (msg : MMessage) (engine : RuleEngine) : RuleEngine :=
  { engine with
    rule := engine.rule.setValidityTime (msg.getString "rule") (msg.getString "from")
      (msg.getString "to") }

def branchOf (msg : MMessage) : RuleBranch :=
  if msg.mtype = "trigger" ∧ msg.msubtype = "eventupdate" then .eventupdate
  else if msg.mtype = "event" ∧ (msg.msubtype = "_SWITCH" ∨ msg.msubtype = "_ON") then .switch
  else if msg.mtype = "event" then .event
  else if msg.mtype = "program" ∧ msg.msubtype = "prgstatus" then .prgstatus
  else if msg.mtype = "cmd" ∧ msg.msubtype = "setwait" then .setwait
  else if msg.mtype = "cmd" ∧ msg.msubtype = "waitfor" then .waitfor
  else if msg.mtype = "cmd" ∧ msg.msubtype = "seteventcounters" then .seteventcounters
  else if msg.mtype = "cmd" ∧ msg.msubtype = "reseteventcounters" then .reseteventcounters
  else if msg.mtype = "cmd" ∧ msg.msubtype = "setconditions" then .setconditions
  else if msg.mtype = "cmd" ∧ msg.msubtype = "resetconditions" then .resetconditions
  else if msg.mtype = "cmd" ∧ msg.msubtype = "setrulemode" then .setrulemode
  else if msg.mtype = "cmd" ∧ msg.msubtype = "setrules" then .setrules
  else if msg.mtype = "cmd" ∧ msg.msubtype = "setvaliditytime" then .setvaliditytime
  else if msg.mtype = "cmd" ∧ msg.msubtype = "resetrules" then .resetrules
  else .ignored

/-- One turn of the loop: the engine afterwards and the messages it notifies. -/
def doWork (env : Env) (msg : MMessage) (engine : RuleEngine) : RuleEngine × List MMessage :=
  match branchOf msg with
  | .eventupdate => engine.eventupdate env
  | .switch => engine.switch msg
  | .event => engine.event env msg
  | .prgstatus => (engine.prgstatus env msg, [])
  | .setwait =>
      ({ engine with waitAfterOn := msg.getString "wait" }.makeParameterPage, [])
  | .waitfor => (engine.waitfor env msg, [])
  | .seteventcounters => (engine.mapCounterParams (setFromField msg), [])
  | .reseteventcounters => (engine.mapCounterParams fun _ => resetStatus, [])
  | .setconditions => (engine.mapConditionParams (setFromField msg), [])
  | .resetconditions => (engine.mapConditionParams fun _ => resetStatus, [])
  | .setrulemode => (engine.setrulemode msg, [])
  | .setrules => (engine.mapRuleParams (setFromField msg), [])
  | .setvaliditytime => (engine.setvaliditytime msg, [])
  | .resetrules => (engine.mapRuleParams fun _ => resetStatus, [])
  | .ignored => (engine, [])

/-- A message with the surroundings in which it is handled. -/
abbrev Turn := Env × MMessage

def next (engine : RuleEngine) (turn : Turn) : RuleEngine := (engine.doWork turn.1 turn.2).1

def run (engine : RuleEngine) (turns : List Turn) : RuleEngine := turns.foldl next engine

/-! ## Evaluations -/

/-- The engine as its rules find it, in the turns that evaluate them. -/
def evaluated (engine : RuleEngine) (turn : Turn) : Option RuleEngine :=
  match branchOf turn.2 with
  | .eventupdate => some (engine.updateAll turn.1).2
  | .event => some (engine.noteEvent turn.1 turn.2)
  | _ => none

theorem updateAll_fst (env : Env) (engine : RuleEngine) : (engine.updateAll env).1 = true := by
  simp only [updateAll]
  split <;> rfl

theorem doWork_of_evaluated {engine seen : RuleEngine} {turn : Turn}
    (hseen : engine.evaluated turn = some seen) :
    engine.doWork turn.1 turn.2 = seen.evaluate turn.1 := by
  simp only [evaluated] at hseen
  split at hseen
  · rename_i hbranch
    rw [Option.some.injEq] at hseen
    simp only [doWork, hbranch, eventupdate, updateAll_fst, if_true, hseen]
  · rename_i hbranch
    rw [Option.some.injEq] at hseen
    simp only [doWork, hbranch, event, hseen]
  · exact absurd hseen.symm (Option.some_ne_none seen)

/-- The commands that change the status of rules and save the rules page. -/
def IsStatusCommand (msg : MMessage) : Prop :=
  branchOf msg = .setrulemode ∨ branchOf msg = .setrules ∨ branchOf msg = .resetrules

section Look

variable {β : Type*} (look : Rule → β)

theorem map_rules_evaluate {env : Env}
    (hmatch : ∀ given rule answer, look (Rule.matchRule env given rule answer).2.1 = look rule)
    (engine : RuleEngine) :
    (engine.evaluate env).1.rule.rules.map look = engine.rule.rules.map look :=
  RuleSet.map_matchFrom look (hmatch engine.given) engine.rule.rules []

theorem map_rules_updateAll {env : Env}
    (hcycle : ∀ rule, look (Rule.cycleUpdate env rule) = look rule) (engine : RuleEngine) :
    (engine.updateAll env).2.rule.rules.map look = engine.rule.rules.map look := by
  simp only [updateAll]
  split
  · rfl
  · simp only [RuleSet.timeUpdate, List.map_map]
    apply List.map_congr_left
    intro rule _
    exact hcycle rule

theorem map_rules_setrulemode {msg : MMessage}
    (hwindow : ∀ rule asfrom asto, look (Rule.setValidityTime asfrom asto rule).2 = look rule)
    (hparams : ∀ rule params, look { rule with params := params } = look rule)
    (engine : RuleEngine) :
    (engine.setrulemode msg).rule.rules.map look = engine.rule.rules.map look := by
  simp only [setrulemode, makeRulePage]
  split
  · rw [RuleSet.setValidityTime, RuleSet.map_modifyNamed look fun rule => hwindow rule _ _]
    split
    · exact RuleSet.map_modifyNamed look (fun rule => hparams rule _) _ _
    · rfl
  · split
    · exact RuleSet.map_modifyNamed look (fun rule => hparams rule _) _ _
    · rfl

theorem map_rules_mapRuleParams
    (hparams : ∀ rule params, look { rule with params := params } = look rule)
    (change : String → MParams → MParams) (engine : RuleEngine) :
    (engine.mapRuleParams change).rule.rules.map look = engine.rule.rules.map look := by
  simp only [mapRuleParams, makeRulePage, List.map_map]
  apply List.map_congr_left
  intro rule _
  exact hparams rule _

/-- A part of the rules that is kept by everything the branch of a message may do to
a single rule is kept by the turn. -/
theorem map_rules_next {turn : Turn}
    (hmatch : ∀ given rule answer, look (Rule.matchRule turn.1 given rule answer).2.1 = look rule)
    (hwindow : ∀ rule asfrom asto, look (Rule.setValidityTime asfrom asto rule).2 = look rule)
    (hcycle : branchOf turn.2 = .eventupdate →
      ∀ rule, look (Rule.cycleUpdate turn.1 rule) = look rule)
    (hparams : IsStatusCommand turn.2 →
      ∀ rule params, look { rule with params := params } = look rule)
    (engine : RuleEngine) :
    (engine.next turn).rule.rules.map look = engine.rule.rules.map look := by
  simp only [next, doWork]
  cases hbranch : branchOf turn.2 with
  | eventupdate =>
      simp only [eventupdate, updateAll_fst, if_true]
      rw [map_rules_evaluate look hmatch, map_rules_updateAll look (hcycle hbranch)]
  | event => exact map_rules_evaluate look hmatch (engine.noteEvent turn.1 turn.2)
  | waitfor =>
      simp only [waitfor, RuleSet.setWaitForbidden, RuleSet.setWait]
      split
      · split <;> rfl
      · rfl
  | setconditions | resetconditions =>
      simp only [mapConditionParams]
      split <;> rfl
  | setvaliditytime => exact RuleSet.map_modifyNamed look (fun rule => hwindow rule _ _) _ _
  | setrulemode =>
      exact map_rules_setrulemode look hwindow (hparams (Or.inl hbranch)) engine
  | setrules =>
      exact map_rules_mapRuleParams look (hparams (Or.inr (Or.inl hbranch)))
        (setFromField turn.2) engine
  | resetrules =>
      exact map_rules_mapRuleParams look (hparams (Or.inr (Or.inr hbranch)))
        (fun _ => resetStatus) engine
  | switch | prgstatus | setwait | seteventcounters | reseteventcounters | ignored => rfl

end Look

/-- Only the status commands save the rules page. -/
theorem page_rules_next {turn : Turn} (hother : ¬IsStatusCommand turn.2) (engine : RuleEngine) :
    (engine.next turn).pages.rules = engine.pages.rules := by
  simp only [next, doWork]
  cases hbranch : branchOf turn.2 with
  | eventupdate =>
      simp only [eventupdate, updateAll]
      split <;> rfl
  | setconditions | resetconditions =>
      simp only [mapConditionParams]
      split <;> rfl
  | setrulemode => exact absurd (Or.inl hbranch) hother
  | setrules => exact absurd (Or.inr (Or.inl hbranch)) hother
  | resetrules => exact absurd (Or.inr (Or.inr hbranch)) hother
  | _ => rfl

end RuleEngine

end Hat
