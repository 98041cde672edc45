import Hat.Manager.EventCounter

/-!
# Rules

A rule fires when its status, the program in force, its enabling conditions and
its event counters (or its cycle) allow it, and then appends an alarm message and
one command message for each enabled action to the list it is given.

`Rule::match` is a sequence of tests, each of which may return `false` with some
fields of the rule already changed.  The fields it changes are kept apart in
`MatchState`, and the model keeps the sequence: a gate yields the state that the
next test sees, or the state as the early return leaves it.
-/

namespace Hat

open Hat.Hsrv

/-- The fields that `match` reads and changes. -/
structure MatchState where
  latentUntil : ℚ
  cycleactive : Bool
  prcondition : Bool
  tcondition : Bool
  fcondition : Bool
  evcondition : Bool
  prconditionTime : ℚ
  tconditionTime : ℚ
  fconditionTime : ℚ
  evconditionTime : ℚ
  deriving DecidableEq

structure Rule where
  params : MParams
  name : String
  aliasName : String
  status : Status
  condition : NameList
  enablingTrueCondition : NameList
  enablingFalseCondition : NameList
  action : NameList
  fromTime : ℤ
  toTime : ℤ
  midnight : ℤ
  mineTCond : ℤ
  mineFCond : ℤ
  mincond : ℤ
  cycle : ℤ
  reftime : ℤ
  nextcyclestart : ℤ
  behavior : String
  state : MatchState
  deriving DecidableEq

/-- What the fields that the constructor leaves unset happen to hold. -/
structure RuleMemory where
  mineFCond : ℤ
  cycleactive : Bool
  fcondition : Bool
  evcondition : Bool
  evconditionTime : ℚ

namespace Rule

def setValidityTime (asfrom asto : String) (rule : Rule) : Bool × Rule :=
  let tfrom := string2second asfrom
  let tto := string2second asto
  let midnight := string2second "24:00:00"
  let rule := { rule with midnight := midnight }
  if 0 ≤ tfrom ∧ tfrom < midnight ∧ 0 < tto ∧ tto ≤ midnight then
    (true, { rule with
      fromTime := tfrom
      toTime := tto
      params := ((rule.params.add "from" asfrom).add "to" asto).save })
  else (false, rule)

/-- The window that the attributes of the rule describe. -/
def setStoredValidityTime (rule : Rule) : Bool × Rule :=
  let asfrom := rule.params.get "from"
  let asto := rule.params.get "to"
  setValidityTime
    (if asfrom = "" ∨ asfrom = "-INF" then "00:00:00" else asfrom)
    (if asto = "" ∨ asto = "INF" then "24:00:00" else asto) rule

/-- Whether the time of day lies in the window from `fromTime` to `toTime`. -/
def isInWindow (env : Env) (rule : Rule) : Bool :=
  if rule.fromTime < 0 ∨ rule.toTime < 0 then true
  else if rule.fromTime = 0 ∧ rule.toTime = rule.midnight then true
  else
    let time := string2second (getasciitimeday env)
    if rule.fromTime < rule.toTime then rule.fromTime ≤ time && time ≤ rule.toTime
    else (rule.fromTime ≤ time && time ≤ rule.midnight) || (0 ≤ time && time ≤ rule.toTime)

def isActive (env : Env) (rule : Rule) : Bool × Rule :=
  let rule := if rule.toTime < 0 ∨ rule.fromTime < 0 then rule.setStoredValidityTime.2 else rule
  (rule.isInWindow env, rule)

/-- The rule before the constructor looks at the validity window. -/
def unset (env : Env) (memory : RuleMemory) (unloaded : MParams) (nm : String) : Rule where
  params := unloaded.load
  name := if unloaded.load.get "name" = "" then nm else unloaded.load.get "name"
  aliasName := ""
  status := .off
  condition := []
  enablingTrueCondition := []
  enablingFalseCondition := []
  action := []
  fromTime := -1
  toTime := -1
  midnight := -1
  mineTCond := 0
  mineFCond := memory.mineFCond
  mincond := 0
  cycle := -1
  reftime := toLong env.gettime
  nextcyclestart := -1
  behavior := ""
  state :=
    { latentUntil := 0
      cycleactive := memory.cycleactive
      prcondition := false
      tcondition := false
      fcondition := memory.fcondition
      evcondition := memory.evcondition
      prconditionTime := 0
      tconditionTime := 0
      fconditionTime := 0
      evconditionTime := memory.evconditionTime }

def new (env : Env) (memory : RuleMemory) (unloaded : MParams) (nm : String) : Rule :=
  let rule := (unset env memory unloaded nm).setStoredValidityTime.2
  let cycle := rule.params.get "cycle"
  let mode := rule.params.get "mode"
  let aliasName := rule.params.get "alias"
  { rule with
    cycle := if cycle = "INF" ∨ cycle = "" then -1 else a2int env cycle
    status := if rule.params.get "status" = "ON" then .on else .off
    behavior := if mode = "" then "always" else mode
    aliasName := if aliasName = "" then rule.params.get "action" ++ "_" ++ rule.name
      else aliasName }

def load (rule : Rule) : Rule := { rule with params := rule.params.load }

/-- The second minimum is stored where the first belongs. -/
def init (env : Env) (rule : Rule) : Rule :=
  let condition := NameList.init rule.condition (rule.params.get "clause") '+'
  let enablingTrue := NameList.init rule.enablingTrueCondition
    (rule.params.get "enabling_true_condition") '+'
  let enablingFalse := NameList.init rule.enablingFalseCondition
    (rule.params.get "enabling_false_condition") '+'
  let action := NameList.init rule.action (rule.params.get "action") '+'
  let minTrue := rule.params.get "min_enabling_true_conditions"
  let minFalse := rule.params.get "min_enabling_false_conditions"
  let minConditions := rule.params.get "min_conditions"
  let mineTCond : ℤ := if minTrue = "" then enablingTrue.length else a2int env minTrue
  { rule with
    condition := condition
    enablingTrueCondition := enablingTrue
    enablingFalseCondition := enablingFalse
    action := action
    mineTCond := if minFalse = "" then mineTCond else a2int env minFalse
    mineFCond := if minFalse = "" then enablingFalse.length else rule.mineFCond
    mincond := if minConditions = "" ∨ condition.length = 0 then condition.length
      else a2int env minConditions }

def setStatus (rstatus : String) (rule : Rule) : Rule :=
  { rule with
    params := (rule.params.add "status" (if rstatus = "ON" then rstatus else "OFF")).save }

/-- The loop that moves the first cycle start up to the current time. -/
def advance (cycle reftime : ℤ) : ℕ → ℤ → ℤ
  | 0, start => start
  | fuel + 1, start =>
      if start < reftime then advance cycle reftime fuel (start + cycle) else start

def setCycleactive (cycleactive : Bool) (rule : Rule) : Rule :=
  { rule with state := { rule.state with cycleactive := cycleactive } }

def cycleUpdate (env : Env) (rule : Rule) : Rule :=
  let reftime := toLong env.gettime
  let rule := { rule with reftime := reftime }
  if rule.cycle ≤ 0 then rule.setCycleactive false
  else if rule.nextcyclestart < 0 then
    let now := string2second (getasciitimeday env)
    { rule.setCycleactive false with
      nextcyclestart := advance rule.cycle reftime now.toNat (reftime - now) }
  else if rule.nextcyclestart ≤ reftime then
    { rule.setCycleactive true with nextcyclestart := rule.nextcyclestart + rule.cycle }
  else rule

def isAll (name : String) : Bool := name = "ALL" || name = "All" || name = "all"

def isNotMember (rule : Rule) (name : String) (active : List String) : Bool :=
  !(rule.behavior = "always" || rule.behavior = "programoff" ||
    active.any fun listed => name = listed || isAll listed)

def isRuleActive (active : List String) (rule : Rule) : Bool :=
  active.any isAll ||
    (rule.condition.all (fun name => !rule.isNotMember name active) &&
      !rule.isNotMember (rule.params.get "alarm") active)

/-- How many conditions in the state `wanted` are named in `names`. -/
def countConditions (wanted : Bool) (names : NameList) (conditions : BooleanConditionSet) : ℤ :=
  (conditions.filter fun condition =>
    condition.isActive = wanted && names.member (condition.params.get "name")).length

/-- Source, video and comment gathered from the active counters of the rule. -/
structure Evidence where
  source : String
  video : String
  comment : String
  deriving DecidableEq

def activeCounters (rule : Rule) (counters : EventCounterSet) : List EventCounter :=
  counters.filter fun counter =>
    counter.isActive && rule.condition.member (counter.params.get "name")

def evidence (rule : Rule) (counters : EventCounterSet) : Evidence :=
  (rule.activeCounters counters).foldl
    (fun gathered counter =>
      { source := (if gathered.source = "" then gathered.source else gathered.source ++ "+") ++
          EvList.history counter.history
        video := gathered.video ++ EvList.video counter.history
        comment := (if gathered.comment = "" then gathered.comment else gathered.comment ++ ";") ++
          counter.comment })
    ⟨"", "", ""⟩

/-- The data a call of `match` is given beside the rule and the answer. -/
structure Circumstances where
  active : List String
  prgstatus : Bool
  counters : EventCounterSet
  conditions : Option BooleanConditionSet

def programGate (given : Circumstances) (rule : Rule) (state : MatchState) :
    Except MatchState MatchState :=
  if rule.status ≠ .on then .error state
  else if rule.behavior = "programon" ∧ !rule.isRuleActive given.active then
    .error (if given.prgstatus then state else { state with prcondition := false })
  else if rule.behavior = "programon" ∧ !given.prgstatus then
    .error { state with prcondition := false }
  else if rule.behavior = "programoff" ∧ given.prgstatus then
    .error { state with prcondition := false }
  else .ok state

def notePrcondition (time : ℚ) (state : MatchState) : MatchState :=
  if state.prcondition then state
  else { state with prcondition := true, prconditionTime := time }

def trueGate (given : Circumstances) (rule : Rule) (state : MatchState) :
    Except MatchState MatchState :=
  match given.conditions with
  | some conditions =>
      if 0 < rule.enablingTrueCondition.length ∧
          countConditions true rule.enablingTrueCondition conditions < rule.mineTCond then
        .error { state with tcondition := false }
      else .ok state
  | none => .ok state

def noteTcondition (time : ℚ) (state : MatchState) : MatchState :=
  if state.tcondition then state
  else { state with tcondition := true, tconditionTime := time }

def falseGate (given : Circumstances) (rule : Rule) (state : MatchState) :
    Except MatchState MatchState :=
  match given.conditions with
  | some conditions =>
      if 0 < rule.enablingFalseCondition.length ∧
          countConditions false rule.enablingFalseCondition conditions < rule.mineFCond then
        .error { state with fcondition := false }
      else .ok state
  | none => .ok state

def noteFcondition (time : ℚ) (state : MatchState) : MatchState :=
  if state.fcondition then state
  else { state with fcondition := true, fconditionTime := time }

/-- Whether enough counters of the rule are active. -/
def isCounted (counters : EventCounterSet) (rule : Rule) : Bool :=
  rule.mincond ≤ (rule.activeCounters counters).length

def noteEvcondition (time : ℚ) (counters : EventCounterSet) (rule : Rule) (state : MatchState) :
    MatchState :=
  if rule.isCounted counters then { state with evcondition := true, evconditionTime := time }
  else { state with evcondition := false }

def eventGate (time : ℚ) (rule : Rule) (state : MatchState) : Except MatchState MatchState :=
  if !state.evcondition ∧ !state.cycleactive then .error state
  else if 0 < rule.mincond ∧ time < state.latentUntil then .error state
  else if rule.mincond = 0 ∧ !state.cycleactive ∧ state.prconditionTime < time ∧
      state.tconditionTime < time ∧ state.fconditionTime < time then .error state
  else .ok state

/-- All tests of `match` in order. -/
def gates (env : Env) (given : Circumstances) (rule : Rule) : Except MatchState MatchState := do
  let state ← rule.programGate given rule.state
  let state ← rule.trueGate given (notePrcondition env.gettime state)
  let state ← rule.falseGate given (noteTcondition env.gettime state)
  rule.eventGate env.gettime
    (rule.noteEvcondition env.gettime given.counters (noteFcondition env.gettime state))

/-- What firing does to the rule itself. -/
def settle (env : Env) (rule : Rule) (state : MatchState) : MatchState :=
  let latency := rule.params.get "latency"
  { state with
    latentUntil := if 0 < rule.mincond ∧ rule.cycle ≤ 0 ∧ latency ≠ ""
      then env.gettime + a2int env latency else state.latentUntil
    cycleactive := false }

def fillAlarm (alarm : String) (found : Evidence) (message : MMessage) : MMessage :=
  let message := (message.add "alarm" alarm).add "source" found.source
  let message := if found.video = "" then message else message.add "video" found.video
  message.add "comment" found.comment

def fillCommand (found : Evidence) (action : String) (message : MMessage) : MMessage :=
  (((message.add "action" action).add "value" "ON").add "source" found.source).add
    "comment" found.comment

/-- The loop over the enabled actions: a message is pushed at the end of the
answer, and the message at position `index` is filled. -/
def pushCommands (found : Evidence) : List String → ℕ → List MMessage → List MMessage
  | [], _, answer => answer
  | action :: rest, index, answer =>
      pushCommands found rest (index + 1)
        ((answer ++ [MMessage.mk2 "rlcmd" "todo"]).modify index (fillCommand found action))

def enabledActions (active : List String) (rule : Rule) : List String :=
  rule.action.filter fun action => !rule.isNotMember action active

def pushAnswer (given : Circumstances) (rule : Rule) (answer : List MMessage) : List MMessage :=
  let alarm := rule.params.get "alarm"
  let found := rule.evidence given.counters
  pushCommands found (rule.enabledActions given.active) 1
    ((answer ++ [MMessage.mk2 "alarm" alarm]).modify 0 (fillAlarm alarm found))

/-- `Rule::match`: whether the rule fires, the rule afterwards and the answer. -/
def matchRule (env : Env) (given : Circumstances) (rule : Rule) (answer : List MMessage) :
    Bool × Rule × List MMessage :=
  match rule.gates env given with
  | .error state => (false, { rule with state := state }, answer)
  | .ok state => (true, { rule with state := rule.settle env state }, rule.pushAnswer given answer)

/-! ## When a rule fires -/

/-- The branch of `match` that pushes messages is reached. -/
def fires (env : Env) (given : Circumstances) (rule : Rule) : Bool :=
  (rule.gates env given).isOk

def ProgramOpen (given : Circumstances) (rule : Rule) : Prop :=
  (rule.behavior = "programon" → rule.isRuleActive given.active ∧ given.prgstatus) ∧
    (rule.behavior = "programoff" → given.prgstatus = false)

def TrueOpen (given : Circumstances) (rule : Rule) : Prop :=
  ∀ conditions, given.conditions = some conditions → 0 < rule.enablingTrueCondition.length →
    rule.mineTCond ≤ countConditions true rule.enablingTrueCondition conditions

def FalseOpen (given : Circumstances) (rule : Rule) : Prop :=
  ∀ conditions, given.conditions = some conditions → 0 < rule.enablingFalseCondition.length →
    rule.mineFCond ≤ countConditions false rule.enablingFalseCondition conditions

/-- Everything but the counters and the cycle allows the rule to fire. -/
structure Enabled (env : Env) (given : Circumstances) (rule : Rule) : Prop where
  status : rule.status = .on
  program : rule.ProgramOpen given
  trueConditions : rule.TrueOpen given
  falseConditions : rule.FalseOpen given
  latency : 0 < rule.mincond → rule.state.latentUntil ≤ env.gettime

/-- One of the three conditions of the rule has been met only at this instant. -/
def JustMet (env : Env) (rule : Rule) : Prop :=
  ¬(rule.state.prcondition ∧ rule.state.prconditionTime < env.gettime ∧
    rule.state.tcondition ∧ rule.state.tconditionTime < env.gettime ∧
    rule.state.fcondition ∧ rule.state.fconditionTime < env.gettime)

/-- The counters or the cycle ask for the rule to fire. -/
def Triggered (env : Env) (given : Circumstances) (rule : Rule) : Prop :=
  rule.state.cycleactive ∨
    (rule.isCounted given.counters ∧ (rule.mincond = 0 → rule.JustMet env))

theorem isOk_bind {ε β γ : Type} (first : Except ε β) (next : β → Except ε γ) :
    (first >>= next).isOk = true ↔ ∃ value, first = .ok value ∧ (next value).isOk = true := by
  cases first with
  | error _ => simp [bind, Except.bind, Except.isOk, Except.toBool]
  | ok _ => simp [bind, Except.bind]

theorem ite_error_eq_ok {ε β : Type} (closed : Prop) [Decidable closed] (failed : ε)
    (value next : β) :
    (if closed then Except.error failed else Except.ok value) = Except.ok next ↔
      ¬closed ∧ next = value := by
  by_cases h : closed
  · simp [h]
  · simp only [h, if_false, Except.ok.injEq, not_false_eq_true, true_and]
    exact eq_comm

theorem programGate_eq_ok (given : Circumstances) (rule : Rule) (state next : MatchState) :
    rule.programGate given state = .ok next ↔
      (rule.status = .on ∧ rule.ProgramOpen given) ∧ next = state := by
  simp only [programGate, ProgramOpen]
  split
  · rename_i hoff
    simp [hoff]
  · rename_i hon
    rw [not_not] at hon
    split
    · rename_i hclosed
      simp_all
    · rename_i hrule
      split
      · rename_i hclosed
        simp_all
      · rename_i hprogram
        rw [ite_error_eq_ok]
        apply and_congr_left
        intro _
        cases hstatus : given.prgstatus <;> simp_all

theorem trueGate_eq_ok (given : Circumstances) (rule : Rule) (state next : MatchState) :
    rule.trueGate given state = .ok next ↔ rule.TrueOpen given ∧ next = state := by
  simp only [trueGate, TrueOpen]
  cases given.conditions with
  | none => simpa using eq_comm
  | some conditions =>
      simp only [Option.some.injEq, forall_eq', ite_error_eq_ok, not_and, not_lt]

theorem falseGate_eq_ok (given : Circumstances) (rule : Rule) (state next : MatchState) :
    rule.falseGate given state = .ok next ↔ rule.FalseOpen given ∧ next = state := by
  simp only [falseGate, FalseOpen]
  cases given.conditions with
  | none => simpa using eq_comm
  | some conditions =>
      simp only [Option.some.injEq, forall_eq', ite_error_eq_ok, not_and, not_lt]

theorem isOk_eventGate (time : ℚ) (rule : Rule) (state : MatchState) :
    (rule.eventGate time state).isOk ↔
      (state.evcondition ∨ state.cycleactive) ∧
        (0 < rule.mincond → state.latentUntil ≤ time) ∧
        (rule.mincond = 0 → state.cycleactive ∨ ¬(state.prconditionTime < time ∧
          state.tconditionTime < time ∧ state.fconditionTime < time)) := by
  simp only [eventGate]
  split
  · rename_i hclosed
    simp_all [Except.isOk, Except.toBool]
  · rename_i hasked
    have hasked' : state.evcondition ∨ state.cycleactive := by
      cases hev : state.evcondition <;> simp_all
    split
    · rename_i hclosed
      simp [Except.isOk, Except.toBool, hclosed.1, not_le.mpr hclosed.2]
    · rename_i hlatency
      rw [not_and, not_lt] at hlatency
      split
      · rename_i hclosed
        simp only [Bool.not_eq_true'] at hclosed
        simp [Except.isOk, Except.toBool, hclosed]
      · rename_i hfresh
        simp only [Except.isOk, Except.toBool, true_iff]
        refine ⟨hasked', hlatency, fun hmin => ?_⟩
        by_cases hcycle : state.cycleactive = true
        · exact Or.inl hcycle
        · refine Or.inr fun hold => hfresh ⟨hmin, ?_, hold⟩
          simpa using hcycle

/-- The state that the last test sees when all others are passed. -/
def noted (env : Env) (given : Circumstances) (rule : Rule) : MatchState :=
  rule.noteEvcondition env.gettime given.counters
    (noteFcondition env.gettime (noteTcondition env.gettime
      (notePrcondition env.gettime rule.state)))

theorem noted_evcondition (env : Env) (given : Circumstances) (rule : Rule) :
    (rule.noted env given).evcondition = rule.isCounted given.counters := by
  simp only [noted, noteEvcondition]
  split <;> simp_all

theorem noted_cycleactive (env : Env) (given : Circumstances) (rule : Rule) :
    (rule.noted env given).cycleactive = rule.state.cycleactive := by
  simp only [noted, noteEvcondition, noteFcondition, noteTcondition, notePrcondition]
  repeat' split
  all_goals rfl

theorem noted_latentUntil (env : Env) (given : Circumstances) (rule : Rule) :
    (rule.noted env given).latentUntil = rule.state.latentUntil := by
  simp only [noted, noteEvcondition, noteFcondition, noteTcondition, notePrcondition]
  repeat' split
  all_goals rfl

theorem noted_times (env : Env) (given : Circumstances) (rule : Rule) :
    (rule.noted env given).prconditionTime =
        (if rule.state.prcondition then rule.state.prconditionTime else env.gettime) ∧
      (rule.noted env given).tconditionTime =
        (if rule.state.tcondition then rule.state.tconditionTime else env.gettime) ∧
      (rule.noted env given).fconditionTime =
        (if rule.state.fcondition then rule.state.fconditionTime else env.gettime) := by
  simp only [noted, noteEvcondition, noteFcondition, noteTcondition, notePrcondition]
  refine ⟨?_, ?_, ?_⟩
  all_goals
    repeat' split
    all_goals rfl

theorem ite_lt_self_iff (flag : Bool) (earlier time : ℚ) :
    (if flag then earlier else time) < time ↔ flag ∧ earlier < time := by
  cases flag <;> simp

theorem justMet_iff (env : Env) (given : Circumstances) (rule : Rule) :
    rule.JustMet env ↔ ¬((rule.noted env given).prconditionTime < env.gettime ∧
      (rule.noted env given).tconditionTime < env.gettime ∧
      (rule.noted env given).fconditionTime < env.gettime) := by
  obtain ⟨hpr, ht, hf⟩ := rule.noted_times env given
  rw [hpr, ht, hf, ite_lt_self_iff, ite_lt_self_iff, ite_lt_self_iff]
  simp only [JustMet, and_assoc]

/-- The spec of the tests: the rule fires exactly when it is enabled and its
counters or its cycle ask for it. -/
theorem fires_iff (env : Env) (given : Circumstances) (rule : Rule) :
    rule.fires env given ↔ rule.Enabled env given ∧ rule.Triggered env given := by
  have hgates : rule.fires env given ↔
      (rule.status = .on ∧ rule.ProgramOpen given) ∧ rule.TrueOpen given ∧
        rule.FalseOpen given ∧ (rule.eventGate env.gettime (rule.noted env given)).isOk := by
    simp only [fires, gates, isOk_bind, programGate_eq_ok, trueGate_eq_ok, falseGate_eq_ok,
      and_assoc, exists_and_left, exists_eq_left, noted]
  rw [hgates, isOk_eventGate, noted_evcondition, noted_cycleactive, noted_latentUntil,
    ← justMet_iff]
  constructor
  · rintro ⟨⟨hstatus, hprogram⟩, htrue, hfalse, hasked, hlatency, hfresh⟩
    refine ⟨⟨hstatus, hprogram, htrue, hfalse, hlatency⟩, ?_⟩
    by_cases hcycle : rule.state.cycleactive = true
    · exact Or.inl hcycle
    · exact Or.inr ⟨hasked.resolve_right hcycle, fun hmin => (hfresh hmin).resolve_left hcycle⟩
  · rintro ⟨⟨hstatus, hprogram, htrue, hfalse, hlatency⟩, htriggered⟩
    refine ⟨⟨hstatus, hprogram⟩, htrue, hfalse, ?_, hlatency, ?_⟩
    · exact htriggered.symm.imp_left And.left
    · exact fun hmin => htriggered.imp_right fun h => h.2 hmin

/-- The rule is enabled and asked for: all its tests are passed. -/
def Due (env : Env) (given : Circumstances) (rule : Rule) : Prop :=
  rule.Enabled env given ∧ rule.Triggered env given

instance (env : Env) (given : Circumstances) : DecidablePred (Due env given) := fun rule =>
  decidable_of_iff (rule.fires env given = true) (rule.fires_iff env given)

theorem fires_eq_decide_due (env : Env) (given : Circumstances) (rule : Rule) :
    rule.fires env given = decide (rule.Due env given) := by
  rw [Bool.eq_iff_iff, decide_eq_true_iff]
  exact rule.fires_iff env given

end Rule

end Hat
