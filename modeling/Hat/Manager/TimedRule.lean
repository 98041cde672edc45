import Hat.Core.FirstMarks
import Hat.Manager.Rule

/-!
# Timed rules

A timed rule sets what it commands while its status, its window, the program and its conditions
allow it, and resets it when one of them fails.  `timeUpdate` passes a list of messages from
rule to rule; here what one call of `makeAction` appends to it is kept together as a batch.
-/

namespace Hat

open Hat.Hsrv

/-- The position of the first item of that name. -/
def NameList.find (list : NameList) (name : String) : Option ℕ := list.idxOf? name

structure TimedRule where
  params : MParams
  name : String
  aliasName : String
  status : Status
  enablingCondition : NameList
  behavior : String
  reftime : ℤ
  cTime : ℤ
  fromTime : ℤ
  toTime : ℤ
  cycle : ℤ
  nextcyclestart : ℤ
  midnight : ℤ
  active : Status
  exec : Bool
  deriving DecidableEq

/-- What the fields of the window hold before they are set. -/
structure TimedRuleMemory where
  fromTime : ℤ
  toTime : ℤ

/-- What one call of `makeAction` appends. -/
structure Batch where
  mode : Status
  messages : List MMessage
  deriving DecidableEq

namespace TimedRule

def setValidityTime (asfrom asto : String) (rule : TimedRule) : Bool × TimedRule :=
  let tfrom := string2second asfrom
  let tto := string2second asto
  let midnight := string2second "24:00:00"
  let rule := { rule with midnight := midnight }
  if 0 ≤ tfrom ∧ tfrom < midnight ∧ 0 < tto ∧ tto ≤ midnight then
    (true, { rule with
      fromTime := tfrom
      toTime := tto
      params := ((rule.params.add "from" asfrom).add "to" asto).save })
  else (false, rule)

def setStoredValidityTime (rule : TimedRule) : Bool × TimedRule :=
  let asfrom := rule.params.get "from"
  let asto := rule.params.get "to"
  setValidityTime
    (if asfrom = "" ∨ asfrom = "-INF" then "00:00:00" else asfrom)
    (if asto = "" ∨ asto = "INF" then "24:00:00" else asto) rule

def statusOf (params : MParams) : Status := if params.get "status" = "ON" then .on else .off

def new (env : Env) (memory : TimedRuleMemory) (unloaded : MParams) (nm : String) : TimedRule :=
  let params := unloaded.load
  let name := if params.get "name" = "" then nm else params.get "name"
  let aliasName := if params.get "alias" = "" then params.get "set" ++ "_" ++ params.get "reset"
    else params.get "alias"
  let rule := (setStoredValidityTime
    { params := params
      name := name
      aliasName := aliasName
      status := .off
      enablingCondition := []
      behavior := params.get "mode"
      reftime := 0
      cTime := 0
      fromTime := memory.fromTime
      toTime := memory.toTime
      cycle := -1
      nextcyclestart := -1
      midnight := 0
      active := .off
      exec := false }).2
  let cycle := rule.params.get "cycle"
  { rule with
    cycle := if cycle = "INF" ∨ cycle = "" then -1 else a2int env cycle
    status := statusOf rule.params
    cTime := string2second (getasciitimeday env)
    reftime := toLong env.gettime
    enablingCondition := NameList.init [] (rule.params.get "enabling_condition") '&' }

def setStatus (rstatus : String) (rule : TimedRule) : TimedRule :=
  { rule with
    params := (rule.params.add "status" (if rstatus = "ON" then rstatus else "OFF")).save }

/-- What `settimedrules` and `resettimedrules` do to a rule. -/
def assignStatus (status : String) (rule : TimedRule) : TimedRule :=
  { rule with params := (rule.params.set "status" status).save }

def setActionList (setlist resetlist : String) (rule : TimedRule) : TimedRule :=
  let params := if setlist = "" then rule.params else rule.params.add "set" setlist
  let params := if resetlist = "" then params else params.add "reset" resetlist
  { rule with params := params.save }

/-! ## Update -/

def isInRange (t fromTime toTime : ℤ) : Bool :=
  if fromTime < t ∧ toTime < 0 then true else fromTime ≤ t ∧ t ≤ toTime

def checkProgramName (programName : String) (rule : TimedRule) : Bool :=
  let program := rule.params.get "active_for_program"
  program = "" || program = "ALL" || program = programName

/-- An active condition raises the flag of its first place among the enabling ones. -/
def raiseFlag (names : NameList) (cflag : List Bool) (condition : BooleanCondition) : List Bool :=
  if condition.isActive then
    match names.find (condition.params.get "name") with
    | some k => cflag.set k true
    | none => cflag
  else cflag

def checkCondition (cnd : Option BooleanConditionSet) (rule : TimedRule) : Bool :=
  match cnd with
  | none => true
  | some conditions =>
      (conditions.foldl (raiseFlag rule.enablingCondition)
        (rule.enablingCondition.map fun _ => false)).all fun flag => flag

/-- The result of `cycleUpdate` is not used; without a cycle it returns nothing. -/
def cycleUpdate (env : Env) (rule : TimedRule) : TimedRule :=
  let reftime := toLong env.gettime
  let rule := { rule with reftime := reftime }
  if (rule.behavior = "timed" ∨ rule.behavior = "program_timed") ∧ 0 < rule.cycle then
    if rule.nextcyclestart < 0 then
      { rule with nextcyclestart := reftime + rule.cycle, exec := true }
    else if rule.nextcyclestart < reftime then
      { rule with nextcyclestart := rule.nextcyclestart + rule.cycle, exec := true }
    else rule
  else if (rule.behavior = "cyclic" ∨ rule.behavior = "program_cyclic") ∧ 0 < rule.cycle then
    if rule.nextcyclestart < 0 then
      let now := string2second (getasciitimeday env)
      { rule with
        nextcyclestart := Rule.advance rule.cycle reftime now.toNat (reftime - now)
        exec := false }
    else if rule.nextcyclestart < reftime then
      { rule with nextcyclestart := rule.nextcyclestart + rule.cycle, exec := true }
    else rule
  else rule

def isNone (action : String) : Bool := action = "none" || action = "NONE" || action = "None"

def actionMessage (comment action : String) : MMessage :=
  ((((MMessage.mk2 "rlcmd" "todo").add "action" action).add "source" "timer").add
    "value" "ON").add "comment" comment

def batch (mode : Status) (rule : TimedRule) : Batch :=
  let actions := NameList.init [] (rule.params.get (if mode = .on then "set" else "reset")) '+'
  ⟨mode, (actions.filter fun action => !isNone action).map
    (actionMessage (rule.params.get "comment"))⟩

def makeAction (mode : Status) (rule : TimedRule) (res : List Batch) : List Batch :=
  res ++ [rule.batch mode]

/-- The branches of the two timed modes, which differ in their test. -/
def follow (allowed : Bool) (rule : TimedRule) (res : List Batch) : TimedRule × List Batch :=
  if allowed then
    if rule.exec = true ∨ rule.active = .off then
      ({ rule with active := .on }, rule.makeAction .on res)
    else (rule, res)
  else if rule.active = .on then ({ rule with active := .off }, rule.makeAction .off res)
  else (rule, res)

/-- What an update is given. -/
structure Given where
  programName : String
  program : ℤ
  cnd : Option BooleanConditionSet

/-- The readings at the beginning of an update. -/
def refresh (env : Env) (rule : TimedRule) : TimedRule :=
  let time := string2second (getasciitimeday env)
  let rule := { rule with reftime := time, cTime := time, exec := false }.cycleUpdate env
  { rule with status := statusOf rule.params }

/-- The branches of an update. -/
def act (given : Given) (rule : TimedRule) (res : List Batch) : Bool × TimedRule × List Batch :=
  let inRange := isInRange rule.cTime rule.fromTime rule.toTime
  if rule.status = .off then
    if rule.active = .on then (false, { rule with active := .off }, rule.makeAction .off res)
    else (false, rule, res)
  else if rule.behavior = "timed" then
    (true, rule.follow (inRange && rule.checkCondition given.cnd) res)
  else if rule.behavior = "program_timed" then
    (true, rule.follow (rule.checkProgramName given.programName && given.program ≠ 0 && inRange
      && rule.checkCondition given.cnd) res)
  else if rule.behavior = "cyclic" ∧ rule.checkCondition given.cnd then
    if rule.exec = true ∧ inRange then (true, rule, rule.makeAction .on res)
    else (false, rule, res)
  else if rule.behavior = "program_cyclic" ∧ rule.checkCondition given.cnd then
    if rule.checkProgramName given.programName ∧ rule.exec = true ∧ given.program ≠ 0 ∧ inRange then
      (true, rule, rule.makeAction .on res)
    else (false, rule, res)
  else (false, rule, res)

def timeUpdate (env : Env) (given : Given) (rule : TimedRule) (res : List Batch) :
    Bool × TimedRule × List Batch :=
  (rule.refresh env).act given res

/-- The update of the cycle changes the clock of the rule only. -/
theorem cycleUpdate_eq (env : Env) (rule : TimedRule) :
    ∃ nextcyclestart exec, rule.cycleUpdate env = { rule with
      reftime := toLong env.gettime, nextcyclestart := nextcyclestart, exec := exec } := by
  simp only [cycleUpdate]
  repeat' split
  all_goals exact ⟨_, _, rfl⟩

theorem refresh_eq (env : Env) (rule : TimedRule) :
    ∃ nextcyclestart exec, rule.refresh env = { rule with
      reftime := toLong env.gettime
      cTime := string2second (getasciitimeday env)
      nextcyclestart := nextcyclestart
      exec := exec
      status := statusOf rule.params } := by
  obtain ⟨nextcyclestart, exec, hupdate⟩ := cycleUpdate_eq env { rule with
    reftime := string2second (getasciitimeday env)
    cTime := string2second (getasciitimeday env)
    exec := false }
  refine ⟨nextcyclestart, exec, ?_⟩
  rw [refresh, hupdate]

end TimedRule

end Hat

/-!
# The enabling conditions of a timed rule

The active conditions mark their first places in the enabling list.  A place that repeats
a name, or one that a stray delimiter has left empty, is never marked.
-/

namespace Hat

open Hat.Hsrv

namespace TimedRule

/-- The names of the active conditions. -/
def activeNames (conditions : BooleanConditionSet) : List String :=
  (conditions.filter BooleanCondition.isActive).map fun condition => condition.params.get "name"

theorem foldl_raiseFlag (names : NameList) (conditions : BooleanConditionSet)
    (cflag : List Bool) :
    conditions.foldl (raiseFlag names) cflag =
      (activeNames conditions).foldl (markFirst names) cflag := by
  induction conditions generalizing cflag with
  | nil => rfl
  | cons condition rest ih =>
      rw [List.foldl_cons, ih, raiseFlag, activeNames, activeNames, List.filter_cons]
      by_cases hactive : condition.isActive = true
      · rw [if_pos hactive, if_pos hactive]
        rfl
      · rw [if_neg hactive, if_neg hactive]

theorem checkCondition_iff (conditions : BooleanConditionSet) (rule : TimedRule) :
    rule.checkCondition (some conditions) = true ↔
      rule.enablingCondition.Nodup ∧
        ∀ name ∈ rule.enablingCondition, name ∈ activeNames conditions := by
  rw [checkCondition, foldl_raiseFlag]
  exact all_firstMarks_iff rule.enablingCondition (activeNames conditions)

/-- Every name of the enabling list but the empty one is that of an active condition. -/
def ConditionsMet (conditions : BooleanConditionSet) (rule : TimedRule) : Prop :=
  ∀ name ∈ rule.enablingCondition, name ≠ "" → name ∈ activeNames conditions

/-- The test tells whether the conditions are met. -/
def ChecksConditions (conditions : BooleanConditionSet) (rule : TimedRule) : Prop :=
  rule.checkCondition (some conditions) = true ↔ rule.ConditionsMet conditions

/-- A condition that the list names is missing, or the list repeats no name and names the
empty one only where an active condition has it. -/
def Decided (conditions : BooleanConditionSet) (rule : TimedRule) : Prop :=
  (∃ name ∈ rule.enablingCondition, name ≠ "" ∧ name ∉ activeNames conditions) ∨
    (rule.enablingCondition.Nodup ∧
      ("" ∈ rule.enablingCondition → "" ∈ activeNames conditions))

theorem forall_mem_activeNames_iff (conditions : BooleanConditionSet) (rule : TimedRule) :
    (∀ name ∈ rule.enablingCondition, name ∈ activeNames conditions) ↔
      rule.ConditionsMet conditions ∧
        ("" ∈ rule.enablingCondition → "" ∈ activeNames conditions) := by
  constructor
  · intro hactive
    exact ⟨fun name hname _ => hactive name hname, hactive ""⟩
  · intro hmet name hname
    by_cases hempty : name = ""
    · rw [hempty] at hname ⊢
      exact hmet.2 hname
    · exact hmet.1 name hname hempty

/-- The test is right exactly where the list is clean or a condition is missing. -/
theorem checksConditions_iff (conditions : BooleanConditionSet) (rule : TimedRule) :
    rule.ChecksConditions conditions ↔ rule.Decided conditions := by
  have hmissing : (∃ name ∈ rule.enablingCondition, name ≠ "" ∧ name ∉ activeNames conditions) ↔
      ¬rule.ConditionsMet conditions := by
    simp only [ConditionsMet, not_forall, exists_prop]
  rw [ChecksConditions, checkCondition_iff, forall_mem_activeNames_iff, Decided, hmissing]
  by_cases hmet : rule.ConditionsMet conditions
  · simp [hmet]
  · simp [hmet]

/-- A set in which the one condition, darkness, is active. -/
def darkness : BooleanConditionSet :=
  [{ BooleanCondition.new firstNight
      ⟨"event", [⟨"name", "generic", "dark"⟩, ⟨"threshold", "generic", "0"⟩], none, none⟩ "dark"
    with value := 1 }]

def lampRule (conditions : String) : TimedRule :=
  new firstNight ⟨0, 0⟩
    ⟨"rule", [], some ("rule", [⟨"mode", "generic", "timed"⟩, ⟨"status", "generic", "ON"⟩,
      ⟨"enabling_condition", "generic", conditions⟩]), none⟩ "lamp"

/-- A name that is written twice, and a stray delimiter, keep the rule from becoming active. -/
theorem not_checksConditions_lampRule :
    ¬(lampRule "dark&dark").ChecksConditions darkness ∧
      ¬(lampRule "&dark").ChecksConditions darkness := by
  have hclosed : ∀ text, (lampRule text).checkCondition (some darkness) = false →
      (lampRule text).enablingCondition.all (fun name => name = "" || name = "dark") = true →
      ¬(lampRule text).ChecksConditions darkness := by
    intro text hfalse hnames hchecks
    have hmet : (lampRule text).ConditionsMet darkness := by
      intro name hname hne
      have hdark := List.all_eq_true.mp hnames name hname
      simp only [hne, decide_false, Bool.false_or, decide_eq_true_eq] at hdark
      rw [hdark]
      decide +kernel
    rw [ChecksConditions, hfalse] at hchecks
    exact absurd (hchecks.mpr hmet) Bool.false_ne_true
  constructor
  · exact hclosed "dark&dark" (by decide +kernel) (by decide +kernel)
  · exact hclosed "&dark" (by decide +kernel) (by decide +kernel)

end TimedRule

end Hat
