import Hat.Core.Selection
import Hat.Manager.ProgramStatus
import Hat.Manager.TimedRuleSwitch

/-!
# The engine of the timed rules

The engine hands each message to its rules, and at each update it sends the actions that the
rules ask for.  Whatever it has been told before, a rule asks for the actions of the list that
it was given last, and for those that switch on only when its status was last set to `ON`.
-/

namespace Hat

open Hat.Hsrv

namespace TimedRuleSet

/-- The rules are updated in turn, and each adds to what the others ask for. -/
def timeUpdate (env : Env) (given : TimedRule.Given) :
    List TimedRule → List Batch → List TimedRule × List Batch
  | [], res => ([], res)
  | rule :: rest, res =>
      let updated := (rule.timeUpdate env given res).2
      let others := timeUpdate env given rest updated.2
      (updated.1 :: others.1, others.2)

def answers (name : String) (rule : TimedRule) : Bool :=
  rule.name = name || rule.aliasName = name

def setStatus (name rstatus : String) : List TimedRule → List TimedRule :=
  Selection.changeFirst (answers name) (TimedRule.setStatus rstatus)

def setValidityTime (name asfrom asto : String) : List TimedRule → List TimedRule :=
  Selection.changeFirst (answers name) fun rule => (rule.setValidityTime asfrom asto).2

/-- An action list is given to a rule by its name only. -/
def setActionList (name setlist resetlist : String) : List TimedRule → List TimedRule :=
  Selection.changeFirst (fun rule => rule.name = name) (TimedRule.setActionList setlist resetlist)

end TimedRuleSet

/-- What the loop keeps from turn to turn. -/
structure TimedRuleThread where
  engine : TimedRuleEngine
  rules : List TimedRule
  condition : Option BooleanConditionSet

inductive TimedRuleBranch
  | prgstatus
  | event
  | timedruleupdate
  | settimedrules
  | resettimedrules
  | settrconditions
  | resettrconditions
  | settrrulemode
  | settrvaliditytime
  | settractions
  | ignored
  deriving DecidableEq

namespace TimedRuleThread

def branchOf (msg : MMessage) : TimedRuleBranch :=
  if msg.mtype = "program" ∧ msg.msubtype = "prgstatus" then .prgstatus
  else if msg.mtype = "event" then .event
  else if msg.mtype = "trigger" ∧ msg.msubtype = "timedruleupdate" then .timedruleupdate
  else if msg.mtype = "cmd" ∧ msg.msubtype = "settimedrules" then .settimedrules
  else if msg.mtype = "cmd" ∧ msg.msubtype = "resettimedrules" then .resettimedrules
  else if msg.mtype = "cmd" ∧ msg.msubtype = "settrconditions" then .settrconditions
  else if msg.mtype = "cmd" ∧ msg.msubtype = "resettrconditions" then .resettrconditions
  else if msg.mtype = "cmd" ∧ msg.msubtype = "settrrulemode" then .settrrulemode
  else if msg.mtype = "cmd" ∧ msg.msubtype = "settrvaliditytime" then .settrvaliditytime
  else if msg.mtype = "cmd" ∧ msg.msubtype = "settractions" then .settractions
  else .ignored

def given (thread : TimedRuleThread) : TimedRule.Given :=
  ⟨thread.engine.program.getString "status", if thread.engine.alarmOn then 1 else 0,
    thread.condition⟩

def setConditions (change : BooleanCondition → Option String) (set : BooleanConditionSet) :
    BooleanConditionSet :=
  set.map fun condition =>
    match change condition with
    | some status => { condition with params := (condition.params.set "status" status).save }
    | none => condition

/-- The value of a field, if there is one. -/
def fieldOf (msg : MMessage) (field : String) : Option String :=
  if msg.getString field = "" then none else some (msg.getString field)

/-- The branch `settrrulemode`. -/
def setrulemode (msg : MMessage) (rules : List TimedRule) : List TimedRule :=
  let rules :=
    if msg.getString "status" = "ON" ∨ msg.getString "status" = "OFF" then
      TimedRuleSet.setStatus (msg.getString "name") (msg.getString "status") rules
    else rules
  if msg.getString "from" ≠ "" ∧ msg.getString "to" ≠ "" then
    TimedRuleSet.setValidityTime (msg.getString "name") (msg.getString "from")
      (msg.getString "to") rules
  else rules

/-- One turn of the loop with what it sends. -/
def doWork (env : Env) (msg : MMessage) (thread : TimedRuleThread) :
    TimedRuleThread × List MMessage :=
  match branchOf msg with
  | .prgstatus => ({ thread with engine := thread.engine.prgstatus msg }, [])
  | .event =>
      ({ thread with
        condition := thread.condition.map (BooleanConditionSet.eventUpdate env msg) }, [])
  | .timedruleupdate =>
      let updated := TimedRuleSet.timeUpdate env thread.given thread.rules []
      ({ thread with rules := updated.1 }, updated.2.flatMap Batch.messages)
  | .settimedrules =>
      ({ thread with
        rules := thread.rules.map fun rule =>
          if msg.getString rule.name ≠ "" then rule.assignStatus (msg.getString rule.name)
          else rule }, [])
  | .resettimedrules =>
      ({ thread with rules := thread.rules.map (TimedRule.assignStatus "ON") }, [])
  | .settrconditions =>
      ({ thread with
        condition := thread.condition.map
          (setConditions fun condition => fieldOf msg condition.name) }, [])
  | .resettrconditions =>
      ({ thread with condition := thread.condition.map (setConditions fun _ => some "ON") }, [])
  | .settrrulemode => ({ thread with rules := setrulemode msg thread.rules }, [])
  | .settrvaliditytime =>
      ({ thread with
        rules := TimedRuleSet.setValidityTime (msg.getString "rule") (msg.getString "from")
          (msg.getString "to") thread.rules }, [])
  | .settractions =>
      ({ thread with
        rules := TimedRuleSet.setActionList (msg.getString "rule") (msg.getString "set")
          (msg.getString "reset") thread.rules }, [])
  | .ignored => (thread, [])

structure Turn where
  env : Env
  msg : MMessage

def next (thread : TimedRuleThread) (turn : Turn) : TimedRuleThread :=
  (thread.doWork turn.env turn.msg).1

def run (thread : TimedRuleThread) (turns : List Turn) : TimedRuleThread := turns.foldl next thread

/-- The list that a message gives to a rule. -/
def listWord (key : String) (rule : TimedRule) (turn : Turn) : Option String :=
  if branchOf turn.msg = .settractions ∧ turn.msg.getString "rule" = rule.name then
    fieldOf turn.msg key
  else none

/-- The status that a message gives to a rule. -/
def statusWord (rule : TimedRule) (turn : Turn) : Option String :=
  match branchOf turn.msg with
  | .settimedrules => fieldOf turn.msg rule.name
  | .resettimedrules => some "ON"
  | .settrrulemode =>
      if TimedRuleSet.answers (turn.msg.getString "name") rule = true ∧
          (turn.msg.getString "status" = "ON" ∨ turn.msg.getString "status" = "OFF") then
        some (turn.msg.getString "status")
      else none
  | _ => none

/-- The last word, or what there was before. -/
def lastOf (words : List String) (before : String) : String := words.getLast?.getD before

theorem lastOf_append (words : List String) (word : Option String) (before : String) :
    lastOf (words ++ word.toList) before = word.getD (lastOf words before) := by
  cases word with
  | none => rw [Option.toList_none, List.append_nil, Option.getD_none]
  | some word =>
      rw [lastOf, Option.toList_some, List.getLast?_concat, Option.getD_some, Option.getD_some]

/-- The list of a rule after a run. -/
def listAfter (key : String) (turns : List Turn) (rule : TimedRule) : String :=
  lastOf (turns.filterMap (listWord key rule)) (rule.params.get key)

def statusAfter (turns : List Turn) (rule : TimedRule) : String :=
  lastOf (turns.filterMap (statusWord rule)) (rule.params.get "status")

/-- The actions that are asked for with a list. -/
def asked (comment list : String) : List MMessage :=
  ((NameList.init [] list '+').filter fun action => !TimedRule.isNone action).map
    (TimedRule.actionMessage comment)

end TimedRuleThread

namespace TimedRule

/-- What a rule asks for is added to what is there. -/
theorem act_append (given : Given) (rule : TimedRule) (res : List Batch) :
    (rule.act given res).2 = ((rule.act given []).2.1, res ++ (rule.act given []).2.2) := by
  simp only [act, follow, makeAction]
  repeat' split
  all_goals simp

/-- An update leaves the names and the parameters of a rule. -/
structure SameRule (rule rule' : TimedRule) : Prop where
  name : rule'.name = rule.name
  aliasName : rule'.aliasName = rule.aliasName
  params : rule'.params = rule.params

theorem sameRule_refresh (env : Env) (rule : TimedRule) : SameRule rule (rule.refresh env) := by
  obtain ⟨nextcyclestart, exec, hrefresh⟩ := refresh_eq env rule
  rw [hrefresh]
  exact ⟨rfl, rfl, rfl⟩

theorem sameRule_act (given : Given) (rule : TimedRule) (res : List Batch) :
    SameRule rule (rule.act given res).2.1 := by
  simp only [act, follow]
  repeat' split
  all_goals exact ⟨rfl, rfl, rfl⟩

theorem sameRule_timeUpdate (env : Env) (given : Given) (rule : TimedRule) (res : List Batch) :
    SameRule rule (rule.timeUpdate env given res).2.1 := by
  have hrefresh := sameRule_refresh env rule
  have hact := sameRule_act given (rule.refresh env) res
  exact ⟨hact.name.trans hrefresh.name, hact.aliasName.trans hrefresh.aliasName,
    hact.params.trans hrefresh.params⟩

theorem batch_congr {rule rule' : TimedRule} (hparams : rule'.params = rule.params)
    (mode : Status) : rule'.batch mode = rule.batch mode := by
  rw [batch, batch, hparams]

theorem act_cases (given : Given) (rule : TimedRule) :
    (rule.act given []).2.2 = [] ∨
      rule.status = .on ∧ (rule.act given []).2.2 = [rule.batch .on] ∨
      (rule.act given []).2.2 = [rule.batch .off] := by
  cases hstatus : rule.status with
  | off =>
      rw [act, if_pos hstatus]
      split
      · exact Or.inr (Or.inr rfl)
      · exact Or.inl rfl
  | on =>
      have hnot : rule.status ≠ .off := by
        rw [hstatus]
        decide
      simp only [act, if_neg hnot, follow, makeAction, List.nil_append]
      repeat' split
      all_goals simp

/-- A rule asks for nothing, or for one of its lists; for the first one only when it is `ON`. -/
theorem timeUpdate_cases (env : Env) (given : Given) (rule : TimedRule) :
    (rule.timeUpdate env given []).2.2 = [] ∨
      rule.params.get "status" = "ON" ∧ (rule.timeUpdate env given []).2.2 = [rule.batch .on] ∨
      (rule.timeUpdate env given []).2.2 = [rule.batch .off] := by
  have hbatch := batch_congr (sameRule_refresh env rule).params
  rw [timeUpdate]
  refine (act_cases given (rule.refresh env)).imp_right (Or.imp ?_ ?_)
  · rintro ⟨hstatus, hasked⟩
    refine ⟨?_, hasked.trans (by rw [hbatch])⟩
    obtain ⟨nextcyclestart, exec, hrefresh⟩ := refresh_eq env rule
    rw [hrefresh] at hstatus
    by_contra hoff
    exact absurd (hstatus.symm.trans (if_neg hoff)) (by decide)
  · exact fun hasked => hasked.trans (by rw [hbatch])

end TimedRule

namespace TimedRuleSet

theorem timeUpdate_eq (env : Env) (given : TimedRule.Given) (rules : List TimedRule)
    (res : List Batch) :
    timeUpdate env given rules res =
      (rules.map fun rule => (rule.timeUpdate env given []).2.1,
        res ++ rules.flatMap fun rule => (rule.timeUpdate env given []).2.2) := by
  induction rules generalizing res with
  | nil => rw [timeUpdate, List.map_nil, List.flatMap_nil, List.append_nil]
  | cons rule rest ih =>
      have hrule : (rule.timeUpdate env given res).2 =
          ((rule.timeUpdate env given []).2.1, res ++ (rule.timeUpdate env given []).2.2) :=
        TimedRule.act_append given (rule.refresh env) res
      rw [timeUpdate, hrule, ih, List.map_cons, List.flatMap_cons, List.append_assoc]

/-- No name is one of both rules. -/
def Apart (rule other : TimedRule) : Prop :=
  ∀ name, ¬(answers name rule = true ∧ answers name other = true)

theorem answers_congr {rule rule' : TimedRule} (hname : rule'.name = rule.name)
    (halias : rule'.aliasName = rule.aliasName) (name : String) :
    answers name rule' = answers name rule := by
  rw [answers, answers, hname, halias]

variable {rules : List TimedRule}

theorem setStatus_eq (hapart : rules.Pairwise Apart) (name rstatus : String) :
    setStatus name rstatus rules =
      rules.map fun rule => if answers name rule then rule.setStatus rstatus else rule :=
  Selection.changeFirst_eq_map (hapart.imp fun h => h name)

theorem setValidityTime_eq (hapart : rules.Pairwise Apart) (name asfrom asto : String) :
    setValidityTime name asfrom asto rules =
      rules.map fun rule =>
        if answers name rule then (rule.setValidityTime asfrom asto).2 else rule :=
  Selection.changeFirst_eq_map (hapart.imp fun h => h name)

theorem setActionList_eq (hapart : rules.Pairwise Apart) (name setlist resetlist : String) :
    setActionList name setlist resetlist rules =
      rules.map fun rule =>
        if rule.name = name then rule.setActionList setlist resetlist else rule := by
  have hone : rules.Pairwise fun rule other =>
      ¬(decide (rule.name = name) = true ∧ decide (other.name = name) = true) := by
    apply hapart.imp
    intro rule other h hboth
    apply h name
    rw [answers, answers, hboth.1, hboth.2]
    exact ⟨rfl, rfl⟩
  rw [setActionList, Selection.changeFirst_eq_map hone]
  apply List.map_congr_left
  intro rule _
  exact ite_congr (decide_eq_true_eq) (fun _ => rfl) fun _ => rfl

end TimedRuleSet

namespace TimedRuleThread

/-! ## One turn -/

/-- The status that `settrrulemode` gives to a rule with that name. -/
def statusSet (msg : MMessage) (rule : TimedRule) : TimedRule :=
  if (msg.getString "status" = "ON" ∨ msg.getString "status" = "OFF") ∧
      TimedRuleSet.answers (msg.getString "name") rule then
    rule.setStatus (msg.getString "status")
  else rule

/-- The window that it gives to a rule with that name. -/
def timesSet (msg : MMessage) (rule : TimedRule) : TimedRule :=
  if (msg.getString "from" ≠ "" ∧ msg.getString "to" ≠ "") ∧
      TimedRuleSet.answers (msg.getString "name") rule then
    (rule.setValidityTime (msg.getString "from") (msg.getString "to")).2
  else rule

/-- What a turn makes of a rule, whatever other rules there are. -/
def turned (given : TimedRule.Given) (turn : Turn) (rule : TimedRule) : TimedRule :=
  match branchOf turn.msg with
  | .timedruleupdate => (rule.timeUpdate turn.env given []).2.1
  | .settimedrules =>
      if turn.msg.getString rule.name ≠ "" then rule.assignStatus (turn.msg.getString rule.name)
      else rule
  | .resettimedrules => rule.assignStatus "ON"
  | .settrrulemode => timesSet turn.msg (statusSet turn.msg rule)
  | .settrvaliditytime =>
      if TimedRuleSet.answers (turn.msg.getString "rule") rule then
        (rule.setValidityTime (turn.msg.getString "from") (turn.msg.getString "to")).2
      else rule
  | .settractions =>
      if rule.name = turn.msg.getString "rule" then
        rule.setActionList (turn.msg.getString "set") (turn.msg.getString "reset")
      else rule
  | _ => rule

/-- What a command changes of a rule: its lists and its status are the words, where there are
some. -/
structure Takes (rule rule' : TimedRule) (set reset status : Option String) : Prop where
  name : rule'.name = rule.name
  aliasName : rule'.aliasName = rule.aliasName
  comment : rule'.params.get "comment" = rule.params.get "comment"
  set_eq : rule'.params.get "set" = set.getD (rule.params.get "set")
  reset_eq : rule'.params.get "reset" = reset.getD (rule.params.get "reset")
  status_eq : rule'.params.get "status" = status.getD (rule.params.get "status")

section Commands

variable {rule rule' rule'' : TimedRule}

theorem takes_refl (rule : TimedRule) : Takes rule rule none none none :=
  ⟨rfl, rfl, rfl, rfl, rfl, rfl⟩

theorem takes_sameRule (hsame : TimedRule.SameRule rule rule') : Takes rule rule' none none none :=
  ⟨hsame.name, hsame.aliasName, by rw [hsame.params], by rw [hsame.params]; rfl,
    by rw [hsame.params]; rfl, by rw [hsame.params]; rfl⟩

theorem takes_assignStatus {status : String} (hstatus : status ≠ "")
    (hpresent : rule.params.get "status" ≠ "") :
    Takes rule (rule.assignStatus status) none none (some status) :=
  ⟨rfl, rfl, MParams.get_set_of_ne _ _ (by decide), MParams.get_set_of_ne _ _ (by decide),
    MParams.get_set_of_ne _ _ (by decide), MParams.get_set_self _ hstatus hpresent⟩

theorem takes_setStatus {status : String} (hstatus : status = "ON" ∨ status = "OFF")
    (rule : TimedRule) : Takes rule (rule.setStatus status) none none (some status) := by
  have hword : (if status = "ON" then status else "OFF") = status := by
    rcases hstatus with rfl | rfl <;> decide
  have hnonempty : status ≠ "" := by
    rcases hstatus with rfl | rfl <;> decide
  rw [TimedRule.setStatus, hword]
  exact ⟨rfl, rfl, MParams.get_add_of_ne _ _ (by decide), MParams.get_add_of_ne _ _ (by decide),
    MParams.get_add_of_ne _ _ (by decide), MParams.get_add_self _ _ hnonempty⟩

theorem takes_setValidityTime (asfrom asto : String) (rule : TimedRule) :
    Takes rule (rule.setValidityTime asfrom asto).2 none none none := by
  have hkept : ∀ field, "from" ≠ field → "to" ≠ field →
      (((rule.params.add "from" asfrom).add "to" asto).save).get field = rule.params.get field := by
    intro field hfrom hto
    rw [MParams.get_save, MParams.get_add_of_ne _ _ hto, MParams.get_add_of_ne _ _ hfrom]
  simp only [TimedRule.setValidityTime]
  split
  · exact ⟨rfl, rfl, hkept _ (by decide) (by decide), hkept _ (by decide) (by decide),
      hkept _ (by decide) (by decide), hkept _ (by decide) (by decide)⟩
  · exact ⟨rfl, rfl, rfl, rfl, rfl, rfl⟩

theorem takes_setActionList (msg : MMessage) (rule : TimedRule) :
    Takes rule (rule.setActionList (msg.getString "set") (msg.getString "reset"))
      (fieldOf msg "set") (fieldOf msg "reset") none := by
  have hkept : ∀ field, "set" ≠ field → "reset" ≠ field →
      (rule.setActionList (msg.getString "set") (msg.getString "reset")).params.get field =
        rule.params.get field := by
    intro field hset hreset
    simp only [TimedRule.setActionList, MParams.get_save]
    split <;> split
    · rfl
    · rw [MParams.get_add_of_ne _ _ hset]
    · rw [MParams.get_add_of_ne _ _ hreset]
    · rw [MParams.get_add_of_ne _ _ hreset, MParams.get_add_of_ne _ _ hset]
  refine ⟨rfl, rfl, hkept _ (by decide) (by decide), ?_, ?_, hkept _ (by decide) (by decide)⟩
  · simp only [TimedRule.setActionList, MParams.get_save, fieldOf]
    by_cases hset : msg.getString "set" = ""
    · rw [if_pos hset, if_pos hset]
      split
      · rfl
      · exact MParams.get_add_of_ne _ _ (by decide)
    · rw [if_neg hset, if_neg hset]
      split
      · exact MParams.get_add_self _ _ hset
      · rw [MParams.get_add_of_ne _ _ (by decide)]
        exact MParams.get_add_self _ _ hset
  · simp only [TimedRule.setActionList, MParams.get_save, fieldOf]
    by_cases hreset : msg.getString "reset" = ""
    · rw [if_pos hreset, if_pos hreset]
      split
      · rfl
      · exact MParams.get_add_of_ne _ _ (by decide)
    · rw [if_neg hreset, if_neg hreset]
      exact MParams.get_add_self _ _ hreset

theorem takes_statusSet (msg : MMessage) (rule : TimedRule) :
    Takes rule (statusSet msg rule) none none
      (if TimedRuleSet.answers (msg.getString "name") rule = true ∧
          (msg.getString "status" = "ON" ∨ msg.getString "status" = "OFF") then
        some (msg.getString "status") else none) := by
  by_cases hword : (msg.getString "status" = "ON" ∨ msg.getString "status" = "OFF") ∧
      TimedRuleSet.answers (msg.getString "name") rule = true
  · rw [statusSet, if_pos hword, if_pos hword.symm]
    exact takes_setStatus hword.1 rule
  · rw [statusSet, if_neg hword, if_neg fun h => hword h.symm]
    exact takes_refl rule

theorem takes_timesSet (msg : MMessage) (rule : TimedRule) :
    Takes rule (timesSet msg rule) none none none := by
  rw [timesSet]
  split
  · exact takes_setValidityTime _ _ rule
  · exact takes_refl rule

/-- A change after one that gives no word. -/
theorem Takes.then_none {status : Option String} (h : Takes rule rule' none none status)
    (h' : Takes rule' rule'' none none none) : Takes rule rule'' none none status :=
  ⟨h'.name.trans h.name, h'.aliasName.trans h.aliasName, h'.comment.trans h.comment,
    h'.set_eq.trans h.set_eq, h'.reset_eq.trans h.reset_eq, h'.status_eq.trans h.status_eq⟩

/-- Only `settractions` gives a list. -/
theorem Takes.of_noList {turn : Turn} {status : Option String}
    (hbranch : branchOf turn.msg ≠ .settractions) (h : Takes rule rule' none none status) :
    Takes rule rule' (listWord "set" rule turn) (listWord "reset" rule turn) status := by
  have hnone : ∀ key, listWord key rule turn = none := fun key => if_neg fun h => hbranch h.1
  rw [hnone, hnone]
  exact h

end Commands

theorem takes_turned (given : TimedRule.Given) (turn : Turn) {rule : TimedRule}
    (hpresent : rule.params.get "status" ≠ "") :
    Takes rule (turned given turn rule) (listWord "set" rule turn) (listWord "reset" rule turn)
      (statusWord rule turn) := by
  cases hbranch : branchOf turn.msg
  case timedruleupdate =>
    apply Takes.of_noList (by rw [hbranch]; decide)
    rw [turned, statusWord, hbranch]
    exact takes_sameRule (TimedRule.sameRule_timeUpdate turn.env given rule [])
  case settimedrules =>
    apply Takes.of_noList (by rw [hbranch]; decide)
    rw [turned, statusWord, hbranch]
    dsimp only
    rw [fieldOf]
    by_cases hfield : turn.msg.getString rule.name = ""
    · rw [if_neg (not_not.mpr hfield), if_pos hfield]
      exact takes_refl rule
    · rw [if_pos hfield, if_neg hfield]
      exact takes_assignStatus hfield hpresent
  case resettimedrules =>
    apply Takes.of_noList (by rw [hbranch]; decide)
    rw [turned, statusWord, hbranch]
    exact takes_assignStatus (by decide) hpresent
  case settrrulemode =>
    apply Takes.of_noList (by rw [hbranch]; decide)
    rw [turned, statusWord, hbranch]
    exact (takes_statusSet turn.msg rule).then_none (takes_timesSet turn.msg _)
  case settrvaliditytime =>
    apply Takes.of_noList (by rw [hbranch]; decide)
    rw [turned, statusWord, hbranch]
    dsimp only
    split
    · exact takes_setValidityTime _ _ rule
    · exact takes_refl rule
  case settractions =>
    rw [turned, statusWord, listWord, listWord, hbranch]
    dsimp only
    by_cases hname : rule.name = turn.msg.getString "rule"
    · rw [if_pos hname, if_pos ⟨rfl, hname.symm⟩, if_pos ⟨rfl, hname.symm⟩]
      exact takes_setActionList turn.msg rule
    · rw [if_neg hname, if_neg fun h => hname h.2.symm, if_neg fun h => hname h.2.symm]
      exact takes_refl rule
  all_goals
    apply Takes.of_noList (by rw [hbranch]; decide)
    rw [turned, statusWord, hbranch]
    exact takes_refl rule

section Apart

variable {rules : List TimedRule}

theorem apart_map {change : TimedRule → TimedRule}
    (hname : ∀ rule, (change rule).name = rule.name)
    (halias : ∀ rule, (change rule).aliasName = rule.aliasName)
    (hapart : rules.Pairwise TimedRuleSet.Apart) :
    (rules.map change).Pairwise TimedRuleSet.Apart := by
  apply List.pairwise_map.mpr
  apply hapart.imp
  intro rule other h name
  rw [TimedRuleSet.answers_congr (hname rule) (halias rule),
    TimedRuleSet.answers_congr (hname other) (halias other)]
  exact h name

theorem map_statusSet (hapart : rules.Pairwise TimedRuleSet.Apart) (msg : MMessage) :
    (if msg.getString "status" = "ON" ∨ msg.getString "status" = "OFF" then
      TimedRuleSet.setStatus (msg.getString "name") (msg.getString "status") rules
    else rules) = rules.map (statusSet msg) := by
  split
  · rename_i hmode
    rw [TimedRuleSet.setStatus_eq hapart]
    apply List.map_congr_left
    intro rule _
    rw [statusSet]
    exact ite_congr (propext ⟨fun h => ⟨hmode, h⟩, And.right⟩) (fun _ => rfl) fun _ => rfl
  · rename_i hmode
    have hsame : ∀ rule ∈ rules, statusSet msg rule = rule :=
      fun rule _ => if_neg fun h => hmode h.1
    rw [List.map_congr_left hsame, List.map_id']

theorem map_timesSet (hapart : rules.Pairwise TimedRuleSet.Apart) (msg : MMessage) :
    (if msg.getString "from" ≠ "" ∧ msg.getString "to" ≠ "" then
      TimedRuleSet.setValidityTime (msg.getString "name") (msg.getString "from")
        (msg.getString "to") rules
    else rules) = rules.map (timesSet msg) := by
  split
  · rename_i htimes
    rw [TimedRuleSet.setValidityTime_eq hapart]
    apply List.map_congr_left
    intro rule _
    rw [timesSet]
    exact ite_congr (propext ⟨fun h => ⟨htimes, h⟩, And.right⟩) (fun _ => rfl) fun _ => rfl
  · rename_i htimes
    have hsame : ∀ rule ∈ rules, timesSet msg rule = rule :=
      fun rule _ => if_neg fun h => htimes h.1
    rw [List.map_congr_left hsame, List.map_id']

theorem setrulemode_eq (hapart : rules.Pairwise TimedRuleSet.Apart) (msg : MMessage) :
    setrulemode msg rules = rules.map fun rule => timesSet msg (statusSet msg rule) := by
  have hafter : (rules.map (statusSet msg)).Pairwise TimedRuleSet.Apart :=
    apart_map (fun rule => (takes_statusSet msg rule).name)
      (fun rule => (takes_statusSet msg rule).aliasName) hapart
  rw [setrulemode]
  rw [map_statusSet hapart, map_timesSet hafter, List.map_map]
  rfl

end Apart

/-- Where no name is one of two rules, each turn changes every rule for itself. -/
theorem rules_doWork (turn : Turn) {thread : TimedRuleThread}
    (hapart : thread.rules.Pairwise TimedRuleSet.Apart) :
    (thread.doWork turn.env turn.msg).1.rules = thread.rules.map (turned thread.given turn) := by
  rw [doWork]
  cases hbranch : branchOf turn.msg
  case timedruleupdate =>
    rw [TimedRuleSet.timeUpdate_eq]
    apply List.map_congr_left
    intro rule _
    rw [turned, hbranch]
  case settimedrules =>
    apply List.map_congr_left
    intro rule _
    rw [turned, hbranch]
  case resettimedrules =>
    apply List.map_congr_left
    intro rule _
    rw [turned, hbranch]
  case settrrulemode =>
    dsimp only
    rw [setrulemode_eq hapart]
    apply List.map_congr_left
    intro rule _
    rw [turned, hbranch]
  case settrvaliditytime =>
    dsimp only
    rw [TimedRuleSet.setValidityTime_eq hapart]
    apply List.map_congr_left
    intro rule _
    rw [turned, hbranch]
  case settractions =>
    dsimp only
    rw [TimedRuleSet.setActionList_eq hapart]
    apply List.map_congr_left
    intro rule _
    rw [turned, hbranch]
  all_goals
    have hsame : ∀ rule ∈ thread.rules, turned thread.given turn rule = rule := by
      intro rule _
      rw [turned, hbranch]
    rw [List.map_congr_left hsame, List.map_id']

/-! ## Whole runs -/

/-- A rule after a run, seen from the rule at its start. -/
structure Tracks (turns : List Turn) (rule rule' : TimedRule) : Prop where
  name : rule'.name = rule.name
  aliasName : rule'.aliasName = rule.aliasName
  comment : rule'.params.get "comment" = rule.params.get "comment"
  set_eq : rule'.params.get "set" = listAfter "set" turns rule
  reset_eq : rule'.params.get "reset" = listAfter "reset" turns rule
  status_eq : rule'.params.get "status" = statusAfter turns rule
  present : rule'.params.get "status" ≠ ""

theorem filterMap_concat {α β : Type} (word : α → Option β) (turns : List α) (turn : α) :
    (turns ++ [turn]).filterMap word = turns.filterMap word ++ (word turn).toList := by
  rw [List.filterMap_append]
  apply congrArg
  cases hword : word turn with
  | none => rw [List.filterMap_cons_none hword, List.filterMap_nil, Option.toList_none]
  | some value => rw [List.filterMap_cons_some hword, List.filterMap_nil, Option.toList_some]

theorem listAfter_concat (key : String) (turns : List Turn) (turn : Turn) (rule : TimedRule) :
    listAfter key (turns ++ [turn]) rule =
      (listWord key rule turn).getD (listAfter key turns rule) := by
  rw [listAfter, filterMap_concat, lastOf_append]
  rfl

theorem statusAfter_concat (turns : List Turn) (turn : Turn) (rule : TimedRule) :
    statusAfter (turns ++ [turn]) rule =
      (statusWord rule turn).getD (statusAfter turns rule) := by
  rw [statusAfter, filterMap_concat, lastOf_append]
  rfl

theorem statusWord_ne (rule : TimedRule) (turn : Turn) : statusWord rule turn ≠ some "" := by
  rw [statusWord]
  split
  · rw [fieldOf]
    split
    · exact (Option.some_ne_none _).symm
    · rename_i hfield
      exact fun h => hfield (Option.some.inj h)
  · decide
  · split
    · rename_i hword
      rintro h
      rw [Option.some.inj h] at hword
      exact absurd hword.2 (by decide)
    · exact (Option.some_ne_none _).symm
  · exact (Option.some_ne_none _).symm

theorem Tracks.turned {turns : List Turn} {rule rule' : TimedRule} (h : Tracks turns rule rule')
    (given : TimedRule.Given) (turn : Turn) :
    Tracks (turns ++ [turn]) rule (TimedRuleThread.turned given turn rule') := by
  have htakes := takes_turned given turn h.present
  have hlist : ∀ key, listWord key rule' turn = listWord key rule turn := by
    intro key
    rw [listWord, listWord, h.name]
  have hstatus : statusWord rule' turn = statusWord rule turn := by
    rw [statusWord, statusWord, h.name, TimedRuleSet.answers_congr h.name h.aliasName]
  rw [hlist, hlist, hstatus] at htakes
  have hafter := htakes.status_eq
  rw [h.status_eq] at hafter
  refine ⟨htakes.name.trans h.name, htakes.aliasName.trans h.aliasName,
    htakes.comment.trans h.comment, ?_, ?_, ?_, ?_⟩
  · rw [htakes.set_eq, h.set_eq, listAfter_concat]
  · rw [htakes.reset_eq, h.reset_eq, listAfter_concat]
  · rw [hafter, statusAfter_concat]
  · rw [hafter]
    cases hword : statusWord rule turn with
    | none =>
        rw [Option.getD_none, ← h.status_eq]
        exact h.present
    | some status =>
        rw [Option.getD_some]
        rintro rfl
        exact statusWord_ne rule turn hword

theorem tracks_refl {rule : TimedRule} (hpresent : rule.params.get "status" ≠ "") :
    Tracks [] rule rule := ⟨rfl, rfl, rfl, rfl, rfl, rfl, hpresent⟩

/-- The names of the rules of the start are told apart in every run. -/
theorem apart_of_tracks {turns : List Turn} {rules rules' : List TimedRule}
    (htracks : List.Forall₂ (Tracks turns) rules rules')
    (hapart : rules.Pairwise TimedRuleSet.Apart) : rules'.Pairwise TimedRuleSet.Apart := by
  apply Selection.pairwise_of_forall₂ _ htracks hapart
  intro rule rule' other other' h h' hnames name
  rw [TimedRuleSet.answers_congr h.name h.aliasName,
    TimedRuleSet.answers_congr h'.name h'.aliasName]
  exact hnames name

theorem tracks_run {thread : TimedRuleThread}
    (hapart : thread.rules.Pairwise TimedRuleSet.Apart)
    (hpresent : ∀ rule ∈ thread.rules, rule.params.get "status" ≠ "") (turns : List Turn) :
    List.Forall₂ (Tracks turns) thread.rules (thread.run turns).rules := by
  induction turns using List.reverseRecOn with
  | nil =>
      rw [run, List.foldl_nil]
      exact List.forall₂_same.mpr fun rule hrule => tracks_refl (hpresent rule hrule)
  | append_singleton turns turn ih =>
      have hnext : (thread.run (turns ++ [turn])).rules =
          (thread.run turns).rules.map (TimedRuleThread.turned (thread.run turns).given turn) := by
        rw [run, List.foldl_append, List.foldl_cons, List.foldl_nil]
        exact rules_doWork turn (apart_of_tracks ih hapart)
      rw [hnext, List.forall₂_map_right_iff]
      exact ih.imp fun rule rule' h => h.turned _ turn

/-- What a rule may ask for in the turn after a run: nothing, or, at an update, the actions of the
list that it was given last; those that switch on only when its last status is `ON`. -/
def Asks (turns : List Turn) (turn : Turn) (rule : TimedRule) (part : List MMessage) : Prop :=
  part = [] ∨ branchOf turn.msg = .timedruleupdate ∧
    (statusAfter turns rule = "ON" ∧
        part = asked (rule.params.get "comment") (listAfter "set" turns rule) ∨
      part = asked (rule.params.get "comment") (listAfter "reset" turns rule))

theorem Tracks.asks {turns : List Turn} {rule rule' : TimedRule} (h : Tracks turns rule rule')
    (given : TimedRule.Given) {turn : Turn} (hupdate : branchOf turn.msg = .timedruleupdate) :
    Asks turns turn rule
      ((rule'.timeUpdate turn.env given []).2.2.flatMap Batch.messages) := by
  have hon : (rule'.batch .on).messages =
      asked (rule.params.get "comment") (listAfter "set" turns rule) := by
    rw [TimedRule.batch, if_pos rfl, h.comment, h.set_eq]
    rfl
  have hoff : (rule'.batch .off).messages =
      asked (rule.params.get "comment") (listAfter "reset" turns rule) := by
    rw [TimedRule.batch, if_neg (by decide), h.comment, h.reset_eq]
    rfl
  rcases TimedRule.timeUpdate_cases turn.env given rule' with hnone | ⟨hstatus, hasked⟩ | hasked
  · rw [hnone]
    exact Or.inl rfl
  · rw [hasked, List.flatMap_singleton, hon]
    exact Or.inr ⟨hupdate, Or.inl ⟨h.status_eq.symm.trans hstatus, rfl⟩⟩
  · rw [hasked, List.flatMap_singleton, hoff]
    exact Or.inr ⟨hupdate, Or.inr rfl⟩

/-- Whatever the engine was told in a run, what it sends in the next turn consists of a part for
each rule in their order, and each rule asks for what it was told last. -/
theorem asks_of_run {thread : TimedRuleThread}
    (hapart : thread.rules.Pairwise TimedRuleSet.Apart)
    (hpresent : ∀ rule ∈ thread.rules, rule.params.get "status" ≠ "") (turns : List Turn)
    (turn : Turn) :
    ∃ parts, ((thread.run turns).doWork turn.env turn.msg).2 = parts.flatten ∧
      List.Forall₂ (Asks turns turn) thread.rules parts := by
  have htracks := tracks_run hapart hpresent turns
  by_cases hupdate : branchOf turn.msg = .timedruleupdate
  · refine ⟨(thread.run turns).rules.map fun rule =>
      (rule.timeUpdate turn.env (thread.run turns).given []).2.2.flatMap Batch.messages, ?_, ?_⟩
    · rw [doWork, hupdate]
      dsimp only
      rw [TimedRuleSet.timeUpdate_eq, List.nil_append, List.flatMap_assoc, List.flatMap_def]
    · rw [List.forall₂_map_right_iff]
      exact htracks.imp fun rule rule' h => h.asks _ hupdate
  · refine ⟨thread.rules.map fun _ => [], ?_, ?_⟩
    · have hsilent : ((thread.run turns).doWork turn.env turn.msg).2 = [] := by
        rw [doWork]
        cases hbranch : branchOf turn.msg
        case timedruleupdate => exact absurd hbranch hupdate
        all_goals rfl
      have hflat : (thread.rules.map fun _ => ([] : List MMessage)).flatten = [] := by
        apply List.flatten_eq_nil_iff.mpr
        intro part hpart
        obtain ⟨rule, -, hempty⟩ := List.mem_map.mp hpart
        exact hempty.symm
      rw [hsilent, hflat]
    · rw [List.forall₂_map_right_iff]
      exact List.forall₂_same.mpr fun rule _ => Or.inl rfl

/-- The lamp of the day and a fan for the night. -/
def home : TimedRuleThread where
  engine := ⟨MMessage.mk2 "*" "*", [], false⟩
  rules := [TimedRule.new RuleSet.noon ⟨0, 0⟩ TimedRun.lamp "lamp",
    TimedRule.new RuleSet.noon ⟨0, 0⟩
      (((TimedRun.lamp.set "set" "fan_on").set "reset" "fan_off").set "from" "20:00:00") "fan"]
  condition := none

def update : Turn := ⟨RuleSet.noon, MMessage.mk2 "trigger" "timedruleupdate"⟩

/-- The fan is switched off, and the lamp is to dim the hall too. -/
def homeTurns : List Turn :=
  [⟨RuleSet.noon, ((MMessage.mk2 "cmd" "settrrulemode").add "name" "fan").add "status" "OFF"⟩,
    ⟨RuleSet.noon, ((MMessage.mk2 "cmd" "settractions").add "rule" "lamp").add "set"
      "lamp_on+hall_dim"⟩]

theorem asks_of_run_home :
    ∃ parts, ((home.run homeTurns).doWork update.env update.msg).2 = parts.flatten ∧
      List.Forall₂ (Asks homeTurns update) home.rules parts ∧
      home.rules.map (listAfter "set" homeTurns) = ["lamp_on+hall_dim", "fan_on"] ∧
      home.rules.map (statusAfter homeTurns) = ["ON", "OFF"] := by
  have hapart : home.rules.Pairwise TimedRuleSet.Apart := by
    apply List.pairwise_pair.mpr
    rintro name ⟨h, h'⟩
    simp only [TimedRuleSet.answers, Bool.or_eq_true, decide_eq_true_eq] at h
    rcases h with rfl | rfl <;> exact absurd h' (by decide +kernel)
  obtain ⟨parts, hsent, hparts⟩ := asks_of_run hapart (by decide +kernel) homeTurns update
  exact ⟨parts, hsent, hparts, by decide +kernel, by decide +kernel⟩

example : ((home.run homeTurns).doWork update.env update.msg).2.map
    (fun message => message.getString "action") = ["lamp_on", "hall_dim"] := by
  decide +kernel

end TimedRuleThread

end Hat
