import Hat.Manager.Rule
import Mathlib.Order.WithBot

/-!
# Rule sets

The rules of the manager in file order.  One evaluation of the set hands the same
answer list to every rule in turn.
-/

namespace Hat

open Hat.Hsrv

structure RuleSet where
  rules : List Rule
  waitUntil : ℚ
  /-- The top element stands for infinity. -/
  wforbid : WithTop ℚ
  deriving DecidableEq

/-- What a rule is made from: its file, with the stem and the attributes, and what the fields
that the constructor leaves unset happen to hold. -/
structure RuleFile where
  stem : String
  params : MParams
  memory : RuleMemory

namespace RuleSet

/-- `wforbid` is left unset by the constructor. -/
def new (env : Env) (unsetWforbid : WithTop ℚ) (files : List RuleFile) : RuleSet where
  rules := files.map fun file =>
    (Rule.new env file.memory file.params file.stem).load.init env
  waitUntil := env.gettime
  wforbid := unsetWforbid

/-- The number of rules that fire, the rules afterwards and the answer. -/
def matchFrom (env : Env) (given : Rule.Circumstances) :
    List Rule → List MMessage → ℕ × List Rule × List MMessage
  | [], answer => (0, [], answer)
  | rule :: rest, answer =>
      let matched := rule.matchRule env given answer
      let tail := matchFrom env given rest matched.2.2
      ((if matched.1 then 1 else 0) + tail.1, matched.2.1 :: tail.2.1, tail.2.2)

/-- `RuleSet::match`. -/
def matchRules (env : Env) (given : Rule.Circumstances) (set : RuleSet)
    (action : List MMessage) : ℕ × RuleSet × List MMessage :=
  let matched := matchFrom env given set.rules action
  (matched.1, { set with rules := matched.2.1 }, matched.2.2)

def setWait (env : Env) (wt : String) (set : RuleSet) : RuleSet :=
  let until_ := a2double env wt + env.gettime
  { set with waitUntil := until_, wforbid := until_ }

/-- The wait is refused while an earlier one forbids it. -/
def setWaitForbidden (env : Env) (wt wf : String) (set : RuleSet) : RuleSet :=
  if env.gettime < set.wforbid then set
  else
    let until_ := a2double env wt + env.gettime
    { set with
      waitUntil := until_
      wforbid := if wf ≠ "" ∧ wf ≠ "-1" then (until_ + a2double env wf : ℚ) else ⊤ }

/-- Change the first rule whose name or alias is `name`. -/
def modifyNamed (name : String) (change : Rule → Rule) : List Rule → List Rule
  | [] => []
  | rule :: rest =>
      if rule.name = name ∨ rule.aliasName = name then change rule :: rest
      else rule :: modifyNamed name change rest

def setStatus (name rstatus : String) (set : RuleSet) : RuleSet :=
  { set with rules := modifyNamed name (Rule.setStatus rstatus) set.rules }

def setValidityTime (name asfrom asto : String) (set : RuleSet) : RuleSet :=
  { set with
    rules := modifyNamed name (fun rule => (rule.setValidityTime asfrom asto).2) set.rules }

def timeUpdate (env : Env) (set : RuleSet) : Bool × RuleSet :=
  (true, { set with rules := set.rules.map (Rule.cycleUpdate env) })

/-- The rules that fire in one evaluation. -/
def firing (env : Env) (given : Rule.Circumstances) (rules : List Rule) : List Rule :=
  rules.filter fun rule => rule.fires env given

end RuleSet

namespace Rule

theorem matchRule_of_not_fires {env : Env} {given : Circumstances} {rule : Rule}
    (hfires : rule.fires env given = false) (answer : List MMessage) :
    (rule.matchRule env given answer).1 = false ∧
      (rule.matchRule env given answer).2.2 = answer := by
  simp only [fires] at hfires
  simp only [matchRule]
  cases hgates : rule.gates env given with
  | error _ => exact ⟨rfl, rfl⟩
  | ok _ => simp [hgates, Except.isOk, Except.toBool] at hfires

theorem matchRule_of_fires {env : Env} {given : Circumstances} {rule : Rule}
    (hfires : rule.fires env given = true) (answer : List MMessage) :
    (rule.matchRule env given answer).1 = true ∧
      (rule.matchRule env given answer).2.2 = rule.pushAnswer given answer := by
  simp only [fires] at hfires
  simp only [matchRule]
  cases hgates : rule.gates env given with
  | error _ => simp [hgates, Except.isOk, Except.toBool] at hfires
  | ok _ => exact ⟨rfl, rfl⟩

/-- What a rule has to contribute when it fires: one alarm, then one command for
each enabled action. -/
def ownMessages (given : Circumstances) (rule : Rule) : List MMessage :=
  let alarm := rule.params.get "alarm"
  let found := rule.evidence given.counters
  fillAlarm alarm found (MMessage.mk2 "alarm" alarm) ::
    (rule.enabledActions given.active).map fun action =>
      fillCommand found action (MMessage.mk2 "rlcmd" "todo")

/-- Filling starts at the right place as long as `index` is the end of the answer. -/
theorem pushCommands_length (found : Evidence) (actions : List String) (answer : List MMessage) :
    pushCommands found actions answer.length answer =
      answer ++ actions.map fun action =>
        fillCommand found action (MMessage.mk2 "rlcmd" "todo") := by
  induction actions generalizing answer with
  | nil => rw [pushCommands, List.map_nil, List.append_nil]
  | cons action rest ih =>
      have hfilled : (answer ++ [MMessage.mk2 "rlcmd" "todo"]).modify answer.length
          (fillCommand found action) =
            answer ++ [fillCommand found action (MMessage.mk2 "rlcmd" "todo")] := by
        rw [List.modify_eq_take_cons_drop (by simp)]
        simp
      have hindex : answer.length + 1 =
          (answer ++ [fillCommand found action (MMessage.mk2 "rlcmd" "todo")]).length := by
        simp
      rw [pushCommands, hfilled, hindex, ih, List.map_cons, List.append_assoc]
      rfl

theorem pushAnswer_nil (given : Circumstances) (rule : Rule) :
    rule.pushAnswer given [] = rule.ownMessages given := by
  have hindex : 1 = [fillAlarm (rule.params.get "alarm") (rule.evidence given.counters)
      (MMessage.mk2 "alarm" (rule.params.get "alarm"))].length := rfl
  simp only [pushAnswer, List.nil_append, List.modify_zero_cons]
  rw [hindex, pushCommands_length]
  rfl

/-- The message at position `index` has no alarm field. -/
def LacksAlarm (index : ℕ) (answer : List MMessage) : Prop :=
  ∃ message, answer[index]? = some message ∧ message.fields.find? "alarm" = none

theorem find?_alarm_fillCommand (found : Evidence) (action : String) (message : MMessage) :
    (fillCommand found action message).fields.find? "alarm" = message.fields.find? "alarm" := by
  rw [fillCommand, MMessage.find?_add_of_ne _ _ (by decide),
    MMessage.find?_add_of_ne _ _ (by decide), MMessage.find?_add_of_ne _ _ (by decide),
    MMessage.find?_add_of_ne _ _ (by decide)]

theorem find?_alarm_fillAlarm (alarm : String) (found : Evidence) (message : MMessage) :
    (fillAlarm alarm found message).fields.find? "alarm" =
      some (MMessage.added alarm (message.fields.find? "alarm")) := by
  rw [fillAlarm, MMessage.find?_add_of_ne _ _ (by decide)]
  have hsource : ((message.add "alarm" alarm).add "source" found.source).fields.find? "alarm" =
      some (MMessage.added alarm (message.fields.find? "alarm")) := by
    rw [MMessage.find?_add_of_ne _ _ (by decide), MMessage.find?_add, if_pos rfl]
  split
  · exact hsource
  · rw [MMessage.find?_add_of_ne _ _ (by decide), hsource]

theorem LacksAlarm.append {index : ℕ} {answer : List MMessage} (h : LacksAlarm index answer)
    (more : List MMessage) : LacksAlarm index (answer ++ more) := by
  obtain ⟨message, hmessage, hfield⟩ := h
  refine ⟨message, ?_, hfield⟩
  rw [List.getElem?_append_left (List.getElem?_eq_some_iff.mp hmessage).1, hmessage]

/-- Neither kind of filling at a position gives another message an alarm field. -/
theorem LacksAlarm.modify {index position : ℕ} {answer : List MMessage}
    (h : LacksAlarm index answer) (fill : MMessage → MMessage)
    (hfill : position = index →
      ∀ message, (fill message).fields.find? "alarm" = message.fields.find? "alarm") :
    LacksAlarm index (answer.modify position fill) := by
  obtain ⟨message, hmessage, hfield⟩ := h
  by_cases hposition : position = index
  · refine ⟨fill message, ?_, (hfill hposition message).trans hfield⟩
    rw [hposition, List.getElem?_modify_eq, hmessage]
    rfl
  · exact ⟨message, by rw [List.getElem?_modify_ne fill answer hposition, hmessage], hfield⟩

theorem LacksAlarm.pushCommands {index : ℕ} {answer : List MMessage}
    (h : LacksAlarm index answer) (found : Evidence) (actions : List String) (position : ℕ) :
    LacksAlarm index (pushCommands found actions position answer) := by
  induction actions generalizing position answer with
  | nil => exact h
  | cons action rest ih =>
      apply ih
      exact (h.append _).modify _ fun _ message => find?_alarm_fillCommand found action message

theorem LacksAlarm.pushAnswer {index : ℕ} {answer : List MMessage} (h : LacksAlarm index answer)
    (hindex : 0 < index) (given : Circumstances) (rule : Rule) :
    LacksAlarm index (rule.pushAnswer given answer) := by
  apply LacksAlarm.pushCommands
  exact (h.append _).modify _ fun hzero => absurd hzero hindex.ne

/-- Pushed behind other messages, the alarm message itself stays unfilled. -/
theorem lacksAlarm_pushAnswer (given : Circumstances) (rule : Rule) {answer : List MMessage}
    (hanswer : answer ≠ []) : LacksAlarm answer.length (rule.pushAnswer given answer) := by
  apply LacksAlarm.pushCommands
  have hpushed : LacksAlarm answer.length
      (answer ++ [MMessage.mk2 "alarm" (rule.params.get "alarm")]) :=
    ⟨_, List.getElem?_concat_length, rfl⟩
  exact hpushed.modify _ fun hzero => absurd hzero (List.length_pos_iff.mpr hanswer).ne

/-- The rule adds messages to an answer. -/
def Emits (env : Env) (given : Circumstances) (rule : Rule) : Prop :=
  ∃ answer, (rule.matchRule env given answer).2.2 ≠ answer

theorem pushAnswer_ne (given : Circumstances) (rule : Rule) (answer : List MMessage) :
    rule.pushAnswer given answer ≠ answer := by
  intro heq
  by_cases hanswer : answer = []
  · rw [hanswer, pushAnswer_nil] at heq
    exact List.cons_ne_nil _ _ heq
  · obtain ⟨message, hmessage, _⟩ := lacksAlarm_pushAnswer given rule hanswer
    rw [heq, List.getElem?_eq_none le_rfl] at hmessage
    exact Option.some_ne_none message hmessage.symm

theorem emits_iff_due (env : Env) (given : Circumstances) (rule : Rule) :
    rule.Emits env given ↔ rule.Due env given := by
  rw [← decide_eq_true_iff (p := rule.Due env given), ← fires_eq_decide_due]
  constructor
  · rintro ⟨answer, hanswer⟩
    by_contra hfires
    exact hanswer (matchRule_of_not_fires (Bool.eq_false_iff.mpr hfires) answer).2
  · intro hfires
    refine ⟨[], ?_⟩
    rw [(matchRule_of_fires hfires []).2]
    exact pushAnswer_ne given rule []

end Rule

namespace RuleSet

open Rule

/-- The answer as the rule at position `index` finds it. -/
def answerBefore (env : Env) (given : Circumstances) (set : RuleSet) (action : List MMessage)
    (index : ℕ) : List MMessage :=
  (matchFrom env given (set.rules.take index) action).2.2

/-- The answer is the initial list followed by the own messages of the rules that
fire, in rule order, and no rule changes a message that it finds. -/
structure AppendsOwnMessages (env : Env) (given : Circumstances) (set : RuleSet)
    (action : List MMessage) : Prop where
  answer : (set.matchRules env given action).2.2 =
    action ++ (firing env given set.rules).flatMap (ownMessages given)
  untouched : ∀ index < set.rules.length,
    set.answerBefore env given action index <+: set.answerBefore env given action (index + 1)

theorem matchFrom_append (env : Env) (given : Circumstances) (first second : List Rule)
    (answer : List MMessage) :
    (matchFrom env given (first ++ second) answer).2.2 =
      (matchFrom env given second (matchFrom env given first answer).2.2).2.2 := by
  induction first generalizing answer with
  | nil => rfl
  | cons rule rest ih => exact ih _

theorem lacksAlarm_matchFrom (env : Env) {given : Circumstances} {index : ℕ}
    {answer : List MMessage} (h : LacksAlarm index answer) (hindex : 0 < index)
    (rules : List Rule) : LacksAlarm index (matchFrom env given rules answer).2.2 := by
  induction rules generalizing answer with
  | nil => exact h
  | cons rule rest ih =>
      simp only [RuleSet.matchFrom]
      apply ih
      cases hfires : rule.fires env given with
      | false => rw [(matchRule_of_not_fires hfires answer).2]; exact h
      | true =>
          rw [(matchRule_of_fires hfires answer).2]
          exact h.pushAnswer hindex given rule

theorem firing_cons_of_fires {env : Env} {given : Circumstances} {rule : Rule}
    (hfires : rule.fires env given = true) (rest : List Rule) :
    firing env given (rule :: rest) = rule :: firing env given rest :=
  List.filter_cons_of_pos hfires

theorem firing_cons_of_not_fires {env : Env} {given : Circumstances} {rule : Rule}
    (hfires : rule.fires env given = false) (rest : List Rule) :
    firing env given (rule :: rest) = firing env given rest :=
  List.filter_cons_of_neg (by simp [hfires])

theorem matchFrom_of_firing_nil {env : Env} {given : Circumstances} {rules : List Rule}
    (hnone : firing env given rules = []) (answer : List MMessage) :
    (matchFrom env given rules answer).2.2 = answer := by
  induction rules generalizing answer with
  | nil => rfl
  | cons rule rest ih =>
      simp only [firing, List.filter_eq_nil_iff, List.mem_cons, forall_eq_or_imp] at hnone
      have hfires : rule.fires env given = false := by simpa using hnone.1
      simp only [RuleSet.matchFrom]
      rw [(matchRule_of_not_fires hfires answer).2]
      exact ih (by simpa [firing] using hnone.2) answer

section Look

variable {β : Type*} (look : Rule → β)

theorem map_matchFrom {env : Env} {given : Circumstances}
    (hmatch : ∀ rule answer, look (rule.matchRule env given answer).2.1 = look rule)
    (rules : List Rule) (answer : List MMessage) :
    (matchFrom env given rules answer).2.1.map look = rules.map look := by
  induction rules generalizing answer with
  | nil => rfl
  | cons rule rest ih =>
      simp only [RuleSet.matchFrom, List.map_cons]
      rw [hmatch, ih]

theorem map_modifyNamed {change : Rule → Rule} (hkeep : ∀ rule, look (change rule) = look rule)
    (name : String) (rules : List Rule) :
    (modifyNamed name change rules).map look = rules.map look := by
  induction rules with
  | nil => rfl
  | cons rule rest ih =>
      simp only [modifyNamed]
      split
      · rw [List.map_cons, List.map_cons, hkeep]
      · rw [List.map_cons, List.map_cons, ih]

end Look

/-! ## Which evaluations append own messages -/

/-- As soon as a rule fires on an answer that is not empty, its alarm is lost. -/
theorem matchFrom_ne_of_firing {env : Env} {given : Circumstances} {rules : List Rule}
    {answer : List MMessage} (hanswer : answer ≠ []) (hsome : firing env given rules ≠ []) :
    (matchFrom env given rules answer).2.2 ≠
      answer ++ (firing env given rules).flatMap (ownMessages given) := by
  induction rules with
  | nil => exact absurd rfl hsome
  | cons rule rest ih =>
      simp only [RuleSet.matchFrom]
      cases hfires : rule.fires env given with
      | false =>
          rw [(matchRule_of_not_fires hfires answer).2]
          rw [firing_cons_of_not_fires hfires] at hsome ⊢
          exact ih hsome
      | true =>
          rw [(matchRule_of_fires hfires answer).2]
          obtain ⟨message, hmessage, hfield⟩ := lacksAlarm_matchFrom env
            (lacksAlarm_pushAnswer given rule hanswer) (List.length_pos_iff.mpr hanswer) rest
          intro heq
          rw [heq] at hmessage
          simp only [firing_cons_of_fires hfires, List.flatMap_cons, ownMessages,
            List.cons_append] at hmessage
          rw [List.getElem?_append_right le_rfl, Nat.sub_self, List.getElem?_cons_zero,
            Option.some.injEq] at hmessage
          rw [← hmessage, find?_alarm_fillAlarm] at hfield
          exact Option.some_ne_none _ hfield

theorem matchFrom_eq_iff (env : Env) (given : Circumstances) (rules : List Rule)
    (answer : List MMessage) :
    (matchFrom env given rules answer).2.2 =
        answer ++ (firing env given rules).flatMap (ownMessages given) ↔
      firing env given rules = [] ∨ (answer = [] ∧ (firing env given rules).length = 1) := by
  by_cases hnone : firing env given rules = []
  · simp [matchFrom_of_firing_nil hnone, hnone]
  by_cases hanswer : answer = []
  · subst hanswer
    induction rules with
    | nil => exact absurd rfl hnone
    | cons rule rest ih =>
        simp only [RuleSet.matchFrom]
        cases hfires : rule.fires env given with
        | false =>
            rw [(matchRule_of_not_fires hfires []).2]
            rw [firing_cons_of_not_fires hfires] at hnone ⊢
            simpa using ih hnone
        | true =>
            rw [(matchRule_of_fires hfires []).2, pushAnswer_nil]
            rw [firing_cons_of_fires hfires, List.nil_append, List.flatMap_cons]
            by_cases hrest : firing env given rest = []
            · simp [matchFrom_of_firing_nil hrest, hrest]
            · have hown : ownMessages given rule ≠ [] := List.cons_ne_nil _ _
              have hlost := matchFrom_ne_of_firing hown hrest
              simp [hlost, hrest]
  · simp [matchFrom_ne_of_firing hanswer hnone, hnone, hanswer]

theorem answerBefore_succ (env : Env) (given : Circumstances) (set : RuleSet)
    (action : List MMessage) {index : ℕ} (hindex : index < set.rules.length) :
    set.answerBefore env given action (index + 1) =
      (matchFrom env given [set.rules[index]]
        (set.answerBefore env given action index)).2.2 := by
  rw [answerBefore, List.take_succ_eq_append_getElem hindex, matchFrom_append]
  rfl

theorem countP_due (env : Env) (given : Circumstances) (rules : List Rule) :
    rules.countP (fun rule => rule.Due env given) = (firing env given rules).length := by
  rw [List.countP_eq_length_filter, firing]
  simp only [fires_eq_decide_due]

/-- Evaluating a rule set appends the own messages of its firing rules exactly when
no rule is due, or when just one is and the list was empty. -/
theorem appendsOwnMessages_iff (env : Env) (given : Circumstances) (set : RuleSet)
    (action : List MMessage) :
    set.AppendsOwnMessages env given action ↔
      set.rules.countP (fun rule => rule.Due env given) = 0 ∨
        (action = [] ∧ set.rules.countP (fun rule => rule.Due env given) = 1) := by
  rw [countP_due, List.length_eq_zero_iff]
  constructor
  · intro happends
    exact (matchFrom_eq_iff env given set.rules action).mp happends.answer
  intro hfew
  refine ⟨(matchFrom_eq_iff env given set.rules action).mpr hfew, fun index hindex => ?_⟩
  rw [answerBefore_succ env given set action hindex]
  have hsplit : firing env given set.rules =
      firing env given (set.rules.take index) ++ firing env given (set.rules.drop index) := by
    rw [firing, firing, firing, ← List.filter_append, List.take_append_drop]
  cases hfires : (set.rules[index]).fires env given with
  | false =>
      have hnone : firing env given [set.rules[index]] = [] := firing_cons_of_not_fires hfires []
      have hsame := matchFrom_of_firing_nil hnone (set.answerBefore env given action index)
      exact ⟨[], (List.append_nil _).trans hsame.symm⟩
  | true =>
      have hdrop : firing env given (set.rules.drop index) ≠ [] := by
        rw [List.drop_eq_getElem_cons hindex, firing_cons_of_fires hfires]
        exact List.cons_ne_nil _ _
      obtain ⟨hempty, hone⟩ : action = [] ∧ (firing env given set.rules).length = 1 := by
        apply hfew.resolve_left
        intro hnone
        rw [hsplit, List.append_eq_nil_iff] at hnone
        exact hdrop hnone.2
      have htake : firing env given (set.rules.take index) = [] := by
        rw [hsplit, List.length_append] at hone
        have hpos := List.length_pos_iff.mpr hdrop
        exact List.length_eq_zero_iff.mp (by omega)
      have hbefore : set.answerBefore env given action index = [] := by
        rw [answerBefore, matchFrom_of_firing_nil htake, hempty]
      rw [hbefore]
      exact List.nil_prefix

/-- Noon of a Saturday, a hundred days into the epoch. -/
def noon : Env where
  gettime := 8683200
  gettime_nonneg := by decide +kernel
  localtime := ⟨0, 0, 12, 11, 4, 1970, 6, by decide, by decide, by decide⟩
  unsetInt := 0
  unsetDouble := 0

/-- A rule file with the attributes of a rule without antecedents. -/
def alarmFile (stem alarm action : String) : RuleFile where
  stem := stem
  params := ⟨"rule", [], some ("rule", [⟨"alarm", "generic", alarm⟩,
    ⟨"action", "generic", action⟩, ⟨"status", "generic", "ON"⟩]), none⟩
  memory := ⟨0, false, false, false, 0⟩

def twoAlarms : RuleSet := new noon 0 [alarmFile "garden" "GARDEN" "siren",
  alarmFile "door" "DOOR" "light"]

/-- Two rules fire in the same evaluation: the alarm of the second arrives empty. -/
theorem not_appendsOwnMessages_twoAlarms :
    ¬twoAlarms.AppendsOwnMessages noon ⟨[], false, [], none⟩ [] := by
  intro happends
  exact absurd happends.answer (by decide +kernel)

end RuleSet

end Hat
