import Hat.Core.ChangeLog
import Hat.Core.Machine
import Hat.Manager.RuleSet
import Hat.Manager.TimedRule

/-!
# The switch of a timed rule

Without a cycle, an update of a timed rule drives a switch to what status, window, program and
conditions allow, and each change of the switch is one batch.  The batches of a run are the
change log of the switch.
-/

namespace Hat

open Hat.Hsrv

namespace TimedRule

/-- A timed mode without a cycle. -/
structure Timed (rule : TimedRule) : Prop where
  mode : rule.behavior = "timed" ∨ rule.behavior = "program_timed"
  cycle : rule.cycle ≤ 0

/-- Status, window and conditions hold, and in the second mode the program too. -/
structure Holds (env : Env) (given : Given) (rule : TimedRule) : Prop where
  status : rule.params.get "status" = "ON"
  window : isInRange (string2second (getasciitimeday env)) rule.fromTime rule.toTime
  conditions : rule.checkCondition given.cnd
  program : rule.behavior = "program_timed" →
    rule.checkProgramName given.programName ∧ given.program ≠ 0

theorem holds_iff (env : Env) (given : Given) (rule : TimedRule) :
    rule.Holds env given ↔ rule.params.get "status" = "ON" ∧
      isInRange (string2second (getasciitimeday env)) rule.fromTime rule.toTime ∧
      rule.checkCondition given.cnd ∧
      (rule.behavior = "program_timed" →
        rule.checkProgramName given.programName ∧ given.program ≠ 0) :=
  ⟨fun h => ⟨h.status, h.window, h.conditions, h.program⟩,
    fun ⟨hstatus, hwindow, hconditions, hprogram⟩ => ⟨hstatus, hwindow, hconditions, hprogram⟩⟩

instance (env : Env) (given : Given) (rule : TimedRule) : Decidable (rule.Holds env given) :=
  decidable_of_iff _ (holds_iff env given rule).symm

def wanted (env : Env) (given : Given) (rule : TimedRule) : Status :=
  if rule.Holds env given then .on else .off

theorem wanted_of_not_on {rule : TimedRule} (hstatus : rule.params.get "status" ≠ "ON") (env : Env)
    (given : Given) : rule.wanted env given = .off :=
  if_neg fun h => hstatus h.status

theorem wanted_of_timed {rule : TimedRule} (hstatus : rule.params.get "status" = "ON")
    (hmode : rule.behavior = "timed") (env : Env) (given : Given) :
    rule.wanted env given =
      if isInRange (string2second (getasciitimeday env)) rule.fromTime rule.toTime &&
        rule.checkCondition given.cnd then .on else .off := by
  simp [wanted, holds_iff, hstatus, hmode]

theorem wanted_of_program_timed {rule : TimedRule} (hstatus : rule.params.get "status" = "ON")
    (hmode : rule.behavior = "program_timed") (env : Env) (given : Given) :
    rule.wanted env given =
      if rule.checkProgramName given.programName && given.program ≠ 0 &&
        isInRange (string2second (getasciitimeday env)) rule.fromTime rule.toTime &&
        rule.checkCondition given.cnd then .on else .off := by
  have hholds : rule.Holds env given ↔
      ((rule.checkProgramName given.programName && given.program ≠ 0 &&
        isInRange (string2second (getasciitimeday env)) rule.fromTime rule.toTime &&
        rule.checkCondition given.cnd) = true) := by
    rw [Bool.and_eq_true, Bool.and_eq_true, Bool.and_eq_true, decide_eq_true_iff]
    constructor
    · intro h
      obtain ⟨hname, hprogram⟩ := h.program hmode
      exact ⟨⟨⟨hname, hprogram⟩, h.window⟩, h.conditions⟩
    · rintro ⟨⟨⟨hname, hprogram⟩, hwindow⟩, hconditions⟩
      exact ⟨hstatus, hwindow, hconditions, fun _ => ⟨hname, hprogram⟩⟩
  simp only [wanted, hholds]

/-- A change of the mode, with one batch for it. -/
def switch (mode : Status) (rule : TimedRule) (res : List Batch) : TimedRule × List Batch :=
  if mode = rule.active then (rule, res)
  else ({ rule with active := mode }, rule.makeAction mode res)

theorem follow_of_not_exec {rule : TimedRule} (hexec : rule.exec = false) (allowed : Bool)
    (res : List Batch) :
    rule.follow allowed res = rule.switch (if allowed then .on else .off) res := by
  rw [follow, switch]
  cases allowed <;> cases hactive : rule.active <;> simp [hexec]

theorem cycleUpdate_of_no_cycle (rule : TimedRule) (hcycle : rule.cycle ≤ 0) (env : Env) :
    rule.cycleUpdate env = { rule with reftime := toLong env.gettime } := by
  rw [cycleUpdate]
  dsimp only
  rw [if_neg fun h => not_lt_of_ge hcycle h.2, if_neg fun h => not_lt_of_ge hcycle h.2]

theorem refresh_of_no_cycle {rule : TimedRule} (hcycle : rule.cycle ≤ 0) (env : Env) :
    rule.refresh env = { rule with
      reftime := toLong env.gettime
      cTime := string2second (getasciitimeday env)
      exec := false
      status := statusOf rule.params } := by
  have hcycleUpdate := cycleUpdate_of_no_cycle { rule with
    reftime := string2second (getasciitimeday env)
    cTime := string2second (getasciitimeday env)
    exec := false } hcycle env
  rw [refresh, hcycleUpdate]

theorem act_of_off {rule : TimedRule} (hstatus : rule.status = .off) (given : Given)
    (res : List Batch) : (rule.act given res).2 = rule.switch .off res := by
  rw [act, switch, if_pos hstatus]
  cases hactive : rule.active <;> simp

theorem act_of_timed {rule : TimedRule} (hstatus : rule.status = .on)
    (hmode : rule.behavior = "timed") (hexec : rule.exec = false) (given : Given)
    (res : List Batch) :
    (rule.act given res).2 = rule.switch
      (if isInRange rule.cTime rule.fromTime rule.toTime && rule.checkCondition given.cnd
        then .on else .off) res := by
  rw [act, if_neg (by simp [hstatus]), if_pos hmode]
  exact follow_of_not_exec hexec _ res

theorem act_of_program_timed {rule : TimedRule} (hstatus : rule.status = .on)
    (hmode : rule.behavior = "program_timed") (hexec : rule.exec = false) (given : Given)
    (res : List Batch) :
    (rule.act given res).2 = rule.switch
      (if rule.checkProgramName given.programName && given.program ≠ 0 &&
        isInRange rule.cTime rule.fromTime rule.toTime && rule.checkCondition given.cnd
        then .on else .off) res := by
  have hother : rule.behavior ≠ "timed" := by
    rw [hmode]
    decide
  rw [act, if_neg (by simp [hstatus]), if_neg hother, if_pos hmode]
  exact follow_of_not_exec hexec _ res

/-- An update of a timed rule without a cycle drives its switch. -/
theorem timeUpdate_of_timed {rule : TimedRule} (hrule : rule.Timed) (env : Env) (given : Given)
    (res : List Batch) :
    (rule.timeUpdate env given res).2 = (rule.refresh env).switch (rule.wanted env given) res := by
  have hrefresh := refresh_of_no_cycle hrule.cycle env
  rw [timeUpdate, hrefresh]
  by_cases hstatus : rule.params.get "status" = "ON"
  · have hon : statusOf rule.params = .on := if_pos hstatus
    rcases hrule.mode with hmode | hmode
    · rw [wanted_of_timed hstatus hmode]
      refine act_of_timed ?_ ?_ ?_ given res
      · exact hon
      · exact hmode
      · rfl
    · rw [wanted_of_program_timed hstatus hmode]
      refine act_of_program_timed ?_ ?_ ?_ given res
      · exact hon
      · exact hmode
      · rfl
  · have hoff : statusOf rule.params = .off := if_neg hstatus
    rw [wanted_of_not_on hstatus]
    exact act_of_off hoff given res

theorem makeAction_refresh {rule : TimedRule} (hcycle : rule.cycle ≤ 0) (env : Env) (mode : Status)
    (res : List Batch) : (rule.refresh env).makeAction mode res = res ++ [rule.batch mode] := by
  rw [refresh_of_no_cycle hcycle]
  rfl

end TimedRule

/-! ## Runs -/

/-- What happens to a rule: updates, and the commands of the engine. -/
inductive TimedTurn
  | timeUpdate (env : Env) (given : TimedRule.Given)
  | setStatus (rstatus : String)
  | assignStatus (status : String)
  | setValidityTime (asfrom asto : String)
  | setActionList (setlist resetlist : String)

/-- A rule with all batches that it has emitted. -/
structure TimedRun where
  rule : TimedRule
  batches : List Batch

namespace TimedRun

def start (rule : TimedRule) : TimedRun := ⟨rule, []⟩

def next (run : TimedRun) : TimedTurn → TimedRun
  | .timeUpdate env given =>
      let after := run.rule.timeUpdate env given run.batches
      ⟨after.2.1, after.2.2⟩
  | .setStatus rstatus => { run with rule := run.rule.setStatus rstatus }
  | .assignStatus status => { run with rule := run.rule.assignStatus status }
  | .setValidityTime asfrom asto => { run with rule := (run.rule.setValidityTime asfrom asto).2 }
  | .setActionList setlist resetlist =>
      { run with rule := run.rule.setActionList setlist resetlist }

def modes (run : TimedRun) : List Status := run.batches.map Batch.mode

/-- Set batches and reset batches by turns, a set batch first; and the rule is active exactly
when the last batch was a set batch. -/
structure Alternates (run : TimedRun) : Prop where
  alternates : (Status.off :: run.modes).IsChain (· ≠ ·)
  active_iff : run.rule.active = .on ↔ run.modes.getLast? = some .on

/-- An update of an active rule whose test fails emits one reset batch and nothing else. -/
def ResetsOnce (run : TimedRun) (turn : TimedTurn) : Prop :=
  ∀ env given, turn = .timeUpdate env given → run.rule.active = .on →
    ¬run.rule.Holds env given →
      (run.next turn).batches = run.batches ++ [run.rule.batch .off]

/-- The position of the rule, with the modes of its batches. -/
def log (run : TimedRun) : ChangeLog Status := ⟨run.rule.active, run.modes⟩

section Steps

variable {run : TimedRun}

theorem next_timeUpdate (hrule : run.rule.Timed) (env : Env) (given : TimedRule.Given) :
    run.next (.timeUpdate env given) =
      if run.rule.wanted env given = run.rule.active then ⟨run.rule.refresh env, run.batches⟩
      else ⟨{ run.rule.refresh env with active := run.rule.wanted env given },
        run.batches ++ [run.rule.batch (run.rule.wanted env given)]⟩ := by
  have hactive : (run.rule.refresh env).active = run.rule.active := by
    rw [TimedRule.refresh_of_no_cycle hrule.cycle]
  rw [next, TimedRule.timeUpdate_of_timed hrule, TimedRule.switch, hactive]
  split
  · rfl
  · rw [TimedRule.makeAction_refresh hrule.cycle]

theorem log_timeUpdate (hrule : run.rule.Timed) (env : Env) (given : TimedRule.Given) :
    (run.next (.timeUpdate env given)).log = run.log.drive (run.rule.wanted env given) := by
  rw [next_timeUpdate hrule]
  by_cases hwanted : run.rule.wanted env given = run.rule.active
  · rw [if_pos hwanted, ChangeLog.drive_of_eq hwanted, log, log,
      TimedRule.refresh_of_no_cycle hrule.cycle]
    rfl
  · rw [if_neg hwanted, ChangeLog.drive_of_ne hwanted, log, modes, List.map_append]
    rfl

theorem setValidityTime_fields (rule : TimedRule) (asfrom asto : String) :
    ((rule.setValidityTime asfrom asto).2.active, (rule.setValidityTime asfrom asto).2.behavior,
      (rule.setValidityTime asfrom asto).2.cycle) = (rule.active, rule.behavior, rule.cycle) := by
  rw [TimedRule.setValidityTime]
  split <;> rfl

theorem timed_next (hrule : run.rule.Timed) (turn : TimedTurn) : (run.next turn).rule.Timed := by
  cases turn with
  | timeUpdate env given =>
      rw [next_timeUpdate hrule, TimedRule.refresh_of_no_cycle hrule.cycle]
      split <;> exact ⟨hrule.mode, hrule.cycle⟩
  | setStatus rstatus => exact ⟨hrule.mode, hrule.cycle⟩
  | assignStatus status => exact ⟨hrule.mode, hrule.cycle⟩
  | setValidityTime asfrom asto =>
      have hfields := setValidityTime_fields run.rule asfrom asto
      rw [Prod.mk.injEq, Prod.mk.injEq] at hfields
      obtain ⟨-, hbehavior, hcycle⟩ := hfields
      refine ⟨?_, ?_⟩
      · rw [next, hbehavior]
        exact hrule.mode
      · rw [next, hcycle]
        exact hrule.cycle
  | setActionList setlist resetlist => exact ⟨hrule.mode, hrule.cycle⟩

/-- The commands leave the switch and the batches alone. -/
theorem lawful_next (hrule : run.rule.Timed) (hlog : run.log.Lawful .off) (turn : TimedTurn) :
    (run.next turn).log.Lawful .off := by
  cases turn with
  | timeUpdate env given =>
      rw [log_timeUpdate hrule]
      exact hlog.drive _
  | setStatus rstatus => exact hlog
  | assignStatus status => exact hlog
  | setValidityTime asfrom asto =>
      have hfields := setValidityTime_fields run.rule asfrom asto
      have hactive := congrArg Prod.fst hfields
      have hsame : (run.next (.setValidityTime asfrom asto)).log = run.log := by
        rw [log, log, next, modes, modes]
        exact congrArg (ChangeLog.mk · _) hactive
      rwa [hsame]
  | setActionList setlist resetlist => exact hlog

theorem resetsOnce_of_timed (hrule : run.rule.Timed) (turn : TimedTurn) :
    run.ResetsOnce turn := by
  rintro env given rfl hactive hfails
  have hwanted : run.rule.wanted env given = .off := if_neg hfails
  rw [next_timeUpdate hrule, hwanted, hactive, if_neg (by decide)]

theorem alternates_of_lawful (hlog : run.log.Lawful .off) : run.Alternates :=
  ⟨hlog.alternates, hlog.now_eq_iff (by decide)⟩

end Steps

/-- The invariant of a run. -/
structure Switched (run : TimedRun) : Prop where
  timed : run.rule.Timed
  lawful : run.log.Lawful .off

theorem switched_start {rule : TimedRule} (hrule : rule.Timed) (hactive : rule.active = .off) :
    (start rule).Switched := by
  refine ⟨hrule, ?_⟩
  rw [log, start, hactive]
  exact ChangeLog.lawful_start Status.off

theorem switched_next (run : TimedRun) (turn : TimedTurn) (after : TimedRun) (h : run.Switched)
    (hafter : Machine.total next run turn = some after) : after.Switched := by
  cases hafter
  exact ⟨timed_next h.timed turn, lawful_next h.timed h.lawful turn⟩

theorem active_new (env : Env) (memory : TimedRuleMemory) (unloaded : MParams) (nm : String) :
    (TimedRule.new env memory unloaded nm).active = .off := by
  rw [TimedRule.new, TimedRule.setStoredValidityTime]
  exact congrArg Prod.fst (setValidityTime_fields _ _ _)

/-- Whatever happens to a timed rule without a cycle, its batches alternate in every state that
is reached, and every update that finds it active and not allowed resets it once. -/
theorem alternates_always (env : Env) (memory : TimedRuleMemory) (unloaded : MParams) (nm : String)
    (hrule : (TimedRule.new env memory unloaded nm).Timed) (turns : List TimedTurn) :
    Machine.Always (Machine.total next) Alternates (start (TimedRule.new env memory unloaded nm))
        turns ∧
      Machine.Along (Machine.total next) ResetsOnce
        (start (TimedRule.new env memory unloaded nm)) turns := by
  have hstart := switched_start hrule (active_new env memory unloaded nm)
  constructor
  · have hswitched := Machine.always_of_invariant switched_next turns hstart
    exact hswitched.mono fun run hrun => alternates_of_lawful hrun.lawful
  · exact Machine.along_of_invariant switched_next
      (fun run turn hrun => resetsOnce_of_timed hrun.timed turn) turns hstart

/-- A lamp for the day. -/
def lamp : MParams where
  ty := "rule"
  attributes := [⟨"mode", "generic", "timed"⟩, ⟨"status", "generic", "ON"⟩,
    ⟨"set", "generic", "lamp_on"⟩, ⟨"reset", "generic", "lamp_off"⟩,
    ⟨"from", "generic", "08:00:00"⟩, ⟨"to", "generic", "20:00:00"⟩]
  path := none
  pathh := none

def lampTurns : List TimedTurn :=
  [.timeUpdate RuleSet.noon ⟨"AUTO", 1, none⟩, .timeUpdate RuleSet.noon ⟨"AUTO", 0, none⟩,
    .setStatus "OFF", .timeUpdate RuleSet.noon ⟨"AUTO", 1, none⟩]

/-- The lamp is set at noon, and reset once it is switched off. -/
theorem alternates_lamp :
    Machine.Always (Machine.total next) Alternates
        (start (TimedRule.new RuleSet.noon ⟨0, 0⟩ lamp "lamp")) lampTurns ∧
      Machine.Along (Machine.total next) ResetsOnce
        (start (TimedRule.new RuleSet.noon ⟨0, 0⟩ lamp "lamp")) lampTurns := by
  have hrule : (TimedRule.new RuleSet.noon ⟨0, 0⟩ lamp "lamp").Timed :=
    ⟨by decide +kernel, by decide +kernel⟩
  exact alternates_always RuleSet.noon ⟨0, 0⟩ lamp "lamp" hrule lampTurns

example : (lampTurns.foldl next
    (start (TimedRule.new RuleSet.noon ⟨0, 0⟩ lamp "lamp"))).modes =
    [Status.on, Status.off] := by
  decide +kernel

end TimedRun

end Hat
