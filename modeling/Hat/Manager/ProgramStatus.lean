import Hat.Manager.ProgramEngine
import Hat.Manager.RuleEngine

/-!
# What the rule engines make of a program that is off

The program engine treats three spellings of its program as off; the two rule
engines compare the status in the message with one of them.  This module determines
the runs in which all three agree.
-/

namespace Hat

open Hat.Hsrv

/-- The part of the engine of the timed rules that a program message changes. -/
structure TimedRuleEngine where
  program : MMessage
  active : List String
  alarmOn : Bool
  deriving DecidableEq

/-- The branch of its loop for a program message. -/
def TimedRuleEngine.prgstatus (msg : MMessage) (_ : TimedRuleEngine) : TimedRuleEngine where
  program := msg
  active := msg.getList "active"
  alarmOn := msg.getString "status" ≠ "OFF" && 0 < (msg.getList "active").length

theorem RuleEngine.alarmOn_of_prgstatus {msg : MMessage} (hbranch : branchOf msg = .prgstatus)
    (env : Env) (engine : RuleEngine) :
    (engine.doWork env msg).1.alarmOn = decide (msg.getString "status" ≠ "OFF") := by
  simp only [doWork, hbranch, prgstatus]

namespace ProgramEngine

/-- After a program message the rule engines take the alarm for off if the program
engine does, and otherwise the alarm of the rules is on. -/
def AlarmAgrees (current : String) (message : MMessage) : Prop :=
  (isOffName current → ∀ (env : Env) (rules : RuleEngine) (timed : TimedRuleEngine),
    (rules.doWork env message).1.alarmOn = false ∧ (timed.prgstatus message).alarmOn = false) ∧
  (¬isOffName current → ∀ (env : Env) (rules : RuleEngine),
    (rules.doWork env message).1.alarmOn = true)

/-- A spelling of off that is not the one in capitals. -/
def SpelledOff (current : String) : Prop := current = "off" ∨ current = "Off"

theorem isOffName_iff (current : String) :
    isOffName current ↔ current = "OFF" ∨ SpelledOff current := by
  simp only [isOffName, SpelledOff, Bool.or_eq_true, decide_eq_true_eq, or_assoc]

theorem branchOf_prgstatus (env : Env) (change : Bool) (current : String)
    (active : List String) :
    RuleEngine.branchOf (prgstatus env change current active) = .prgstatus := by
  obtain ⟨htype, hsubtype⟩ := header_prgstatus env change current active
  rw [RuleEngine.branchOf, htype, hsubtype]
  decide

theorem alarmAgrees_prgstatus (env : Env) (change : Bool) (current : String)
    (active : List String) :
    AlarmAgrees current (prgstatus env change current active) ↔ ¬SpelledOff current := by
  have hrules : ∀ (now : Env) (rules : RuleEngine),
      (rules.doWork now (prgstatus env change current active)).1.alarmOn =
        decide (current ≠ "OFF") := by
    intro now rules
    rw [RuleEngine.alarmOn_of_prgstatus (branchOf_prgstatus env change current active),
      getString_status_prgstatus]
  have htimed : ∀ timed : TimedRuleEngine,
      (timed.prgstatus (prgstatus env change current active)).alarmOn =
        (decide (current ≠ "OFF") && decide (0 < active.length)) := by
    intro timed
    rw [TimedRuleEngine.prgstatus, getString_status_prgstatus, getList_active_prgstatus]
  simp only [AlarmAgrees, hrules, htimed]
  constructor
  · rintro ⟨hoff, _⟩ hspelled
    have hlit := (hoff ((isOffName_iff current).mpr (Or.inr hspelled)) env
      (RuleEngine.new env ⟨⟨"", [], none, none⟩, ⟨"", [], none, none⟩, [], none, [], 0⟩)
      ⟨MMessage.mk2 "" "", [], false⟩).1
    rw [decide_eq_false_iff_not, not_not] at hlit
    rcases hspelled with hname | hname
    · exact absurd (hlit.symm.trans hname) (by decide)
    · exact absurd (hlit.symm.trans hname) (by decide)
  · intro hspelled
    refine ⟨fun hoff _ _ _ => ?_, fun hon _ _ => ?_⟩
    · have hname := ((isOffName_iff current).mp hoff).resolve_right hspelled
      simp [hname]
    · rw [decide_eq_true_iff]
      intro hname
      exact hon ((isOffName_iff current).mpr (Or.inl hname))

/-- Every message of the turn agrees with the program that the turn leaves. -/
def StatusAgrees (engine : ProgramEngine) (turn : Turn) : Prop :=
  ∀ message ∈ engine.notified turn, AlarmAgrees (engine.next turn).program.current message

/-- No command of the turn selects a program spelled `off` or `Off`. -/
def SelectsCapitals (engine : ProgramEngine) (turn : Turn) : Prop :=
  IsSetprogram turn.2 → ¬SpelledOff (engine.setprogram turn.2).2.program.current

theorem current_of_core {engine other : ProgramEngine} (h : engine.core = other.core) :
    engine.program.current = other.program.current := by
  rw [(Prod.mk.inj h).1]

/-- What a notification sends agrees with a program that is not spelled `off` or
`Off`; after a change of program it is sent if the program is so spelled. -/
theorem notifyAgrees (env : Env) (change : Bool) (engine : ProgramEngine) :
    (¬SpelledOff engine.program.current → ∀ message ∈ (engine.programNotify env change).2.2,
      AlarmAgrees engine.program.current message) ∧
    (SpelledOff engine.program.current → change = true →
      ∃ message ∈ (engine.programNotify env change).2.2,
        ¬AlarmAgrees engine.program.current message) := by
  constructor
  · intro hspelled message hmessage
    cases hactive : engine.refreshed env change with
    | none =>
        rw [programNotify_of_not_refreshed hactive] at hmessage
        exact absurd hmessage List.not_mem_nil
    | some active =>
        rw [(programNotify_of_refreshed hactive).1, List.mem_singleton] at hmessage
        rw [hmessage]
        exact (alarmAgrees_prgstatus env change _ active).mpr hspelled
  · intro hspelled hchange
    have hoff : isOffName engine.program.current = true :=
      (isOffName_iff _).mpr (Or.inr hspelled)
    have hactive : engine.refreshed env change = some [] := by
      simp only [refreshed, hchange, hoff, and_self, if_true]
    rw [(programNotify_of_refreshed hactive).1]
    refine ⟨_, List.mem_singleton_self _, ?_⟩
    rw [alarmAgrees_prgstatus]
    exact not_not.mpr hspelled

theorem notifyAgrees_iff (env : Env) (engine : ProgramEngine) :
    (∀ message ∈ (engine.programNotify env true).2.2,
      AlarmAgrees engine.program.current message) ↔ ¬SpelledOff engine.program.current := by
  obtain ⟨hgood, hbad⟩ := notifyAgrees env true engine
  refine ⟨fun hagrees hspelled => ?_, hgood⟩
  obtain ⟨message, hmessage, hnot⟩ := hbad hspelled rfl
  exact hnot (hagrees message hmessage)

theorem statusAgrees_iff_turn {engine : ProgramEngine}
    (hcurrent : ¬SpelledOff engine.program.current) (turn : Turn) :
    engine.StatusAgrees turn ↔ engine.SelectsCapitals turn := by
  by_cases hset : IsSetprogram turn.2
  · obtain ⟨hnotified, hcore⟩ := notified_of_setprogram hset engine
    have hname : (engine.next turn).program.current =
        (engine.setprogram turn.2).2.program.current := by
      rw [current_of_core hcore, program_programNotify]
    simp only [StatusAgrees, SelectsCapitals, hnotified, hname, hset, true_implies]
    exact notifyAgrees_iff turn.1 (engine.setprogram turn.2).2
  · have hselects : engine.SelectsCapitals turn := fun h => absurd h hset
    refine ⟨fun _ => hselects, fun _ => ?_⟩
    by_cases hupdate : IsPrgupdate turn.2
    · obtain ⟨hnotified, hcore⟩ := notified_of_prgupdate hupdate engine
      have hname : (engine.next turn).program.current = engine.program.current := by
        rw [current_of_core hcore, program_programNotify]
      rw [StatusAgrees, hnotified, hname]
      exact (notifyAgrees turn.1 false engine).1 hcurrent
    · rw [StatusAgrees, (notified_of_other hupdate hset engine).1]
      exact fun message hmessage => absurd hmessage List.not_mem_nil

theorem not_spelledOff_next {engine : ProgramEngine}
    (hcurrent : ¬SpelledOff engine.program.current) {turn : Turn}
    (hselects : engine.SelectsCapitals turn) :
    ¬SpelledOff (engine.next turn).program.current := by
  by_cases hset : IsSetprogram turn.2
  · rw [current_of_core (notified_of_setprogram hset engine).2, program_programNotify]
    exact hselects hset
  · by_cases hupdate : IsPrgupdate turn.2
    · rw [current_of_core (notified_of_prgupdate hupdate engine).2, program_programNotify]
      exact hcurrent
    · rw [current_of_core (notified_of_other hupdate hset engine).2]
      exact hcurrent

/-- From the start of the engine on, every program message agrees with the program in
force exactly when no program spelled `off` or `Off` is in force at the start or
selected later. -/
theorem statusAgrees_iff (startprg : String) (home : HomeDir) (env : Env) (turns : List Turn) :
    ((∀ message ∈ ((new startprg home).start env).2.notified,
        AlarmAgrees (new startprg home).program.current message) ∧
      Machine.Along (Machine.total next) StatusAgrees ((new startprg home).start env).1 turns) ↔
    (¬SpelledOff (new startprg home).program.current ∧
      Machine.Along (Machine.total next) SelectsCapitals ((new startprg home).start env).1
        turns) := by
  generalize new startprg home = engine
  obtain ⟨hnotified, hcore⟩ := start_eq env engine
  have hstart : (∀ message ∈ (engine.start env).2.notified,
      AlarmAgrees engine.program.current message) ↔ ¬SpelledOff engine.program.current := by
    rw [hnotified]
    exact notifyAgrees_iff env engine
  rw [hstart]
  apply and_congr_right
  intro hcurrent
  apply Machine.along_iff_of_guarded (I := fun reached : ProgramEngine =>
    ¬SpelledOff reached.program.current)
  · intro reached turn hreached
    exact statusAgrees_iff_turn hreached turn
  · intro reached turn following hreached hselects hnext
    rw [← Option.some.inj hnext]
    exact not_spelledOff_next hreached hselects
  · rw [current_of_core hcore, program_programNotify]
    exact hcurrent

/-- A home directory with a program of the user's own whose name is `off`. -/
def homeWithOff : HomeDir where
  programs := [("off", Program.installedFile [])]
  currentp := some "off\n"
  swappedout := none
  previousp := none

/-- Half a day before noon. -/
def midnight : Env where
  gettime := 8640000
  gettime_nonneg := by decide +kernel
  localtime := { RuleSet.noon.localtime with hour := 0, hour_lt := Nat.zero_lt_succ 23 }
  unsetInt := 0
  unsetDouble := 0

/-- The rule engine takes the alarm for on although the program is off. -/
theorem not_statusAgrees_off :
    ¬((∀ message ∈ ((new "" homeWithOff).start midnight).2.notified,
        AlarmAgrees (new "" homeWithOff).program.current message) ∧
      Machine.Along (Machine.total next) StatusAgrees
        ((new "" homeWithOff).start midnight).1 []) := by
  rintro ⟨hagrees, _⟩
  have hoff : isOffName (new "" homeWithOff).program.current = true := by decide +kernel
  have hsent : ((new "" homeWithOff).start midnight).2.notified.any (fun message =>
      ((RuleEngine.new midnight ⟨⟨"", [], none, none⟩, ⟨"", [], none, none⟩, [], none, [],
        0⟩).doWork midnight message).1.alarmOn) = true := by
    decide +kernel
  obtain ⟨message, hmessage, halarm⟩ := List.any_eq_true.mp hsent
  have hfalse := ((hagrees message hmessage).1 hoff midnight
    (RuleEngine.new midnight ⟨⟨"", [], none, none⟩, ⟨"", [], none, none⟩, [], none, [], 0⟩)
    ⟨MMessage.mk2 "" "", [], false⟩).1
  exact absurd (halarm.symm.trans hfalse) (by decide)

end ProgramEngine

end Hat
