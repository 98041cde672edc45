import Hat.Manager.RuleEngine

/-!
# Validity windows over runs of the engine

A rule has a window of the day, which `isActive` tests and which two commands may
change at any time.  The evaluation of the rules never asks for it.
-/

namespace Hat

open Hat.Hsrv

namespace Rule

/-- The rule with the window that `isActive` finds: an unset one is read from the
attributes first. -/
def windowed (rule : Rule) : Rule :=
  if rule.toTime < 0 ∨ rule.fromTime < 0 then rule.setStoredValidityTime.2 else rule

/-- The second of the day lies in a window, which may wrap past midnight. -/
def WindowContains (fromTime toTime midnight second : ℤ) : Prop :=
  (fromTime < 0 ∨ toTime < 0) ∨ (fromTime = 0 ∧ toTime = midnight) ∨
    (fromTime < toTime ∧ fromTime ≤ second ∧ second ≤ toTime) ∨
    (toTime ≤ fromTime ∧ ((fromTime ≤ second ∧ second ≤ midnight) ∨ second ≤ toTime))

/-- The time of day lies in the window in force. -/
def Inside (env : Env) (rule : Rule) : Prop :=
  WindowContains rule.windowed.fromTime rule.windowed.toTime rule.windowed.midnight
    (daysecond env.localtime)

theorem isInWindow_iff (env : Env) (rule : Rule) :
    rule.isInWindow env ↔
      WindowContains rule.fromTime rule.toTime rule.midnight (daysecond env.localtime) := by
  have hnonneg := daysecond_nonneg env.localtime
  simp only [isInWindow, WindowContains, string2second_getasciitimeday]
  split
  · rename_i hunset
    simp [hunset]
  · rename_i hset
    split
    · rename_i hwhole
      simp [hwhole]
    · rename_i hpart
      split
      · rename_i hlt
        simp [hset, hpart, hlt, not_le.mpr hlt]
      · rename_i hwrap
        simp [hset, hpart, hwrap, not_lt.mp hwrap, hnonneg]

theorem isActive_iff (env : Env) (rule : Rule) : (rule.isActive env).1 ↔ rule.Inside env :=
  rule.windowed.isInWindow_iff env

theorem get_alarm_window (params : MParams) (asfrom asto : String) :
    ((params.add "from" asfrom).add "to" asto).save.get "alarm" = params.get "alarm" := by
  rw [MParams.get_save, MParams.get_add_of_ne _ _ (by decide),
    MParams.get_add_of_ne _ _ (by decide)]

/-- Setting a window changes the window and its attributes only. -/
theorem setValidityTime_eq (rule : Rule) (asfrom asto : String) :
    ∃ params fromTime toTime midnight, params.get "alarm" = rule.params.get "alarm" ∧
      (rule.setValidityTime asfrom asto).2 = { rule with
        params := params, fromTime := fromTime, toTime := toTime, midnight := midnight } := by
  simp only [setValidityTime]
  split
  · exact ⟨_, _, _, _, get_alarm_window rule.params asfrom asto, rfl⟩
  · exact ⟨_, _, _, _, rfl, rfl⟩

theorem setStoredValidityTime_eq (rule : Rule) :
    ∃ params fromTime toTime midnight, params.get "alarm" = rule.params.get "alarm" ∧
      rule.setStoredValidityTime.2 = { rule with
        params := params, fromTime := fromTime, toTime := toTime, midnight := midnight } :=
  rule.setValidityTime_eq _ _

/-- Whatever window is set, the rule is due as before. -/
theorem due_setValidityTime (env : Env) (given : Circumstances) (rule : Rule)
    (asfrom asto : String) :
    (rule.setValidityTime asfrom asto).2.Due env given ↔ rule.Due env given := by
  obtain ⟨params, fromTime, toTime, midnight, halarm, heq⟩ := rule.setValidityTime_eq asfrom asto
  rw [heq]
  have hactive : isRuleActive given.active { rule with
      params := params, fromTime := fromTime, toTime := toTime, midnight := midnight } =
      rule.isRuleActive given.active := by
    simp only [isRuleActive, halarm]
    rfl
  constructor
  · rintro ⟨⟨hstatus, hprogram, htrue, hfalse, hlatency⟩, htriggered⟩
    rw [ProgramOpen, hactive] at hprogram
    exact ⟨⟨hstatus, hprogram, htrue, hfalse, hlatency⟩, htriggered⟩
  · rintro ⟨⟨hstatus, hprogram, htrue, hfalse, hlatency⟩, htriggered⟩
    rw [ProgramOpen, ← hactive] at hprogram
    exact ⟨⟨hstatus, hprogram, htrue, hfalse, hlatency⟩, htriggered⟩

end Rule

namespace RuleEngine

/-- The rules that emit messages in this turn are inside their windows. -/
def WindowRespected (engine : RuleEngine) (turn : Turn) : Prop :=
  ∀ seen, engine.evaluated turn = some seen → ∀ rule ∈ seen.rule.rules,
    rule.Emits turn.1 seen.given → (rule.isActive turn.1).1 = true

/-- Every rule that this turn evaluates outside its window is kept closed by its
status, the program, an enabling condition or its latency, or is not asked for by
its counters or its cycle. -/
def OutsideClosed (engine : RuleEngine) (turn : Turn) : Prop :=
  ∀ seen, engine.evaluated turn = some seen → ∀ rule ∈ seen.rule.rules,
    ¬rule.Inside turn.1 →
      ¬rule.Enabled turn.1 seen.given ∨ ¬rule.Triggered turn.1 seen.given

theorem windowRespected_iff_turn (engine : RuleEngine) (turn : Turn) :
    engine.WindowRespected turn ↔ engine.OutsideClosed turn := by
  have hrule : ∀ (seen : RuleEngine) (rule : Rule),
      (rule.Emits turn.1 seen.given → (rule.isActive turn.1).1 = true) ↔
        (¬rule.Inside turn.1 →
          ¬rule.Enabled turn.1 seen.given ∨ ¬rule.Triggered turn.1 seen.given) := by
    intro seen rule
    rw [Rule.emits_iff_due, Rule.isActive_iff, ← not_and_or, ← not_imp_not]
    rfl
  simp only [WindowRespected, OutsideClosed, hrule]

/-- Along a run the windows are respected exactly when another test of every rule
outside its window happens to be closed at each evaluation. -/
theorem windowRespected_iff (engine : RuleEngine) (turns : List Turn) :
    Machine.Along (Machine.total next) WindowRespected engine turns ↔
      Machine.Along (Machine.total next) OutsideClosed engine turns := by
  apply Machine.along_iff_of_guarded (I := fun _ => True)
  · intro reached turn _
    exact windowRespected_iff_turn reached turn
  · intro _ _ _ _ _ _
    trivial
  · trivial

/-- A rule that is valid from ten in the evening to six in the morning. -/
def nightAlarm : RuleEngineFiles where
  params := ⟨"", [], none, none⟩
  timeparams := ⟨"", [], none, none⟩
  eventcounters := []
  conditions := none
  rules := [
    { stem := "night"
      params := ⟨"rule", [], some ("rule", [⟨"alarm", "generic", "NIGHT"⟩,
        ⟨"status", "generic", "ON"⟩, ⟨"from", "generic", "22:00:00"⟩,
        ⟨"to", "generic", "06:00:00"⟩]), none⟩
      memory := ⟨0, false, false, false, 0⟩ }]
  unsetWforbid := 0

def motionAtNoon : Turn := (RuleSet.noon, MMessage.mk2 "event" "motion")

/-- The night alarm goes off at noon. -/
theorem not_windowRespected_nightAlarm :
    ¬Machine.Along (Machine.total next) WindowRespected
      (new RuleSet.noon nightAlarm).start [motionAtNoon] := by
  intro hrespected
  have hnight : (((new RuleSet.noon nightAlarm).start.evaluated motionAtNoon).any fun seen =>
      seen.rule.rules.any fun rule =>
        rule.fires RuleSet.noon seen.given && !(rule.isActive RuleSet.noon).1) = true := by
    decide +kernel
  obtain ⟨seen, hseen, hsome⟩ := (Option.any_eq_true _ _).mp hnight
  obtain ⟨rule, hrule, hboth⟩ := List.any_eq_true.mp hsome
  rw [Bool.and_eq_true, Bool.not_eq_true', Rule.fires_eq_decide_due, decide_eq_true_iff] at hboth
  have hemits := (Rule.emits_iff_due RuleSet.noon seen.given rule).mpr hboth.1
  have hactive := hrespected.1 seen hseen rule hrule hemits
  exact absurd (hboth.2.symm.trans hactive) (by decide)

end RuleEngine

end Hat
