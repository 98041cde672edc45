import Hat.Core.CircularInterval
import Hat.Manager.RuleWindow
import Hat.Manager.TimedRule

/-!
# Windows of rules and of timed rules

The two kinds of rules accept the same windows.  A rule tests its window on the circle of
the day, a timed rule on the line, so that they differ where a window runs over midnight.
-/

namespace Hat

open Hat.Hsrv

theorem Hsrv.daysecond_le (tm : Tm) : daysecond tm ≤ 86400 := by
  have hsec := tm.sec_le
  have hmin := tm.min_lt
  have hhour := tm.hour_lt
  rw [daysecond]
  omega

theorem Hsrv.string2second_midnight : string2second "24:00:00" = 86400 := by
  decide +kernel

/-- The bounds that both validations ask for. -/
structure ValidWindow (fromTime toTime : ℤ) : Prop where
  from_nonneg : 0 ≤ fromTime
  from_lt : fromTime < 86400
  to_pos : 0 < toTime
  to_le : toTime ≤ 86400

namespace Rule

theorem setValidityTime_of_valid {asfrom asto : String}
    (hvalid : ValidWindow (string2second asfrom) (string2second asto)) (rule : Rule) :
    rule.setValidityTime asfrom asto = (true, { rule with
      midnight := 86400
      fromTime := string2second asfrom
      toTime := string2second asto
      params := ((rule.params.add "from" asfrom).add "to" asto).save }) := by
  simp only [setValidityTime, string2second_midnight]
  exact if_pos ⟨hvalid.from_nonneg, hvalid.from_lt, hvalid.to_pos, hvalid.to_le⟩

/-- With a valid window a rule is active on the circle of the day. -/
theorem isActive_of_valid {rule : Rule} (hvalid : ValidWindow rule.fromTime rule.toTime)
    (hmidnight : rule.midnight = 86400) (env : Env) :
    (rule.isActive env).1 = true ↔
      CircularlyBetween rule.fromTime rule.toTime (daysecond env.localtime) := by
  have hfrom := hvalid.from_nonneg
  have hto := hvalid.to_pos
  have hnonneg := daysecond_nonneg env.localtime
  have hle := daysecond_le env.localtime
  have hwindowed : rule.windowed = rule := if_neg (by omega)
  rw [isActive_iff, Inside, hwindowed, hmidnight, WindowContains]
  rcases lt_or_ge rule.fromTime rule.toTime with hlt | hge
  · rw [circularlyBetween_of_lt hlt]
    omega
  · rw [circularlyBetween_of_le hge]
    omega

end Rule

namespace TimedRule

theorem setValidityTime_of_valid {asfrom asto : String}
    (hvalid : ValidWindow (string2second asfrom) (string2second asto)) (rule : TimedRule) :
    rule.setValidityTime asfrom asto = (true, { rule with
      midnight := 86400
      fromTime := string2second asfrom
      toTime := string2second asto
      params := ((rule.params.add "from" asfrom).add "to" asto).save }) := by
  simp only [setValidityTime, string2second_midnight]
  exact if_pos ⟨hvalid.from_nonneg, hvalid.from_lt, hvalid.to_pos, hvalid.to_le⟩

theorem valid_of_accepted {rule : TimedRule} {asfrom asto : String}
    (haccepted : (rule.setValidityTime asfrom asto).1 = true) :
    ValidWindow (string2second asfrom) (string2second asto) := by
  simp only [setValidityTime, string2second_midnight] at haccepted
  split at haccepted
  · rename_i hbounds
    exact ⟨hbounds.1, hbounds.2.1, hbounds.2.2.1, hbounds.2.2.2⟩
  · exact absurd haccepted Bool.false_ne_true

theorem isInRange_of_valid {fromTime toTime : ℤ} (hvalid : ValidWindow fromTime toTime) (t : ℤ) :
    isInRange t fromTime toTime = true ↔ fromTime ≤ t ∧ t ≤ toTime := by
  have hto := hvalid.to_pos
  rw [isInRange, if_neg (by omega), decide_eq_true_iff]

/-- A rule in the mode of the window alone follows its range test. -/
theorem active_timeUpdate {env : Env} {given : Given} {rule : TimedRule}
    (hmode : rule.behavior = "timed") (hstatus : rule.params.get "status" = "ON")
    (hconditions : rule.checkCondition given.cnd = true) (res : List Batch) :
    (rule.timeUpdate env given res).2.1.active = .on ↔
      isInRange (daysecond env.localtime) rule.fromTime rule.toTime = true := by
  obtain ⟨nextcyclestart, exec, hrefresh⟩ := rule.refresh_eq env
  have hon : statusOf rule.params = .on := if_pos hstatus
  have hallowed : ∀ allowed (seen : TimedRule),
      (seen.follow allowed res).1.active = .on ↔ allowed = true := by
    intro allowed seen
    rw [follow]
    cases allowed <;> cases hactive : seen.active <;> cases seen.exec <;> simp [hactive]
  rw [timeUpdate, act, hrefresh]
  simp only [hon, hmode, reduceCtorEq, if_false, if_true]
  rw [hallowed, Bool.and_eq_true, string2second_getasciitimeday]
  exact and_iff_left hconditions

/-- The range test agrees with the test of a rule and with the circle of the day, and the
timed rule is active as the circle says. -/
structure AgreesWith (env : Env) (rule : Rule) (timed : TimedRule) : Prop where
  rule : isInRange (daysecond env.localtime) timed.fromTime timed.toTime = (rule.isActive env).1
  circle : isInRange (daysecond env.localtime) timed.fromTime timed.toTime = true ↔
    CircularlyBetween timed.fromTime timed.toTime (daysecond env.localtime)
  active : ∀ (given : Given) (res : List Batch), timed.behavior = "timed" →
    timed.params.get "status" = "ON" → timed.checkCondition given.cnd = true →
      ((timed.timeUpdate env given res).2.1.active = .on ↔
        CircularlyBetween timed.fromTime timed.toTime (daysecond env.localtime))

/-- The window does not run over midnight, or the second lies outside of it, or it is the
one second in which the window starts and ends. -/
def OnTheLine (fromTime toTime second : ℤ) : Prop :=
  fromTime < toTime ∨ (toTime < second ∧ second < fromTime) ∨
    (second = fromTime ∧ second = toTime)

/-- After the same accepted window the two tests agree exactly where the window does not
run over midnight or the time lies outside. -/
theorem agreesWith_iff_onTheLine (env : Env) (rule : Rule) (timed : TimedRule)
    (asfrom asto : String) (haccepted : (timed.setValidityTime asfrom asto).1 = true) :
    AgreesWith env (rule.setValidityTime asfrom asto).2 (timed.setValidityTime asfrom asto).2 ↔
      OnTheLine (string2second asfrom) (string2second asto) (daysecond env.localtime) := by
  have hvalid := valid_of_accepted haccepted
  rw [Rule.setValidityTime_of_valid hvalid, setValidityTime_of_valid hvalid]
  have hline := between_iff_circularlyBetween_iff (string2second asfrom) (string2second asto)
    (daysecond env.localtime)
  rw [← isInRange_of_valid hvalid] at hline
  rw [OnTheLine, ← hline]
  constructor
  · exact AgreesWith.circle
  · intro hagree
    refine ⟨?_, hagree, ?_⟩
    · rw [Bool.eq_iff_iff, hagree]
      apply Iff.symm
      exact Rule.isActive_of_valid hvalid rfl env
    · intro given res hmode hstatus hconditions
      rw [active_timeUpdate hmode hstatus hconditions]
      exact hagree

/-- A rule whose file says nothing about its window. -/
def nightRule : Rule := Rule.new firstNight ⟨0, false, false, false, 0⟩ ⟨"rule", [], none, none⟩ "n"

def nightTimedRule : TimedRule := new firstNight ⟨0, 0⟩ ⟨"rule", [], none, none⟩ "night"

theorem agreesWith_evening :
    AgreesWith RuleSet.noon (nightRule.setValidityTime "22:00:00" "06:00:00").2
        (nightTimedRule.setValidityTime "22:00:00" "06:00:00").2 ↔
      OnTheLine 79200 21600 43200 :=
  agreesWith_iff_onTheLine RuleSet.noon nightRule nightTimedRule "22:00:00" "06:00:00"
    (by decide +kernel)

/-- From evening to morning a timed rule is not active during the night. -/
theorem not_agreesWith_night :
    (nightTimedRule.setValidityTime "22:00:00" "06:00:00").1 = true ∧
      ¬AgreesWith firstNight (nightRule.setValidityTime "22:00:00" "06:00:00").2
        (nightTimedRule.setValidityTime "22:00:00" "06:00:00").2 := by
  constructor
  · decide +kernel
  · intro hagrees
    exact absurd hagrees.rule (by decide +kernel)

end TimedRule

end Hat
