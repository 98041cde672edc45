import Hat.Core.CatchUp
import Hat.Manager.RuleCycle
import Hat.Manager.TimedRule

/-!
# Missed cycles

Rules and timed rules move the start of their cycle by one cycle at every update that finds
it passed.  Both are clocks that catch up; a rule reports from its start on, a timed rule
from one second later.
-/

namespace Hat

open Hat.Hsrv

theorem Hsrv.le_toLong_iff (env : Env) (start : ℤ) :
    start ≤ toLong env.gettime ↔ (start : ℚ) ≤ env.gettime := by
  rw [toLong, if_pos env.gettime_nonneg]
  exact Int.le_floor

namespace Rule

/-- The update returns that the cycle is active, having moved its start. -/
def reportsStart (rule : Rule) (env : Env) : Bool :=
  (rule.cycleUpdate env).state.cycleactive &&
    (rule.cycleUpdate env).nextcyclestart ≠ rule.nextcyclestart

def dueFrom (rule : Rule) : Option ℚ :=
  if rule.nextcyclestart < 0 then none else some (rule.nextcyclestart : ℚ)

def cycleClock (cycle : ℤ) : CycleClock Rule Env ℚ where
  cycle := cycle
  time := Env.gettime
  step := fun rule env => rule.cycleUpdate env
  reports := reportsStart
  due := dueFrom

theorem reportsStart_of_unset {rule : Rule} (hcycle : 0 < rule.cycle)
    (hunset : rule.nextcyclestart < 0) (env : Env) : rule.reportsStart env = false := by
  have hactive : (rule.cycleUpdate env).state.cycleactive = false := by
    simp only [cycleUpdate, not_le.mpr hcycle, hunset, if_false, if_true]
    rfl
  rw [reportsStart, hactive, Bool.false_and]

theorem reportsStart_of_set {rule : Rule} (hcycle : 0 < rule.cycle)
    (hset : 0 ≤ rule.nextcyclestart) (env : Env) :
    rule.reportsStart env = true ↔ rule.nextcyclestart ≤ toLong env.gettime := by
  have hclock := rule.clock_cycleUpdate env
  by_cases hreached : rule.nextcyclestart ≤ toLong env.gettime
  · rw [tick_of_reached hcycle hset hreached] at hclock
    have hmoved : (rule.cycleUpdate env).nextcyclestart = rule.nextcyclestart + rule.cycle :=
      congrArg Prod.snd hclock
    rw [reportsStart, cycleactive_cycleUpdate hcycle hset hreached, hmoved]
    simp [hreached, hcycle.ne']
  · rw [tick_of_later hcycle (not_le.mp hreached)] at hclock
    have hstays : (rule.cycleUpdate env).nextcyclestart = rule.nextcyclestart :=
      congrArg Prod.snd hclock
    simp [reportsStart, hstays, hreached]

theorem dueFrom_eq_some {rule : Rule} {start : ℚ} :
    rule.dueFrom = some start ↔ 0 ≤ rule.nextcyclestart ∧ (rule.nextcyclestart : ℚ) = start := by
  rw [dueFrom]
  split
  · rename_i hunset
    simp [hunset]
  · rename_i hset
    simp [not_lt.mp hset]

theorem dueFrom_of_reached {rule : Rule} {env : Env} (hcycle : 0 < rule.cycle)
    (hset : 0 ≤ rule.nextcyclestart) (hreached : (rule.nextcyclestart : ℚ) ≤ env.gettime) :
    (rule.cycleUpdate env).dueFrom = some ((rule.nextcyclestart : ℚ) + rule.cycle) := by
  have hclock := rule.clock_cycleUpdate env
  rw [tick_of_reached hcycle hset ((le_toLong_iff env _).mpr hreached)] at hclock
  have hnext : (rule.cycleUpdate env).nextcyclestart = rule.nextcyclestart + rule.cycle :=
    congrArg Prod.snd hclock
  rw [dueFrom_eq_some, hnext]
  exact ⟨by omega, Int.cast_add _ _⟩

theorem dueFrom_of_early {rule : Rule} {env : Env} (hcycle : 0 < rule.cycle)
    (hset : 0 ≤ rule.nextcyclestart) (hearly : env.gettime < rule.nextcyclestart) :
    (rule.cycleUpdate env).dueFrom = some (rule.nextcyclestart : ℚ) := by
  have hlater : toLong env.gettime < rule.nextcyclestart := by
    rw [← not_le, le_toLong_iff, not_le]
    exact hearly
  have hclock := rule.clock_cycleUpdate env
  rw [tick_of_later hcycle hlater] at hclock
  have hnext : (rule.cycleUpdate env).nextcyclestart = rule.nextcyclestart :=
    congrArg Prod.snd hclock
  rw [dueFrom_eq_some, hnext]
  exact ⟨hset, rfl⟩

theorem cycleClock_lawful {cycle : ℤ} (hcycle : 0 < cycle) :
    (cycleClock cycle).Lawful fun rule => rule.cycle = cycle where
  cycle_pos := Int.cast_pos.mpr hcycle
  invariant := by
    intro rule env hrule
    have hclock := congrArg Prod.fst (rule.clock_cycleUpdate env)
    rw [tick_fst] at hclock
    exact hclock.trans hrule
  reports_of_due := by
    rintro rule env start rfl hdue
    obtain ⟨hset, rfl⟩ := dueFrom_eq_some.mp hdue
    exact (reportsStart_of_set hcycle hset env).trans (le_toLong_iff env _)
  due_reached := by
    rintro rule env start rfl hdue hreached
    obtain ⟨hset, rfl⟩ := dueFrom_eq_some.mp hdue
    exact dueFrom_of_reached hcycle hset hreached
  due_waits := by
    rintro rule env start rfl hdue hearly
    obtain ⟨hset, rfl⟩ := dueFrom_eq_some.mp hdue
    exact dueFrom_of_early hcycle hset hearly
  first := by
    rintro rule env rfl hdue hreports
    have hunset : rule.nextcyclestart < 0 := by
      by_contra hset
      exact Option.some_ne_none _ ((if_neg hset).symm.trans hdue)
    exact absurd ((reportsStart_of_unset hcycle hunset env).symm.trans hreports)
      Bool.false_ne_true

end Rule

namespace TimedRule

/-- The mode is one of the four that follow a cycle. -/
def FollowsCycle (rule : TimedRule) : Prop :=
  (rule.behavior = "timed" ∨ rule.behavior = "program_timed") ∨
    (rule.behavior = "cyclic" ∨ rule.behavior = "program_cyclic")

instance : DecidablePred FollowsCycle := fun _ => inferInstanceAs (Decidable (_ ∨ _))

/-- One second after the start, if the mode has one. -/
def dueFrom (rule : TimedRule) : Option ℚ :=
  if rule.FollowsCycle ∧ 0 ≤ rule.nextcyclestart then some ((rule.nextcyclestart : ℚ) + 1) else none

theorem dueFrom_eq_some {rule : TimedRule} {start : ℚ} :
    rule.dueFrom = some start ↔
      (rule.FollowsCycle ∧ 0 ≤ rule.nextcyclestart) ∧ (rule.nextcyclestart : ℚ) + 1 = start := by
  rw [dueFrom]
  split
  · rename_i hset
    simp [hset]
  · rename_i hunset
    simp [hunset]

/-- What the cycle of a rule consists of. -/
structure CycleState where
  behavior : String
  cycle : ℤ
  nextcyclestart : ℤ
  exec : Bool

def cycleState (rule : TimedRule) : CycleState :=
  ⟨rule.behavior, rule.cycle, rule.nextcyclestart, rule.exec⟩

theorem cycleState_act (given : Given) (rule : TimedRule) (res : List Batch) :
    (rule.act given res).2.1.cycleState = rule.cycleState := by
  simp only [act, follow]
  repeat' split
  all_goals rfl

/-- The rule as an update of its cycle finds it. -/
def refreshed (env : Env) (rule : TimedRule) : TimedRule :=
  { rule with
    reftime := string2second (getasciitimeday env)
    cTime := string2second (getasciitimeday env)
    exec := false }

/-! An update of the cycle finds the mode, the cycle and the start as they were. -/

theorem behavior_refreshed (env : Env) (rule : TimedRule) :
    (rule.refreshed env).behavior = rule.behavior := by rw [refreshed]

theorem cycle_refreshed (env : Env) (rule : TimedRule) :
    (rule.refreshed env).cycle = rule.cycle := by rw [refreshed]

theorem nextcyclestart_refreshed (env : Env) (rule : TimedRule) :
    (rule.refreshed env).nextcyclestart = rule.nextcyclestart := by rw [refreshed]

theorem followsCycle_refreshed (env : Env) (rule : TimedRule) :
    (rule.refreshed env).FollowsCycle ↔ rule.FollowsCycle := by
  rw [FollowsCycle, FollowsCycle, behavior_refreshed]

theorem cycleState_refreshed (env : Env) (rule : TimedRule) :
    (rule.refreshed env).cycleState =
      ⟨rule.behavior, rule.cycle, rule.nextcyclestart, false⟩ := by
  rw [cycleState, refreshed]

theorem cycleState_timeUpdate (env : Env) (given : Given) (rule : TimedRule) (res : List Batch) :
    (rule.timeUpdate env given res).2.1.cycleState =
      ((rule.refreshed env).cycleUpdate env).cycleState :=
  cycleState_act given (rule.refresh env) res

theorem cycleState_cycleUpdate_reached (rule : TimedRule) {env : Env}
    (hmode : rule.FollowsCycle) (hcycle : 0 < rule.cycle) (hset : 0 ≤ rule.nextcyclestart)
    (hreached : rule.nextcyclestart < toLong env.gettime) :
    (rule.cycleUpdate env).cycleState =
      ⟨rule.behavior, rule.cycle, rule.nextcyclestart + rule.cycle, true⟩ := by
  have hstart : ¬rule.nextcyclestart < 0 := not_lt.mpr hset
  simp only [cycleUpdate, hcycle, hstart, hreached, and_true, if_true, if_false]
  rcases hmode with htimed | hcyclic
  · rw [if_pos htimed]
    rfl
  · split
    · rfl
    · rfl

theorem cycleState_cycleUpdate_early (rule : TimedRule) {env : Env}
    (hset : 0 ≤ rule.nextcyclestart) (hearly : toLong env.gettime ≤ rule.nextcyclestart) :
    (rule.cycleUpdate env).cycleState = rule.cycleState := by
  have hstart : ¬rule.nextcyclestart < 0 := not_lt.mpr hset
  simp only [cycleUpdate, hstart, not_lt.mpr hearly, if_false]
  repeat' split
  all_goals rfl

/-- An update that finds no start reports only in the timed modes, and sets the start a cycle
away. -/
theorem cycleState_cycleUpdate_unset (rule : TimedRule) {env : Env} (hcycle : 0 < rule.cycle)
    (hexec : rule.exec = false) (hunset : ¬(rule.FollowsCycle ∧ 0 ≤ rule.nextcyclestart))
    (hreports : (rule.cycleUpdate env).exec = true) :
    (rule.cycleUpdate env).FollowsCycle ∧
      (rule.cycleUpdate env).nextcyclestart = toLong env.gettime + rule.cycle := by
  have hnext : rule.FollowsCycle → rule.nextcyclestart < 0 := by
    intro hmode
    by_contra hset
    exact hunset ⟨hmode, not_lt.mp hset⟩
  simp only [cycleUpdate, hcycle, and_true] at hreports ⊢
  by_cases htimed : rule.behavior = "timed" ∨ rule.behavior = "program_timed"
  · rw [if_pos htimed, if_pos (hnext (Or.inl htimed))]
    exact ⟨Or.inl htimed, rfl⟩
  · rw [if_neg htimed] at hreports
    by_cases hcyclic : rule.behavior = "cyclic" ∨ rule.behavior = "program_cyclic"
    · rw [if_pos hcyclic, if_pos (hnext (Or.inr hcyclic))] at hreports
      exact absurd hreports Bool.false_ne_true
    · rw [if_neg hcyclic] at hreports
      exact absurd (hexec.symm.trans hreports) Bool.false_ne_true

/-- An update of the rule at a time, with what it is given. -/
abbrev Update := Env × Given

def afterUpdate (rule : TimedRule) (update : Update) : TimedRule :=
  (rule.timeUpdate update.1 update.2 []).2.1

theorem add_one_le_iff_lt_toLong (env : Env) (start : ℤ) :
    (start : ℚ) + 1 ≤ env.gettime ↔ start < toLong env.gettime := by
  rw [← Int.add_one_le_iff, le_toLong_iff, Int.cast_add, Int.cast_one]

theorem cycleState_of_reached {rule : TimedRule} {update : Update} (hmode : rule.FollowsCycle)
    (hcycle : 0 < rule.cycle) (hset : 0 ≤ rule.nextcyclestart)
    (hreached : (rule.nextcyclestart : ℚ) + 1 ≤ update.1.gettime) :
    (rule.afterUpdate update).cycleState =
      ⟨rule.behavior, rule.cycle, rule.nextcyclestart + rule.cycle, true⟩ := by
  rw [add_one_le_iff_lt_toLong, ← nextcyclestart_refreshed update.1] at hreached
  rw [← nextcyclestart_refreshed update.1] at hset
  rw [← cycle_refreshed update.1] at hcycle
  have hfollows := (followsCycle_refreshed update.1 rule).mpr hmode
  rw [afterUpdate, cycleState_timeUpdate,
    cycleState_cycleUpdate_reached _ hfollows hcycle hset hreached, behavior_refreshed,
    cycle_refreshed, nextcyclestart_refreshed]

theorem cycleState_of_early {rule : TimedRule} {update : Update} (hset : 0 ≤ rule.nextcyclestart)
    (hearly : update.1.gettime < (rule.nextcyclestart : ℚ) + 1) :
    (rule.afterUpdate update).cycleState =
      ⟨rule.behavior, rule.cycle, rule.nextcyclestart, false⟩ := by
  rw [← not_le, add_one_le_iff_lt_toLong, not_lt, ← nextcyclestart_refreshed update.1] at hearly
  rw [← nextcyclestart_refreshed update.1] at hset
  rw [afterUpdate, cycleState_timeUpdate, cycleState_cycleUpdate_early _ hset hearly,
    cycleState_refreshed]

theorem dueFrom_of_cycleState {rule : TimedRule} {behavior : String} {cycle next : ℤ} {exec : Bool}
    (hstate : rule.cycleState = ⟨behavior, cycle, next, exec⟩)
    (hmode : (behavior = "timed" ∨ behavior = "program_timed") ∨
      (behavior = "cyclic" ∨ behavior = "program_cyclic")) (hnext : 0 ≤ next) :
    rule.dueFrom = some ((next : ℚ) + 1) := by
  simp only [cycleState, CycleState.mk.injEq] at hstate
  obtain ⟨rfl, rfl, rfl, rfl⟩ := hstate
  exact dueFrom_eq_some.mpr ⟨⟨hmode, hnext⟩, rfl⟩

def cycleClock (cycle : ℤ) : CycleClock TimedRule Update ℚ where
  cycle := cycle
  time := fun update => update.1.gettime
  step := afterUpdate
  reports := fun rule update => (rule.afterUpdate update).exec
  due := dueFrom

theorem cycleClock_lawful {cycle : ℤ} (hcycle : 0 < cycle) :
    (cycleClock cycle).Lawful fun rule => rule.cycle = cycle where
  cycle_pos := Int.cast_pos.mpr hcycle
  invariant := by
    intro rule update hrule
    have hstate := cycleState_timeUpdate update.1 update.2 rule []
    obtain ⟨nextcyclestart, exec, hupdate⟩ := cycleUpdate_eq update.1 (rule.refreshed update.1)
    rw [hupdate] at hstate
    exact (congrArg CycleState.cycle hstate).trans hrule
  reports_of_due := by
    rintro rule update start rfl hdue
    obtain ⟨⟨hmode, hset⟩, rfl⟩ := dueFrom_eq_some.mp hdue
    by_cases hreached : (rule.nextcyclestart : ℚ) + 1 ≤ update.1.gettime
    · have hstate := cycleState_of_reached hmode hcycle hset hreached
      exact iff_of_true (congrArg CycleState.exec hstate) hreached
    · have hstate := cycleState_of_early hset (not_le.mp hreached)
      have hquiet : (rule.afterUpdate update).exec = false := congrArg CycleState.exec hstate
      refine iff_of_false ?_ hreached
      intro hreports
      exact absurd (hquiet.symm.trans hreports) Bool.false_ne_true
  due_reached := by
    rintro rule update start rfl hdue hreached
    obtain ⟨⟨hmode, hset⟩, rfl⟩ := dueFrom_eq_some.mp hdue
    have hstate := cycleState_of_reached hmode hcycle hset hreached
    refine (dueFrom_of_cycleState hstate hmode (by omega)).trans ?_
    rw [Int.cast_add, add_right_comm]
    rfl
  due_waits := by
    rintro rule update start rfl hdue hearly
    obtain ⟨⟨hmode, hset⟩, rfl⟩ := dueFrom_eq_some.mp hdue
    exact dueFrom_of_cycleState (cycleState_of_early hset hearly) hmode hset
  first := by
    rintro rule update rfl hdue hreports
    have hpositive : 0 < (rule.refreshed update.1).cycle := by
      rw [cycle_refreshed]
      exact hcycle
    have hunset : ¬((rule.refreshed update.1).FollowsCycle ∧
        0 ≤ (rule.refreshed update.1).nextcyclestart) := by
      rw [followsCycle_refreshed, nextcyclestart_refreshed]
      intro hset
      exact Option.some_ne_none _ ((if_pos hset).symm.trans hdue)
    have hstate := cycleState_timeUpdate update.1 update.2 rule []
    obtain ⟨hmode, hnext⟩ := cycleState_cycleUpdate_unset (rule.refreshed update.1)
      hpositive rfl hunset ((congrArg CycleState.exec hstate).symm.trans hreports)
    have hnow := toLong_nonneg update.1.gettime_nonneg
    have hpos : 0 ≤ ((rule.refreshed update.1).cycleUpdate update.1).nextcyclestart := by
      rw [hnext]
      exact add_nonneg hnow hpositive.le
    refine ⟨_, dueFrom_of_cycleState hstate hmode hpos, ?_⟩
    have hfloor : update.1.gettime < (toLong update.1.gettime : ℚ) + 1 := by
      rw [toLong, if_pos update.1.gettime_nonneg]
      exact Int.lt_floor_add_one _
    calc update.1.gettime + (rule.cycle : ℚ)
      _ ≤ (toLong update.1.gettime : ℚ) + 1 + rule.cycle := by
          exact add_le_add_left hfloor.le _
      _ = (((rule.refreshed update.1).cycleUpdate update.1).nextcyclestart : ℚ) + 1 := by
          rw [hnext, cycle_refreshed, Int.cast_add, add_right_comm]

end TimedRule

/-! ## At most two starts in less than a cycle -/

/-- The reports of any run of updates of a rule, and of a timed rule, are at most two in less
than a cycle exactly when the updates that follow a late report are timely. -/
theorem cycleStarts_atMostTwo_iff (rule : Rule) (timed : TimedRule) (updates : List Env)
    (timedUpdates : List TimedRule.Update) :
    (0 < rule.cycle → (Rule.cycleClock rule.cycle).Ordered updates →
      (AtMostTwo (rule.cycle : ℚ) ((Rule.cycleClock rule.cycle).reportTimes rule updates) ↔
        (Rule.cycleClock rule.cycle).Timely rule updates)) ∧
    (0 < timed.cycle → (TimedRule.cycleClock timed.cycle).Ordered timedUpdates →
      (AtMostTwo (timed.cycle : ℚ)
          ((TimedRule.cycleClock timed.cycle).reportTimes timed timedUpdates) ↔
        (TimedRule.cycleClock timed.cycle).Timely timed timedUpdates)) := by
  constructor
  · intro hcycle hordered
    exact (Rule.cycleClock_lawful hcycle).atMostTwo_iff_timely rfl hordered
  · intro hcycle hordered
    exact (TimedRule.cycleClock_lawful hcycle).atMostTwo_iff_timely rfl hordered

/-- A rule and a timed rule with a cycle of ten seconds. -/
def tenSecondsRule : Rule :=
  Rule.new firstNight ⟨0, false, false, false, 0⟩
    ⟨"rule", [], some ("rule", [⟨"cycle", "generic", "10"⟩]), none⟩ "ten"

def tenSecondsTimedRule : TimedRule :=
  TimedRule.new firstNight ⟨0, 0⟩ ⟨"rule", [], some ("rule", [⟨"cycle", "generic", "10"⟩,
    ⟨"mode", "generic", "timed"⟩]), none⟩ "ten"

def nightAt (second : ℕ) : Env :=
  { firstNight with gettime := second, gettime_nonneg := Rat.natCast_nonneg }

/-- A quarter of an hour without updates, then one in each second. -/
def afterGap : List Env := [nightAt 11045, nightAt 12000, nightAt 12001, nightAt 12002]

def afterGapTimed : List TimedRule.Update := afterGap.map fun env => (env, ⟨"", 0, none⟩)

theorem ordered_afterGap :
    afterGap.Pairwise fun earlier later => earlier.gettime ≤ later.gettime := by
  simp only [afterGap, nightAt, List.pairwise_cons, List.mem_cons, List.not_mem_nil, or_false]
  norm_num

theorem cycleStarts_tenSeconds :
    (AtMostTwo (tenSecondsRule.cycle : ℚ)
        ((Rule.cycleClock tenSecondsRule.cycle).reportTimes tenSecondsRule afterGap) ↔
      (Rule.cycleClock tenSecondsRule.cycle).Timely tenSecondsRule afterGap) ∧
    (AtMostTwo (tenSecondsTimedRule.cycle : ℚ)
        ((TimedRule.cycleClock tenSecondsTimedRule.cycle).reportTimes tenSecondsTimedRule
          afterGapTimed) ↔
      (TimedRule.cycleClock tenSecondsTimedRule.cycle).Timely tenSecondsTimedRule
        afterGapTimed) :=
  ⟨(cycleStarts_atMostTwo_iff tenSecondsRule tenSecondsTimedRule afterGap afterGapTimed).1
      (by decide +kernel) ordered_afterGap,
    (cycleStarts_atMostTwo_iff tenSecondsRule tenSecondsTimedRule afterGap afterGapTimed).2
      (by decide +kernel) (List.pairwise_map.mpr ordered_afterGap)⟩

/-- The missed cycles come in a burst. -/
theorem not_atMostTwo_afterGap :
    (tenSecondsRule.cycle = 10 ∧ (Rule.cycleClock 10).Ordered afterGap ∧
      ¬AtMostTwo (10 : ℚ) ((Rule.cycleClock 10).reportTimes tenSecondsRule afterGap)) ∧
    (tenSecondsTimedRule.cycle = 10 ∧ (TimedRule.cycleClock 10).Ordered afterGapTimed ∧
      ¬AtMostTwo (10 : ℚ)
        ((TimedRule.cycleClock 10).reportTimes tenSecondsTimedRule afterGapTimed)) := by
  refine ⟨⟨by decide +kernel, ordered_afterGap, ?_⟩, by decide +kernel, ?_, ?_⟩
  · intro hfew
    exact absurd (hfew 12000 12002 (by norm_num)) (by decide +kernel)
  · exact List.pairwise_map.mpr ordered_afterGap
  · intro hfew
    exact absurd (hfew 12000 12002 (by norm_num)) (by decide +kernel)

end Hat
