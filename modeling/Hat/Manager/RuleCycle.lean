import Hat.Core.Deadline
import Hat.Manager.RuleEngine
import Mathlib.Data.List.Chain

/-!
# Cyclic rules over runs of the engine

A cyclic rule keeps the start of its next cycle and is moved on by the time updates
of the rules.  In the loop that update is the second operand of a disjunction whose
first operand decays the counters.
-/

namespace Hat

open Hat.Hsrv

namespace Hsrv

theorem toLong_nonneg {time : ℚ} (htime : 0 ≤ time) : 0 ≤ toLong time := by
  rw [toLong, if_pos htime]
  exact Int.floor_nonneg.mpr htime

theorem toLong_mono {earlier later : ℚ} (hearlier : 0 ≤ earlier) (hle : earlier ≤ later) :
    toLong earlier ≤ toLong later := by
  rw [toLong, toLong, if_pos hearlier, if_pos (hearlier.trans hle)]
  exact Int.floor_le_floor hle

theorem toLong_le_add_one {earlier later : ℚ} (hearlier : 0 ≤ earlier) (hlater : 0 ≤ later)
    (hle : later ≤ earlier + 1) : toLong later ≤ toLong earlier + 1 := by
  rw [toLong, toLong, if_pos hearlier, if_pos hlater, ← Int.floor_add_one]
  exact Int.floor_le_floor hle

end Hsrv

namespace Rule

/-- The loop ends at the first instant of the cycle that has not passed. -/
theorem advance_spec {cycle reftime : ℤ} (hcycle : 0 < cycle) (fuel : ℕ) {start : ℤ}
    (hstart : start ≤ reftime) (hfuel : reftime - start ≤ fuel) :
    reftime ≤ advance cycle reftime fuel start ∧
      advance cycle reftime fuel start < reftime + cycle ∧
      cycle ∣ advance cycle reftime fuel start - start := by
  induction fuel generalizing start with
  | zero =>
      simp only [advance, sub_self, dvd_zero, and_true]
      push_cast at hfuel
      omega
  | succ fuel ih =>
      simp only [advance]
      split
      · rename_i hlt
        by_cases hnext : start + cycle ≤ reftime
        · obtain ⟨hge, hle, hdvd⟩ := ih hnext (by push_cast at hfuel; omega)
          refine ⟨hge, hle, ?_⟩
          have hsum := dvd_add hdvd (dvd_refl cycle)
          rwa [show advance cycle reftime fuel (start + cycle) - (start + cycle) + cycle =
            advance cycle reftime fuel (start + cycle) - start by ring] at hsum
        · have hstop : advance cycle reftime fuel (start + cycle) = start + cycle := by
            cases fuel with
            | zero => rfl
            | succ fuel => exact if_neg (by omega)
          rw [hstop]
          refine ⟨by omega, by omega, ?_⟩
          rw [add_sub_cancel_left]
      · rename_i hge
        exact ⟨not_lt.mp hge, by omega, by rw [sub_self]; exact dvd_zero cycle⟩

/-- An update changes nothing in a rule that has seen this second already, whose
cycle does not start in it, and that is not left active without a cycle. -/
def UpToDate (env : Env) (rule : Rule) : Prop :=
  rule.reftime = toLong env.gettime ∧
    ((rule.cycle ≤ 0 ∧ rule.state.cycleactive = false) ∨
      (0 < rule.cycle ∧ toLong env.gettime < rule.nextcyclestart))

/-- The first cycle start that an update computes. -/
def firstStart (env : Env) (cycle : ℤ) : ℤ :=
  advance cycle (toLong env.gettime) (daysecond env.localtime).toNat
    (toLong env.gettime - daysecond env.localtime)

theorem firstStart_spec (env : Env) {cycle : ℤ} (hcycle : 0 < cycle) :
    toLong env.gettime ≤ firstStart env cycle ∧
      firstStart env cycle < toLong env.gettime + cycle ∧
      cycle ∣ firstStart env cycle - (toLong env.gettime - daysecond env.localtime) := by
  have hnonneg := daysecond_nonneg env.localtime
  apply advance_spec hcycle
  · omega
  · omega

/-- The cycle and the start of the next one. -/
def clock (rule : Rule) : ℤ × ℤ := (rule.cycle, rule.nextcyclestart)

/-- What an update does to the clock of a rule. -/
def tick (env : Env) (shown : ℤ × ℤ) : ℤ × ℤ :=
  if shown.1 ≤ 0 then shown
  else if shown.2 < 0 then (shown.1, firstStart env shown.1)
  else if shown.2 ≤ toLong env.gettime then (shown.1, shown.2 + shown.1)
  else shown

@[simp]
theorem tick_fst (env : Env) (shown : ℤ × ℤ) : (tick env shown).1 = shown.1 := by
  simp only [tick]
  split
  · rfl
  · split
    · rfl
    · split <;> rfl

theorem tick_of_unset (env : Env) {shown : ℤ × ℤ} (hcycle : 0 < shown.1) (hunset : shown.2 < 0) :
    tick env shown = (shown.1, firstStart env shown.1) := by
  rw [tick, if_neg (not_le.mpr hcycle), if_pos hunset]

theorem tick_of_reached {env : Env} {shown : ℤ × ℤ} (hcycle : 0 < shown.1) (hset : 0 ≤ shown.2)
    (hreached : shown.2 ≤ toLong env.gettime) :
    tick env shown = (shown.1, shown.2 + shown.1) := by
  rw [tick, if_neg (not_le.mpr hcycle), if_neg (not_lt.mpr hset), if_pos hreached]

theorem tick_of_later {env : Env} {shown : ℤ × ℤ} (hcycle : 0 < shown.1)
    (hlater : toLong env.gettime < shown.2) : tick env shown = shown := by
  have hset : 0 ≤ shown.2 := (toLong_nonneg env.gettime_nonneg).trans hlater.le
  rw [tick, if_neg (not_le.mpr hcycle), if_neg (not_lt.mpr hset), if_neg (not_le.mpr hlater)]

theorem clock_cycleUpdate (env : Env) (rule : Rule) :
    (rule.cycleUpdate env).clock = tick env rule.clock := by
  simp only [cycleUpdate, tick, clock, string2second_getasciitimeday]
  by_cases hcycle : rule.cycle ≤ 0
  · simp only [hcycle, if_true, setCycleactive]
  by_cases hunset : rule.nextcyclestart < 0
  · simp only [hcycle, hunset, if_false, if_true, setCycleactive, firstStart]
  by_cases hreached : rule.nextcyclestart ≤ toLong env.gettime
  · simp only [hcycle, hunset, hreached, if_false, if_true, setCycleactive]
  · simp only [hcycle, hunset, hreached, if_false]

theorem clock_setValidityTime (rule : Rule) (asfrom asto : String) :
    (rule.setValidityTime asfrom asto).2.clock = rule.clock := by
  simp only [setValidityTime]
  split <;> rfl

theorem clock_setStoredValidityTime (rule : Rule) :
    rule.setStoredValidityTime.2.clock = rule.clock :=
  rule.clock_setValidityTime _ _

theorem cycleactive_cycleUpdate {env : Env} {rule : Rule} (hcycle : 0 < rule.cycle)
    (hset : 0 ≤ rule.nextcyclestart) (hreached : rule.nextcyclestart ≤ toLong env.gettime) :
    (rule.cycleUpdate env).state.cycleactive = true := by
  simp only [cycleUpdate, not_le.mpr hcycle, not_lt.mpr hset, hreached, if_false, if_true]
  rfl

theorem reftime_cycleUpdate (env : Env) (rule : Rule) :
    (rule.cycleUpdate env).reftime = toLong env.gettime := by
  simp only [cycleUpdate]
  split
  · rfl
  · split
    · rfl
    · split <;> rfl

theorem cycleUpdate_eq_self_iff (env : Env) (rule : Rule) :
    rule.cycleUpdate env = rule ↔ rule.UpToDate env := by
  have hnow := toLong_nonneg env.gettime_nonneg
  constructor
  · intro hsame
    refine ⟨?_, ?_⟩
    · rw [← reftime_cycleUpdate env rule, hsame]
    by_cases hcycle : rule.cycle ≤ 0
    · refine Or.inl ⟨hcycle, ?_⟩
      have hactive : (rule.cycleUpdate env).state.cycleactive = false := by
        simp only [cycleUpdate, hcycle, if_true]
        rfl
      rwa [hsame] at hactive
    · have hclock := rule.clock_cycleUpdate env
      rw [hsame] at hclock
      have hpos : 0 < rule.clock.1 := not_le.mp hcycle
      have hfirst : toLong env.gettime ≤ firstStart env rule.clock.1 := (firstStart_spec env hpos).1
      refine Or.inr ⟨hpos, ?_⟩
      by_contra hpassed
      have hreached : rule.clock.2 ≤ toLong env.gettime := not_lt.mp hpassed
      by_cases hunset : rule.clock.2 < 0
      · rw [tick_of_unset env hpos hunset] at hclock
        have hstart := congrArg Prod.snd hclock
        dsimp only at hstart
        omega
      · rw [tick_of_reached hpos (not_lt.mp hunset) hreached] at hclock
        have hstart := congrArg Prod.snd hclock
        dsimp only at hstart
        omega
  · rintro ⟨hreftime, ⟨hcycle, hactive⟩ | ⟨hcycle, hlater⟩⟩
    · simp only [cycleUpdate, hcycle, if_true, setCycleactive]
      rw [← hreftime, ← hactive]
    · have hset : ¬rule.nextcyclestart < 0 := by omega
      simp only [cycleUpdate, not_le.mpr hcycle, hset, not_le.mpr hlater, if_false]
      rw [← hreftime]

end Rule

namespace RuleEngine

/-- The counters add up to nothing after their decay. -/
def CountersSpent (env : Env) (engine : RuleEngine) : Prop :=
  EventCounterSet.total (engine.eventCounter.timeUpdate env).2 ≤ 0

/-- The updates of a trigger are one update of the cycle of every rule. -/
def CyclesUpdated (env : Env) (engine : RuleEngine) : Prop :=
  (engine.updateAll env).2.rule.rules = engine.rule.rules.map (Rule.cycleUpdate env)

theorem updateAll_of_spent {env : Env} {engine : RuleEngine} (hspent : CountersSpent env engine) :
    (engine.updateAll env).2.rule.rules = engine.rule.rules.map (Rule.cycleUpdate env) := by
  have hcounted : (engine.eventCounter.timeUpdate env).1 = false :=
    decide_eq_false (not_lt.mpr hspent)
  simp only [updateAll, hcounted]
  rfl

theorem updateAll_of_not_spent {env : Env} {engine : RuleEngine}
    (hpositive : ¬CountersSpent env engine) :
    (engine.updateAll env).2.rule.rules = engine.rule.rules := by
  have hcounted : (engine.eventCounter.timeUpdate env).1 = true :=
    decide_eq_true (not_le.mp hpositive)
  simp only [updateAll, hcounted, if_true]

/-- A trigger updates the cycles exactly when no counter is left, unless there is
nothing to update. -/
theorem cyclesUpdated_iff_turn (env : Env) (engine : RuleEngine) :
    CyclesUpdated env engine ↔
      CountersSpent env engine ∨ ∀ rule ∈ engine.rule.rules, rule.UpToDate env := by
  by_cases hspent : CountersSpent env engine
  · simp only [CyclesUpdated, updateAll_of_spent hspent, hspent, true_or]
  · simp only [CyclesUpdated, updateAll_of_not_spent hspent, hspent, false_or]
    have hsame := @List.map_inj_left _ _ engine.rule.rules (Rule.cycleUpdate env) id
    rw [List.map_id] at hsame
    rw [eq_comm, hsame]
    simp only [id, Rule.cycleUpdate_eq_self_iff]

/-! ## The triggers of a run -/

/-- A trigger with the engine that receives it. -/
abbrev Trigger := Env × RuleEngine

/-- The triggers of a run in order. -/
def triggers : RuleEngine → List Turn → List Trigger
  | _, [] => []
  | engine, turn :: rest =>
      if branchOf turn.2 = .eventupdate then (turn.1, engine) :: triggers (engine.next turn) rest
      else triggers (engine.next turn) rest

namespace Trigger

/-- The engine as its rules find it. -/
def seen (trigger : Trigger) : RuleEngine := (trigger.2.updateAll trigger.1).2

/-- The second in which the trigger is handled. -/
def second (trigger : Trigger) : ℤ := toLong trigger.1.gettime

/-- The rule at a position emits messages at this trigger. -/
def FiresAt (index : ℕ) (trigger : Trigger) : Prop :=
  ∃ rule, trigger.seen.rule.rules[index]? = some rule ∧ rule.Emits trigger.1 trigger.seen.given

/-- The triggers come at least once per second. -/
def Regular (triggers : List Trigger) : Prop :=
  triggers.IsChain fun earlier later =>
    earlier.1.gettime ≤ later.1.gettime ∧ later.1.gettime ≤ earlier.1.gettime + 1

/-- The rule at a position is cyclic, and every trigger finds it enabled. -/
def CyclicEnabled (index : ℕ) (triggers : List Trigger) : Prop :=
  ∀ trigger ∈ triggers, ∀ rule, trigger.seen.rule.rules[index]? = some rule →
    0 < rule.cycle ∧ rule.Enabled trigger.1 trigger.seen.given

/-- A second at which a cycle starts, counted from the midnight before the first
trigger, and not before that trigger. -/
def IsInstant (first : Trigger) (cycle instant : ℤ) : Prop :=
  first.second ≤ instant ∧ cycle ∣ instant - (first.second - daysecond first.1.localtime)

/-- At every instant of its cycle the rule fires at the first trigger that reaches
the instant or at the one after. -/
def FiresAtInstants (index : ℕ) (triggers : List Trigger) : Prop :=
  ∀ first rule, triggers.head? = some first → first.seen.rule.rules[index]? = some rule →
    ∀ instant, IsInstant first rule.cycle instant →
      ∀ position trigger following, triggers[position]? = some trigger →
        triggers[position + 1]? = some following → instant ≤ trigger.second →
        (∀ earlier < position, ∀ missed, triggers[earlier]? = some missed →
          missed.second < instant) →
        trigger.FiresAt index ∨ following.FiresAt index

end Trigger

def clocks (engine : RuleEngine) : List (ℤ × ℤ) := engine.rule.rules.map Rule.clock

theorem clocks_evaluate (env : Env) (engine : RuleEngine) :
    (engine.evaluate env).1.clocks = engine.clocks := by
  apply map_rules_evaluate Rule.clock
  intro given rule answer
  simp only [Rule.matchRule]
  split <;> rfl

theorem clocks_next_of_trigger {turn : Turn} (hbranch : branchOf turn.2 = .eventupdate)
    (engine : RuleEngine) :
    (engine.next turn).clocks = (Trigger.seen (turn.1, engine)).clocks := by
  have hseen : engine.evaluated turn = some (Trigger.seen (turn.1, engine)) := by
    simp only [evaluated, hbranch]
    rfl
  rw [next, doWork_of_evaluated hseen]
  exact clocks_evaluate turn.1 _

theorem clocks_next_of_other {turn : Turn} (hother : branchOf turn.2 ≠ .eventupdate)
    (engine : RuleEngine) : (engine.next turn).clocks = engine.clocks := by
  apply map_rules_next Rule.clock
  · intro given rule answer
    simp only [Rule.matchRule]
    split <;> rfl
  · exact fun rule asfrom asto => rule.clock_setValidityTime asfrom asto
  · exact fun hbranch => absurd hbranch hother
  · exact fun _ _ _ => rfl

/-- Between two triggers the clocks stand still. -/
theorem triggers_isChain (engine : RuleEngine) (turns : List Turn) :
    (∀ trigger ∈ (engine.triggers turns).head?, trigger.2.clocks = engine.clocks) ∧
      (engine.triggers turns).IsChain fun earlier later =>
        later.2.clocks = earlier.seen.clocks := by
  induction turns generalizing engine with
  | nil => exact ⟨(fun _ h => nomatch h), List.IsChain.nil⟩
  | cons turn rest ih =>
      obtain ⟨hhead, hchain⟩ := ih (engine.next turn)
      simp only [triggers]
      split
      · rename_i hbranch
        refine ⟨fun trigger htrigger => ?_, List.isChain_cons.mpr ⟨?_, hchain⟩⟩
        · rw [List.head?_cons, Option.mem_some_iff] at htrigger
          rw [← htrigger]
        · intro later hlater
          rw [hhead later hlater]
          exact clocks_next_of_trigger hbranch engine
      · rename_i hother
        refine ⟨fun trigger htrigger => ?_, hchain⟩
        rw [hhead trigger htrigger]
        exact clocks_next_of_other hother engine

theorem Trigger.clocks_seen {trigger : Trigger} (hupdated : CyclesUpdated trigger.1 trigger.2) :
    trigger.seen.clocks = trigger.2.clocks.map (Rule.tick trigger.1) := by
  rw [CyclesUpdated] at hupdated
  rw [clocks, clocks, Trigger.seen, hupdated, List.map_map, List.map_map]
  apply List.map_congr_left
  intro rule _
  exact rule.clock_cycleUpdate trigger.1

/-- What the clock of the rule at a position shows after each trigger. -/
def shownAt (index : ℕ) (triggers : List Trigger) (position : ℕ) : ℤ × ℤ :=
  ((triggers[position]?).bind fun trigger => trigger.seen.clocks[index]?).getD (0, 0)

/-- The clock of a rule is set at the first trigger and ticks at all others. -/
structure Ticking (index : ℕ) (cycle : ℤ) (triggers : List Trigger) : Prop where
  pos : 0 < cycle
  first : ∀ trigger ∈ triggers.head?, trigger.seen.clocks[index]? =
    some (cycle, Rule.firstStart trigger.1 cycle)
  later : ∀ position trigger following shown, triggers[position]? = some trigger →
    triggers[position + 1]? = some following → trigger.seen.clocks[index]? = some shown →
    following.2.clocks[index]? = some shown ∧
      following.seen.clocks[index]? = some (Rule.tick following.1 shown)

theorem Ticking.of_triggers {engine : RuleEngine} {turns : List Turn} {index : ℕ}
    (hunset : ∀ shown ∈ engine.clocks, shown.2 < 0)
    (hupdated : ∀ trigger ∈ engine.triggers turns, CyclesUpdated trigger.1 trigger.2)
    (henabled : Trigger.CyclicEnabled index (engine.triggers turns)) {first : Trigger} {rule : Rule}
    (hfirst : (engine.triggers turns).head? = some first)
    (hrule : first.seen.rule.rules[index]? = some rule) :
    Ticking index rule.cycle (engine.triggers turns) := by
  obtain ⟨hhead, hchain⟩ := triggers_isChain engine turns
  have hmem : first ∈ engine.triggers turns := List.mem_of_head? hfirst
  have hpos := (henabled first hmem rule hrule).1
  refine ⟨hpos, ?_, ?_⟩
  · intro trigger htrigger
    rw [hfirst, Option.mem_some_iff] at htrigger
    rw [← htrigger]
    have hshown : first.seen.clocks[index]? = some rule.clock := by
      rw [clocks, List.getElem?_map, hrule]
      rfl
    rw [Trigger.clocks_seen (hupdated first hmem), List.getElem?_map,
      Option.map_eq_some_iff] at hshown
    obtain ⟨shown, hentry, hshown⟩ := hshown
    have hneg : shown.2 < 0 := by
      apply hunset shown
      rw [← hhead first hfirst]
      exact List.mem_of_getElem? hentry
    have hcycle : shown.1 = rule.cycle := by
      have hfst := congrArg Prod.fst hshown
      rwa [Rule.tick_fst] at hfst
    rw [Trigger.clocks_seen (hupdated first hmem), List.getElem?_map, hentry, Option.map_some,
      Rule.tick_of_unset first.1 (by rw [hcycle]; exact hpos) hneg, hcycle]
  · intro position trigger following shown htrigger hfollowing hshown
    obtain ⟨hposition, rfl⟩ := List.getElem?_eq_some_iff.mp hfollowing
    obtain ⟨_, rfl⟩ := List.getElem?_eq_some_iff.mp htrigger
    have hlink := hchain.getElem position hposition
    have hentry : ((engine.triggers turns)[position + 1]).2.clocks[index]? = some shown := by
      rw [hlink, hshown]
    refine ⟨hentry, ?_⟩
    rw [Trigger.clocks_seen (hupdated _ (List.getElem_mem hposition)), List.getElem?_map, hentry]
    rfl

theorem Ticking.exists_shown {index : ℕ} {cycle : ℤ} {triggers : List Trigger}
    (h : Ticking index cycle triggers) {position : ℕ} {trigger : Trigger}
    (htrigger : triggers[position]? = some trigger) :
    ∃ start, 0 ≤ start ∧ trigger.seen.clocks[index]? = some (cycle, start) := by
  induction position generalizing trigger with
  | zero =>
      rw [← List.head?_eq_getElem?] at htrigger
      refine ⟨_, ?_, h.first trigger htrigger⟩
      exact (toLong_nonneg trigger.1.gettime_nonneg).trans
        (Rule.firstStart_spec trigger.1 h.pos).1
  | succ position ih =>
      have hposition : position < triggers.length :=
        Nat.lt_of_succ_lt (List.getElem?_eq_some_iff.mp htrigger).1
      have hbefore := List.getElem?_eq_getElem hposition
      obtain ⟨start, hstart, hshown⟩ := ih hbefore
      have htick := (h.later position _ trigger _ hbefore htrigger hshown).2
      by_cases hreached : start ≤ toLong trigger.1.gettime
      · rw [Rule.tick_of_reached h.pos hstart hreached] at htick
        have hpos := h.pos
        exact ⟨start + cycle, by omega, htick⟩
      · rw [Rule.tick_of_later h.pos (not_le.mp hreached)] at htick
        exact ⟨start, hstart, htick⟩

/-- The clock of a cyclic rule is a deadline polled by the triggers. -/
theorem Ticking.polled {index : ℕ} {cycle : ℤ} {triggers : List Trigger}
    (h : Ticking index cycle triggers) (hregular : Trigger.Regular triggers)
    (hsome : triggers ≠ []) :
    Deadline.Polled cycle triggers.length
      (fun position => (triggers[position]?).elim 0 Trigger.second)
      (fun position => (shownAt index triggers position).2) := by
  have hstep : ∀ position, position + 1 < triggers.length →
      ∃ earlier later start, triggers[position]? = some earlier ∧
        triggers[position + 1]? = some later ∧ 0 ≤ start ∧
        shownAt index triggers position = (cycle, start) ∧
        shownAt index triggers (position + 1) = Rule.tick later.1 (cycle, start) := by
    intro position hposition
    have hearlier := List.getElem?_eq_getElem (Nat.lt_of_succ_lt hposition)
    have hlater := List.getElem?_eq_getElem hposition
    obtain ⟨start, hstart, hshown⟩ := h.exists_shown hearlier
    have htick := (h.later position _ _ _ hearlier hlater hshown).2
    refine ⟨_, _, start, hearlier, hlater, hstart, ?_, ?_⟩
    · simp only [shownAt, hearlier, Option.bind_some, hshown, Option.getD_some]
    · simp only [shownAt, hlater, Option.bind_some, htick, Option.getD_some]
  constructor
  · exact h.pos
  · obtain ⟨first, hfirst⟩ := Option.ne_none_iff_exists'.mp
      (fun hnone => hsome (List.head?_eq_none_iff.mp hnone))
    have hzero : triggers[0]? = some first := by rw [← List.head?_eq_getElem?, hfirst]
    simp only [shownAt, hzero, Option.bind_some, h.first first hfirst, Option.getD_some,
      Option.elim_some]
    exact (Rule.firstStart_spec first.1 h.pos).1
  · intro position hposition hreached
    obtain ⟨_, later, start, _, hlater, hstart, hshown, htick⟩ := hstep position hposition
    simp only [hlater, Option.elim_some, hshown] at hreached
    rw [htick, hshown, Rule.tick_of_reached h.pos hstart hreached]
  · intro position hposition hnot
    obtain ⟨_, later, start, _, hlater, hstart, hshown, htick⟩ := hstep position hposition
    simp only [hlater, Option.elim_some, hshown] at hnot
    have hstill : Rule.tick later.1 (cycle, start) = (cycle, start) :=
      Rule.tick_of_later h.pos hnot
    rw [htick, hshown, hstill]
  · intro position hposition
    have hgap := (hregular.getElem position hposition).2
    simp only [List.getElem?_eq_getElem hposition,
      List.getElem?_eq_getElem (Nat.lt_of_succ_lt hposition), Option.elim_some]
    exact toLong_le_add_one (Env.gettime_nonneg _) (Env.gettime_nonneg _) hgap
  · intro position hposition
    have hle := (hregular.getElem position hposition).1
    simp only [List.getElem?_eq_getElem hposition,
      List.getElem?_eq_getElem (Nat.lt_of_succ_lt hposition), Option.elim_some]
    exact toLong_mono (Env.gettime_nonneg _) hle

/-- A trigger that finds the start of a cycle reached makes an enabled rule fire. -/
theorem Trigger.firesAt_of_reached {index : ℕ} {triggers : List Trigger} {trigger : Trigger}
    (hmem : trigger ∈ triggers) (hupdated : CyclesUpdated trigger.1 trigger.2)
    (henabled : Trigger.CyclicEnabled index triggers) {cycle start : ℤ} (hstart : 0 ≤ start)
    (hentry : trigger.2.clocks[index]? = some (cycle, start))
    (hreached : start ≤ trigger.second) : trigger.FiresAt index := by
  rw [clocks, List.getElem?_map, Option.map_eq_some_iff] at hentry
  obtain ⟨rule, hrule, hclock⟩ := hentry
  rw [Rule.clock, Prod.mk.injEq] at hclock
  have hseen : trigger.seen.rule.rules[index]? = some (rule.cycleUpdate trigger.1) := by
    rw [CyclesUpdated] at hupdated
    rw [Trigger.seen, hupdated, List.getElem?_map, hrule]
    rfl
  obtain ⟨hpos, hopen⟩ := henabled trigger hmem _ hseen
  have hcycle : 0 < rule.cycle := by
    have hkept := congrArg Prod.fst (rule.clock_cycleUpdate trigger.1)
    rw [Rule.tick_fst] at hkept
    exact lt_of_lt_of_eq hpos hkept
  refine ⟨_, hseen, (Rule.emits_iff_due _ _ _).mpr ⟨hopen, Or.inl ?_⟩⟩
  apply Rule.cycleactive_cycleUpdate hcycle
  · exact hclock.2 ▸ hstart
  · exact hclock.2 ▸ hreached

/-- An instant lies a whole number of cycles after the first cycle start. -/
theorem Trigger.IsInstant.exists_eq {first : Trigger} {cycle instant : ℤ} (hcycle : 0 < cycle)
    (h : Trigger.IsInstant first cycle instant) :
    ∃ turns : ℕ, instant = Rule.firstStart first.1 cycle + turns * cycle := by
  obtain ⟨hafter, hinstant⟩ := h
  obtain ⟨_, hlt, hstart⟩ := Rule.firstStart_spec first.1 hcycle
  have hdvd : cycle ∣ instant - Rule.firstStart first.1 cycle := by
    have hsub := dvd_sub hinstant hstart
    rwa [Trigger.second, sub_sub_sub_cancel_right] at hsub
  obtain ⟨turns, hturns⟩ := hdvd
  have hnonneg : 0 ≤ turns := by
    by_contra hneg
    have hle : cycle * turns ≤ cycle * (-1) := mul_le_mul_of_nonneg_left (by omega) hcycle.le
    rw [Trigger.second] at hafter
    omega
  refine ⟨turns.toNat, ?_⟩
  rw [Int.toNat_of_nonneg hnonneg, mul_comm]
  omega

/-- Where all triggers of a run update the cycles, every rule that is cyclic and enabled fires
at the instants of its cycle. -/
theorem firesAtInstants {engine : RuleEngine} (hunset : ∀ shown ∈ engine.clocks, shown.2 < 0)
    (turns : List Turn) (index : ℕ) (hregular : Trigger.Regular (engine.triggers turns))
    (henabled : Trigger.CyclicEnabled index (engine.triggers turns))
    (hupdated : ∀ trigger ∈ engine.triggers turns, CyclesUpdated trigger.1 trigger.2) :
    Trigger.FiresAtInstants index (engine.triggers turns) := by
  intro first rule hfirst hrule instant hinstant position trigger following htrigger hfollowing
    hreached hmissed
  have hticking := Ticking.of_triggers hunset hupdated henabled hfirst hrule
  have hsome : engine.triggers turns ≠ [] := by
    intro hnil
    rw [hnil] at hfirst
    exact Option.some_ne_none first hfirst.symm
  have hpolled := hticking.polled hregular hsome
  obtain ⟨count, rfl⟩ := hinstant.exists_eq hticking.pos
  have hzero : (engine.triggers turns)[0]? = some first := by
    rw [← List.head?_eq_getElem?, hfirst]
  have hstart : (shownAt index (engine.triggers turns) 0).2 =
      Rule.firstStart first.1 rule.cycle := by
    simp only [shownAt, hzero, Option.bind_some, hticking.first first hfirst, Option.getD_some]
  have hposition := (List.getElem?_eq_some_iff.mp hfollowing).1
  obtain ⟨before, hbefore, heq, hnow⟩ := hpolled.punctual count hposition
    (by simpa only [htrigger, Option.elim_some, hstart] using hreached)
    (by
      intro earlier hearlier
      have hlength : earlier < (engine.triggers turns).length := by omega
      simp only [List.getElem?_eq_getElem hlength, Option.elim_some, hstart]
      exact hmissed earlier hearlier _ (List.getElem?_eq_getElem hlength))
  have hfires : ∀ reached, (engine.triggers turns)[before + 1]? = some reached →
      reached.FiresAt index := by
    intro reached hat
    have hlength : before < (engine.triggers turns).length :=
      Nat.lt_of_succ_lt (List.getElem?_eq_some_iff.mp hat).1
    obtain ⟨start, hnonneg, hshown⟩ :=
      hticking.exists_shown (List.getElem?_eq_getElem hlength)
    have hentry := (hticking.later before _ reached _ (List.getElem?_eq_getElem hlength) hat
      hshown).1
    have hdue : start ≤ reached.second := by
      simpa only [shownAt, List.getElem?_eq_getElem hlength, Option.bind_some, hshown,
        Option.getD_some, hat, Option.elim_some] using hnow
    have hmem := List.mem_of_getElem? hat
    exact Trigger.firesAt_of_reached hmem (hupdated reached hmem) henabled hnonneg hentry hdue
  rcases hbefore with hhere | hnext
  · exact Or.inl (hfires trigger (by rw [hhere, htrigger]))
  · exact Or.inr (hfires following (by rw [hnext, hfollowing]))

theorem nextcyclestart_new (env : Env) (file : RuleFile) :
    ((Rule.new env file.memory file.params file.stem).load.init env).nextcyclestart = -1 := by
  have hinit : ∀ rule : Rule, (rule.load.init env).nextcyclestart = rule.nextcyclestart :=
    fun _ => rfl
  have hkept := (Rule.unset env file.memory file.params file.stem).clock_setStoredValidityTime
  rw [hinit]
  simp only [Rule.new]
  exact (Prod.mk.inj hkept).2

theorem clocks_start (env : Env) (files : RuleEngineFiles) :
    ∀ shown ∈ (new env files).start.clocks, shown.2 < 0 := by
  intro shown hshown
  obtain ⟨rule, hrule, rfl⟩ := List.mem_map.mp hshown
  obtain ⟨file, _, rfl⟩ := List.mem_map.mp
    (show rule ∈ (RuleSet.new env files.unsetWforbid files.rules).rules from hrule)
  rw [Rule.clock, nextcyclestart_new]
  exact neg_one_lt_zero

/-- A trigger updates the cycles exactly when no counter is left or nothing needs an
update; and in a run of the engine in which this is so at every trigger, cyclic rules are
punctual. -/
theorem cyclesUpdated_iff (env : Env) (files : RuleEngineFiles) :
    (∀ now engine, CyclesUpdated now engine ↔
      CountersSpent now engine ∨ ∀ rule ∈ engine.rule.rules, rule.UpToDate now) ∧
    ∀ turns index, Trigger.Regular ((new env files).start.triggers turns) →
      Trigger.CyclicEnabled index ((new env files).start.triggers turns) →
      (∀ trigger ∈ (new env files).start.triggers turns,
        CountersSpent trigger.1 trigger.2 ∨
          ∀ rule ∈ trigger.2.rule.rules, rule.UpToDate trigger.1) →
      Trigger.FiresAtInstants index ((new env files).start.triggers turns) :=
  ⟨cyclesUpdated_iff_turn, fun turns index hregular henabled hcondition =>
    firesAtInstants (clocks_start env files) turns index hregular henabled
      fun trigger htrigger => (cyclesUpdated_iff_turn _ _).mpr (hcondition trigger htrigger)⟩

theorem afterNoon_nonneg : (0 : ℚ) ≤ 8683201 := by
  decide +kernel

/-- One second later. -/
def afterNoon : Env where
  gettime := 8683201
  gettime_nonneg := afterNoon_nonneg
  localtime := { RuleSet.noon.localtime with sec := 1, sec_le := Nat.le_add_left 1 59 }
  unsetInt := 0
  unsetDouble := 0

def eventupdateAt (env : Env) : Turn := (env, MMessage.mk2 "trigger" "eventupdate")

/-- A rule with a cycle of one hour beside the counters of the given files. -/
def everyHour (counters : List (String × MParams)) : RuleEngineFiles where
  params := ⟨"", [], none, none⟩
  timeparams := ⟨"", [], none, none⟩
  eventcounters := counters
  conditions := none
  rules := [
    { stem := "beat"
      params := ⟨"rule", [], some ("rule", [⟨"alarm", "generic", "BEAT"⟩,
        ⟨"status", "generic", "ON"⟩, ⟨"cycle", "generic", "3600"⟩]), none⟩
      memory := ⟨0, false, false, false, 0⟩ }]
  unsetWforbid := 0

theorem firesAtInstants_everyHour :
    Trigger.FiresAtInstants 0 ((new RuleSet.noon (everyHour [])).start.triggers
      [eventupdateAt RuleSet.noon, eventupdateAt afterNoon]) := by
  apply (cyclesUpdated_iff RuleSet.noon (everyHour [])).2
  · apply List.isChain_cons.mpr
    refine ⟨?_, List.IsChain.singleton _⟩
    intro later hlater
    obtain rfl := Option.mem_some_iff.mp hlater
    constructor <;> decide +kernel
  · have hopen : ((new RuleSet.noon (everyHour [])).start.triggers
        [eventupdateAt RuleSet.noon, eventupdateAt afterNoon]).all (fun trigger =>
          (trigger.seen.rule.rules[0]?).all fun rule =>
            0 < rule.cycle && rule.fires trigger.1 trigger.seen.given) = true := by
      decide +kernel
    intro trigger htrigger rule hrule
    have hone := List.all_eq_true.mp hopen trigger htrigger
    rw [hrule, Option.all_some, Bool.and_eq_true, decide_eq_true_iff] at hone
    exact ⟨hone.1, ((rule.fires_iff _ _).mp hone.2).1⟩
  · intro trigger htrigger
    have hspent : ((new RuleSet.noon (everyHour [])).start.triggers
        [eventupdateAt RuleSet.noon, eventupdateAt afterNoon]).all (fun trigger =>
          EventCounterSet.total (trigger.2.eventCounter.timeUpdate trigger.1).2 ≤ 0) = true := by
      decide +kernel
    have hone := List.all_eq_true.mp hspent trigger htrigger
    rw [decide_eq_true_iff] at hone
    exact Or.inl hone

/-- A counter of motion events that does not decay. -/
def motionCounter : String × MParams :=
  ("motion", ⟨"motion", [], some ("motion", [⟨"increment", "generic", "1"⟩,
    ⟨"threshold", "generic", "1"⟩, ⟨"accepted_values", "generic", "ON"⟩]), none⟩)

def motion : Turn := (RuleSet.noon, (MMessage.mk2 "event" "motion").add "value" "ON")

/-- After one motion event a trigger leaves the cycle of the rule as it was. -/
theorem not_cyclesUpdated_motion :
    ¬CyclesUpdated afterNoon
      ((new RuleSet.noon (everyHour [motionCounter])).start.run [motion]) := by
  rw [CyclesUpdated]
  decide +kernel

end RuleEngine

end Hat
