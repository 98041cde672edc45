import Hat.Manager.RuleWindow
import Mathlib.Data.List.Induction

/-!
# The edge of a rule without clauses

A rule without clauses and without a cycle has nothing to wait for but its gate, and fires
when the gate begins to pass.  The edge is kept in three flags with a time each.  While a
program is in force that does not list the rule, none of the flags changes.
-/

namespace Hat

open Hat.Hsrv

namespace Rule

/-- One call of `match`: the clock it reads and what it is given. -/
abbrev MatchCall := Env × Circumstances

/-- The gate: the test of the program, that of the active list and those of the conditions. -/
structure Passes (rule : Rule) (given : Circumstances) : Prop where
  program : rule.ProgramOpen given
  trueConditions : rule.TrueOpen given
  falseConditions : rule.FalseOpen given

/-- The program is on, but the rule is not in the active list. -/
structure Suspended (rule : Rule) (given : Circumstances) : Prop where
  mode : rule.behavior = "programon"
  unlisted : rule.isRuleActive given.active = false
  program : given.prgstatus = true

instance (rule : Rule) (given : Circumstances) : Decidable (rule.Suspended given) :=
  decidable_of_iff (rule.behavior = "programon" ∧ rule.isRuleActive given.active = false ∧
      given.prgstatus = true)
    ⟨fun h => ⟨h.1, h.2.1, h.2.2⟩, fun h => ⟨h.mode, h.unlisted, h.program⟩⟩

def afterCall (rule : Rule) (call : MatchCall) : Rule := (rule.matchRule call.1 call.2 []).2.1

def afterCalls (rule : Rule) (calls : List MatchCall) : Rule := calls.foldl afterCall rule

/-- Each of the three times is the old one or that of the call. -/
structure Stamped (time : ℚ) (before after : MatchState) : Prop where
  program : after.prconditionTime = before.prconditionTime ∨ after.prconditionTime = time
  active : after.tconditionTime = before.tconditionTime ∨ after.tconditionTime = time
  inactive : after.fconditionTime = before.fconditionTime ∨ after.fconditionTime = time

/-- All three flags are raised. -/
structure Raised (state : MatchState) : Prop where
  program : state.prcondition = true
  active : state.tcondition = true
  inactive : state.fcondition = true

theorem ok_bind {ε β γ : Type} (value : β) (next : β → Except ε γ) :
    (Except.ok value >>= next) = next value := rfl

theorem not_programOpen_of_suspended {rule : Rule} {given : Circumstances}
    (hsuspended : rule.Suspended given) : ¬rule.ProgramOpen given := by
  intro hopen
  have hlisted := (hopen.1 hsuspended.mode).1
  rw [hsuspended.unlisted] at hlisted
  exact Bool.false_ne_true hlisted

theorem programGate_of_closed {rule : Rule} {given : Circumstances} (hstatus : rule.status = .on)
    (hclosed : ¬rule.ProgramOpen given) (state : MatchState) :
    rule.programGate given state =
      .error (if rule.Suspended given then state else { state with prcondition := false }) := by
  have hsuspended : rule.Suspended given ↔ rule.behavior = "programon" ∧
      rule.isRuleActive given.active = false ∧ given.prgstatus = true :=
    ⟨fun h => ⟨h.mode, h.unlisted, h.program⟩, fun h => ⟨h.1, h.2.1, h.2.2⟩⟩
  simp only [programGate, ProgramOpen, hsuspended] at hclosed ⊢
  by_cases hon : rule.behavior = "programon"
  · cases hlisted : rule.isRuleActive given.active <;> cases hprogram : given.prgstatus <;>
      simp_all
  · by_cases hoff : rule.behavior = "programoff"
    · cases hprogram : given.prgstatus <;> simp_all
    · simp_all

theorem gates_of_open {rule : Rule} {given : Circumstances} (hstatus : rule.status = .on)
    (hopen : rule.ProgramOpen given) (env : Env) :
    rule.gates env given = (do
      let state ← rule.trueGate given (notePrcondition env.gettime rule.state)
      let state ← rule.falseGate given (noteTcondition env.gettime state)
      rule.eventGate env.gettime
        (rule.noteEvcondition env.gettime given.counters (noteFcondition env.gettime state))) := by
  rw [gates, (programGate_eq_ok given rule rule.state rule.state).mpr ⟨⟨hstatus, hopen⟩, rfl⟩]
  rfl

theorem trueGate_of_closed {rule : Rule} {given : Circumstances} (hclosed : ¬rule.TrueOpen given)
    (state : MatchState) :
    rule.trueGate given state = .error { state with tcondition := false } := by
  simp only [TrueOpen, not_forall, not_le] at hclosed
  obtain ⟨conditions, hgiven, hlisted, hfew⟩ := hclosed
  rw [trueGate, hgiven]
  exact if_pos ⟨hlisted, hfew⟩

theorem falseGate_of_closed {rule : Rule} {given : Circumstances}
    (hclosed : ¬rule.FalseOpen given) (state : MatchState) :
    rule.falseGate given state = .error { state with fcondition := false } := by
  simp only [FalseOpen, not_forall, not_le] at hclosed
  obtain ⟨conditions, hgiven, hlisted, hfew⟩ := hclosed
  rw [falseGate, hgiven]
  exact if_pos ⟨hlisted, hfew⟩

theorem stamped_notePrcondition (time : ℚ) (state : MatchState) :
    Stamped time state (notePrcondition time state) := by
  rw [notePrcondition]
  split
  · exact ⟨Or.inl rfl, Or.inl rfl, Or.inl rfl⟩
  · exact ⟨Or.inr rfl, Or.inl rfl, Or.inl rfl⟩

theorem stamped_noteTcondition (time : ℚ) (state : MatchState) :
    Stamped time state (noteTcondition time state) := by
  rw [noteTcondition]
  split
  · exact ⟨Or.inl rfl, Or.inl rfl, Or.inl rfl⟩
  · exact ⟨Or.inl rfl, Or.inr rfl, Or.inl rfl⟩

theorem Stamped.trans {time : ℚ} {first second third : MatchState}
    (hfirst : Stamped time first second) (hsecond : Stamped time second third) :
    Stamped time first third := by
  refine ⟨?_, ?_, ?_⟩
  · rcases hsecond.program with hold | hnew
    · rw [hold]
      exact hfirst.program
    · exact Or.inr hnew
  · rcases hsecond.active with hold | hnew
    · rw [hold]
      exact hfirst.active
    · exact Or.inr hnew
  · rcases hsecond.inactive with hold | hnew
    · rw [hold]
      exact hfirst.inactive
    · exact Or.inr hnew

/-- The flags and times as `match` leaves them. -/
def stateAfter (rule : Rule) (call : MatchCall) : MatchState :=
  match rule.gates call.1 call.2 with
  | .error state => state
  | .ok state => rule.settle call.1 state

theorem afterCall_eq (rule : Rule) (call : MatchCall) :
    rule.afterCall call = { rule with state := rule.stateAfter call } := by
  rw [afterCall, matchRule, stateAfter]
  cases rule.gates call.1 call.2 <;> rfl

theorem stateAfter_of_suspended {rule : Rule} {call : MatchCall} (hstatus : rule.status = .on)
    (hsuspended : rule.Suspended call.2) : rule.stateAfter call = rule.state := by
  rw [stateAfter, gates,
    programGate_of_closed hstatus (not_programOpen_of_suspended hsuspended), if_pos hsuspended]
  rfl

/-- A call that is not suspended and whose gate does not pass lowers one of the flags. -/
theorem stateAfter_of_closed {rule : Rule} {call : MatchCall} (hstatus : rule.status = .on)
    (hlisted : ¬rule.Suspended call.2) (hclosed : ¬rule.Passes call.2) :
    ¬Raised (rule.stateAfter call) ∧ Stamped call.1.gettime rule.state (rule.stateAfter call) := by
  by_cases hprogram : rule.ProgramOpen call.2
  · by_cases htrue : rule.TrueOpen call.2
    · have hfalse : ¬rule.FalseOpen call.2 := fun hfalse => hclosed ⟨hprogram, htrue, hfalse⟩
      have hafter : rule.stateAfter call = { noteTcondition call.1.gettime
          (notePrcondition call.1.gettime rule.state) with fcondition := false } := by
        rw [stateAfter, gates_of_open hstatus hprogram,
          (trueGate_eq_ok call.2 rule _ _).mpr ⟨htrue, rfl⟩, ok_bind,
          falseGate_of_closed hfalse]
        rfl
      rw [hafter]
      refine ⟨fun hraised => Bool.false_ne_true hraised.inactive, ?_⟩
      have hnoted := (stamped_notePrcondition call.1.gettime rule.state).trans
        (stamped_noteTcondition call.1.gettime _)
      exact ⟨hnoted.program, hnoted.active, hnoted.inactive⟩
    · have hafter : rule.stateAfter call =
          { notePrcondition call.1.gettime rule.state with tcondition := false } := by
        rw [stateAfter, gates_of_open hstatus hprogram, trueGate_of_closed htrue]
        rfl
      rw [hafter]
      refine ⟨fun hraised => Bool.false_ne_true hraised.active, ?_⟩
      have hnoted := stamped_notePrcondition call.1.gettime rule.state
      exact ⟨hnoted.program, hnoted.active, hnoted.inactive⟩
  · have hafter : rule.stateAfter call = { rule.state with prcondition := false } := by
      rw [stateAfter, gates, programGate_of_closed hstatus hprogram, if_neg hlisted]
      rfl
    rw [hafter]
    exact ⟨fun hraised => Bool.false_ne_true hraised.program, Or.inl rfl, Or.inl rfl, Or.inl rfl⟩

theorem gates_of_passes {rule : Rule} {given : Circumstances} (hstatus : rule.status = .on)
    (hpasses : rule.Passes given) (env : Env) :
    rule.gates env given = rule.eventGate env.gettime (rule.noted env given) := by
  rw [gates_of_open hstatus hpasses.program,
    (trueGate_eq_ok given rule _ _).mpr ⟨hpasses.trueConditions, rfl⟩, ok_bind,
    (falseGate_eq_ok given rule _ _).mpr ⟨hpasses.falseConditions, rfl⟩, ok_bind]
  rfl

theorem noted_flags (env : Env) (given : Circumstances) (rule : Rule) :
    Raised (rule.noted env given) := by
  refine ⟨?_, ?_, ?_⟩
  all_goals
    simp only [noted, noteEvcondition, noteFcondition, noteTcondition, notePrcondition]
    repeat' split
    all_goals simp_all

theorem stamped_noted (env : Env) (given : Circumstances) (rule : Rule) :
    Stamped env.gettime rule.state (rule.noted env given) := by
  obtain ⟨hprogram, hactive, hinactive⟩ := rule.noted_times env given
  have hchoice : ∀ (flag : Bool) (earlier : ℚ),
      (if flag then earlier else env.gettime) = earlier ∨
        (if flag then earlier else env.gettime) = env.gettime := by
    intro flag earlier
    cases flag <;> simp
  exact ⟨hprogram ▸ hchoice _ _, hactive ▸ hchoice _ _, hinactive ▸ hchoice _ _⟩

theorem eventGate_cases (time : ℚ) (rule : Rule) (state : MatchState) :
    rule.eventGate time state = .error state ∨ rule.eventGate time state = .ok state := by
  simp only [eventGate]
  repeat' split
  all_goals simp

/-- A call whose gate passes raises all flags. -/
theorem stateAfter_of_passes {rule : Rule} {call : MatchCall} (hstatus : rule.status = .on)
    (hpasses : rule.Passes call.2) :
    Raised (rule.stateAfter call) ∧ Stamped call.1.gettime rule.state (rule.stateAfter call) := by
  have hraised := noted_flags call.1 call.2 rule
  have hstamped := stamped_noted call.1 call.2 rule
  rw [stateAfter, gates_of_passes hstatus hpasses]
  rcases eventGate_cases call.1.gettime rule (rule.noted call.1 call.2) with hevent | hevent
  · rw [hevent]
    exact ⟨hraised, hstamped⟩
  · rw [hevent]
    exact ⟨⟨hraised.program, hraised.active, hraised.inactive⟩,
      hstamped.program, hstamped.active, hstamped.inactive⟩

/-- The status is on, and there are no clauses. -/
structure Plain (rule : Rule) : Prop where
  status : rule.status = .on
  mincond : rule.mincond = 0

theorem fires_of_plain {rule : Rule} (hplain : rule.Plain) (env : Env) (given : Circumstances) :
    rule.fires env given = true ↔
      rule.Passes given ∧ (rule.state.cycleactive = true ∨ rule.JustMet env) := by
  have hcounted : rule.isCounted given.counters = true := by
    rw [isCounted, hplain.mincond]
    exact decide_eq_true (Int.natCast_nonneg _)
  have henabled : rule.Enabled env given ↔ rule.Passes given := by
    constructor
    · intro h
      exact ⟨h.program, h.trueConditions, h.falseConditions⟩
    · intro h
      refine ⟨hplain.status, h.program, h.trueConditions, h.falseConditions, ?_⟩
      intro hmin
      exact absurd hmin (by rw [hplain.mincond]; decide)
  rw [fires_iff, henabled, Triggered, hcounted]
  simp only [hplain.mincond, true_and, forall_const]

/-- After a call whose gate passes the cycle is not active. -/
theorem cycleactive_of_passes {rule : Rule} {call : MatchCall} (hplain : rule.Plain)
    (hpasses : rule.Passes call.2) : (rule.stateAfter call).cycleactive = false := by
  have hgates := gates_of_passes hplain.status hpasses call.1
  rw [stateAfter, hgates]
  rcases eventGate_cases call.1.gettime rule (rule.noted call.1 call.2) with hevent | hevent
  · have hnotfires : ¬rule.fires call.1 call.2 = true := by
      rw [fires, hgates, hevent]
      exact Bool.false_ne_true
    rw [fires_of_plain hplain] at hnotfires
    rw [hevent]
    dsimp only
    rw [noted_cycleactive]
    by_contra hactive
    exact hnotfires ⟨hpasses, Or.inl (by simpa using hactive)⟩
  · rw [hevent]
    rfl

/-! ## The edge over a run -/

/-- The last call that was not suspended had an open gate. -/
def LastPasses (rule : Rule) (before : List MatchCall) : Prop :=
  ∃ last ∈ (before.filter fun call => !rule.Suspended call.2).getLast?, rule.Passes last.2

/-- The flags are raised exactly when the last call had an open gate, and were raised earlier
than any later call. -/
structure Tracks (rule : Rule) (before : List MatchCall) (state : MatchState) : Prop where
  raised : rule.LastPasses before ↔ Raised state
  cycleactive : rule.LastPasses before → state.cycleactive = false
  program : ∀ time, 0 < time → (∀ call ∈ before, call.1.gettime < time) →
    state.prconditionTime < time
  active : ∀ time, 0 < time → (∀ call ∈ before, call.1.gettime < time) →
    state.tconditionTime < time
  inactive : ∀ time, 0 < time → (∀ call ∈ before, call.1.gettime < time) →
    state.fconditionTime < time

theorem lastPasses_append_of_suspended {rule : Rule} {call : MatchCall}
    (hsuspended : rule.Suspended call.2) (before : List MatchCall) :
    rule.LastPasses (before ++ [call]) ↔ rule.LastPasses before := by
  simp [LastPasses, List.filter_append, hsuspended]

theorem lastPasses_append_of_not_suspended {rule : Rule} {call : MatchCall}
    (hlisted : ¬rule.Suspended call.2) (before : List MatchCall) :
    rule.LastPasses (before ++ [call]) ↔ rule.Passes call.2 := by
  simp [LastPasses, List.filter_append, hlisted]

/-- A flag that keeps its time or takes that of the call stays earlier than later calls. -/
theorem lt_of_stamped {before : List MatchCall} {call : MatchCall} {old new : ℚ}
    (hnew : new = old ∨ new = call.1.gettime)
    (hold : ∀ time, 0 < time → (∀ earlier ∈ before, earlier.1.gettime < time) → old < time)
    (time : ℚ) (hpos : 0 < time)
    (hlater : ∀ earlier ∈ before ++ [call], earlier.1.gettime < time) : new < time := by
  rcases hnew with rfl | rfl
  · apply hold time hpos
    intro earlier hearlier
    exact hlater earlier (List.mem_append_left _ hearlier)
  · exact hlater call (List.mem_append_right _ List.mem_cons_self)

theorem matchRule_fst (env : Env) (given : Circumstances) (rule : Rule)
    (answer : List MMessage) :
    (rule.matchRule env given answer).1 = rule.fires env given := by
  rw [matchRule, fires]
  cases rule.gates env given <;> rfl

/-- The rule in another state. -/
def inState (state : MatchState) (rule : Rule) : Rule := { rule with state := state }

theorem tracks_stateAfter {rule : Rule} (hplain : rule.Plain) {before : List MatchCall}
    {state : MatchState} (htracks : rule.Tracks before state) (call : MatchCall) :
    rule.Tracks (before ++ [call]) ((rule.inState state).stateAfter call) := by
  have hplain' : (rule.inState state).Plain := ⟨hplain.status, hplain.mincond⟩
  by_cases hsuspended : rule.Suspended call.2
  · rw [stateAfter_of_suspended hplain'.status ⟨hsuspended.mode, hsuspended.unlisted,
      hsuspended.program⟩]
    have hstays : ∀ {held : ℚ}, held = held ∨ held = call.1.gettime := Or.inl rfl
    refine ⟨?_, ?_, ?_, ?_, ?_⟩
    · rw [lastPasses_append_of_suspended hsuspended]
      exact htracks.raised
    · rw [lastPasses_append_of_suspended hsuspended]
      exact htracks.cycleactive
    · exact lt_of_stamped hstays htracks.program
    · exact lt_of_stamped hstays htracks.active
    · exact lt_of_stamped hstays htracks.inactive
  · have hpasses : (rule.inState state).Passes call.2 ↔ rule.Passes call.2 :=
      ⟨fun h => ⟨h.program, h.trueConditions, h.falseConditions⟩,
        fun h => ⟨h.program, h.trueConditions, h.falseConditions⟩⟩
    have hlisted : ¬(rule.inState state).Suspended call.2 :=
      fun h => hsuspended ⟨h.mode, h.unlisted, h.program⟩
    have hafter : ((rule.inState state).Passes call.2 ↔
        Raised ((rule.inState state).stateAfter call)) ∧
          Stamped call.1.gettime state ((rule.inState state).stateAfter call) := by
      by_cases hopen : (rule.inState state).Passes call.2
      · obtain ⟨hraised, hstamped⟩ := stateAfter_of_passes hplain'.status hopen
        exact ⟨iff_of_true hopen hraised, hstamped⟩
      · obtain ⟨hlowered, hstamped⟩ := stateAfter_of_closed hplain'.status hlisted hopen
        exact ⟨iff_of_false hopen hlowered, hstamped⟩
    obtain ⟨hraised, hstamped⟩ := hafter
    refine ⟨?_, ?_, ?_, ?_, ?_⟩
    · rw [lastPasses_append_of_not_suspended hsuspended, ← hpasses]
      exact hraised
    · rw [lastPasses_append_of_not_suspended hsuspended, ← hpasses]
      exact cycleactive_of_passes hplain'
    · exact lt_of_stamped hstamped.program htracks.program
    · exact lt_of_stamped hstamped.active htracks.active
    · exact lt_of_stamped hstamped.inactive htracks.inactive

/-- Along a run only the flags change, and they track the gate. -/
theorem tracks_afterCalls {rule : Rule} (hplain : rule.Plain) (hstart : rule.Tracks [] rule.state)
    (before : List MatchCall) :
    ∃ state, rule.afterCalls before = rule.inState state ∧ rule.Tracks before state := by
  induction before using List.reverseRecOn with
  | nil => exact ⟨rule.state, rfl, hstart⟩
  | append_singleton before call ih =>
      obtain ⟨state, hafter, htracks⟩ := ih
      refine ⟨(rule.inState state).stateAfter call, ?_, tracks_stateAfter hplain htracks call⟩
      rw [afterCalls, List.foldl_concat]
      rw [afterCalls] at hafter
      rw [hafter, afterCall_eq]
      rfl

/-- At a call later than all before it, the rule fires when its gate passes and did not pass
at the last call that was not suspended. -/
theorem fires_of_tracks {rule : Rule} (hplain : rule.Plain) {before : List MatchCall}
    {state : MatchState} (htracks : rule.Tracks before state) {call : MatchCall}
    (hlater : ∀ earlier ∈ before, earlier.1.gettime < call.1.gettime) :
    (rule.inState state).fires call.1 call.2 = true ↔
      rule.Passes call.2 ∧ ¬rule.LastPasses before := by
  have hplain' : (rule.inState state).Plain := ⟨hplain.status, hplain.mincond⟩
  have hpasses : (rule.inState state).Passes call.2 ↔ rule.Passes call.2 :=
    ⟨fun h => ⟨h.program, h.trueConditions, h.falseConditions⟩,
      fun h => ⟨h.program, h.trueConditions, h.falseConditions⟩⟩
  rw [fires_of_plain hplain', hpasses]
  apply and_congr_right
  intro _
  by_cases hlast : rule.LastPasses before
  · have hraised := htracks.raised.mp hlast
    have hpos : 0 < call.1.gettime := by
      obtain ⟨last, hmem, _⟩ := hlast
      have hbefore := List.mem_of_mem_filter (List.mem_of_getLast? hmem)
      exact lt_of_le_of_lt last.1.gettime_nonneg (hlater last hbefore)
    have hold : ¬(rule.inState state).JustMet call.1 := by
      intro hjust
      exact hjust ⟨hraised.program, htracks.program _ hpos hlater, hraised.active,
        htracks.active _ hpos hlater, hraised.inactive, htracks.inactive _ hpos hlater⟩
    have hcycle : (rule.inState state).state.cycleactive = false := htracks.cycleactive hlast
    simp [hlast, hold, hcycle]
  · have hlowered : ¬Raised state := fun h => hlast (htracks.raised.mpr h)
    have hjust : (rule.inState state).JustMet call.1 := by
      rintro ⟨hprogram, _, hactive, _, hinactive, _⟩
      exact hlowered ⟨hprogram, hactive, hinactive⟩
    simp [hlast, hjust]

theorem state_new (env : Env) (memory : RuleMemory) (unloaded : MParams) (nm : String) :
    (new env memory unloaded nm).state = (unset env memory unloaded nm).state := by
  obtain ⟨params, fromTime, toTime, midnight, _, hwindow⟩ :=
    (unset env memory unloaded nm).setStoredValidityTime_eq
  simp only [new, hwindow]

theorem state_init (env : Env) (rule : Rule) : (rule.init env).state = rule.state := rfl

/-- Construction lowers the flag of the program and sets the times to zero. -/
theorem tracks_init (env : Env) (memory : RuleMemory) (unloaded : MParams) (nm : String) :
    ((new env memory unloaded nm).init env).Tracks []
      ((new env memory unloaded nm).init env).state := by
  rw [state_init, state_new]
  generalize (new env memory unloaded nm).init env = rule
  have hnone : ¬rule.LastPasses [] := by
    rintro ⟨last, hlast, _⟩
    exact Option.not_mem_none _ hlast
  refine ⟨?_, fun h => absurd h hnone, ?_, ?_, ?_⟩
  · exact iff_of_false hnone fun h => Bool.false_ne_true h.program
  all_goals exact fun time hpos _ => hpos

theorem plain_init {rule : Rule} (env : Env) (hstatus : rule.status = .on)
    (hclauses : (rule.init env).condition = []) : (rule.init env).Plain := by
  refine ⟨hstatus, ?_⟩
  have hlength := congrArg List.length hclauses
  simp only [init, List.length_nil] at hlength ⊢
  simp [hlength]

/-- The times of the calls increase. -/
def Increasing (calls : List MatchCall) : Prop :=
  calls.Pairwise fun earlier later => earlier.1.gettime < later.1.gettime

/-- A rule without clauses whose status is on fires, at any call of any run, exactly when its
gate passes and did not pass at the last call that was not suspended. -/
theorem matchRule_iff_rises (env : Env) (memory : RuleMemory) (unloaded : MParams) (nm : String)
    (hstatus : (new env memory unloaded nm).status = .on)
    (hclauses : ((new env memory unloaded nm).init env).condition = [])
    (before : List MatchCall) (call : MatchCall) (hincreasing : Increasing (before ++ [call]))
    (answer : List MMessage) :
    ((((new env memory unloaded nm).init env).afterCalls before).matchRule
        call.1 call.2 answer).1 = true ↔
      ((new env memory unloaded nm).init env).Passes call.2 ∧
        ¬((new env memory unloaded nm).init env).LastPasses before := by
  have hplain := plain_init env hstatus hclauses
  have hstart := tracks_init env memory unloaded nm
  have hlater : ∀ earlier ∈ before, earlier.1.gettime < call.1.gettime := by
    intro earlier hearlier
    exact (List.pairwise_append.mp hincreasing).2.2 earlier hearlier call List.mem_cons_self
  generalize (new env memory unloaded nm).init env = rule at hplain hstart ⊢
  obtain ⟨state, hafter, htracks⟩ := tracks_afterCalls hplain hstart before
  rw [hafter, matchRule_fst]
  exact fires_of_tracks hplain htracks hlater

/-- The rule fires at a call exactly when its gate passes and did not pass at the call before. -/
def FiresOnRise (rule : Rule) (calls : List MatchCall) : Prop :=
  ∀ before call after, calls = before ++ call :: after →
    ((rule.afterCalls before).fires call.1 call.2 = true ↔
      rule.Passes call.2 ∧ ∀ last ∈ before.getLast?, ¬rule.Passes last.2)

/-- A rule for one alarm that follows the program. -/
def sirenRule : Rule :=
  (new firstNight ⟨0, false, false, false, 0⟩ ⟨"rule", [], some ("rule",
    [⟨"alarm", "generic", "siren"⟩, ⟨"mode", "generic", "programon"⟩,
      ⟨"status", "generic", "ON"⟩]), none⟩ "siren").init firstNight

/-- A call with the program on, in a second of the first night. -/
def listing (second : ℕ) (active : List String) : MatchCall :=
  ({ firstNight with gettime := second, gettime_nonneg := Nat.cast_nonneg second },
    ⟨active, true, [], none⟩)

/-- The siren is listed, then another program without it is on, then it is listed again. -/
def sirenCalls : List MatchCall := [listing 1 ["siren"], listing 2 [], listing 3 ["siren"]]

theorem matchRule_siren :
    ((sirenRule.afterCalls [listing 1 ["siren"]]).matchRule (listing 2 []).1 (listing 2 []).2
        []).1 = true ↔
      sirenRule.Passes (listing 2 []).2 ∧ ¬sirenRule.LastPasses [listing 1 ["siren"]] :=
  matchRule_iff_rises firstNight ⟨0, false, false, false, 0⟩ _ "siren" (by decide +kernel)
    (by decide +kernel) [listing 1 ["siren"]] (listing 2 [])
    (by rw [Increasing]; simp [listing]) []

/-- The second rise is missed. -/
theorem not_firesOnRise_siren :
    sirenRule.status = .on ∧ sirenRule.condition = [] ∧ sirenRule.cycle ≤ 0 ∧
      Increasing sirenCalls ∧ ¬FiresOnRise sirenRule sirenCalls := by
  refine ⟨by decide +kernel, by decide +kernel, by decide +kernel, ?_, ?_⟩
  · rw [Increasing, sirenCalls]
    simp [listing]
    norm_num
  · intro hrises
    have hthird := hrises [listing 1 ["siren"], listing 2 []] (listing 3 ["siren"]) [] rfl
    have hpasses : sirenRule.Passes (listing 3 ["siren"]).2 := by
      refine ⟨⟨fun _ => ?_, fun _ => ?_⟩, ?_, ?_⟩
      · decide +kernel
      · exact absurd ‹_› (by decide +kernel)
      · exact fun _ h => nomatch h
      · exact fun _ h => nomatch h
    have hclosed : ∀ last ∈ [listing 1 ["siren"], listing 2 []].getLast?,
        ¬sirenRule.Passes last.2 := by
      intro last hlast hopen
      rw [List.getLast?_cons_cons, List.getLast?_singleton, Option.mem_some_iff] at hlast
      subst hlast
      exact absurd (hopen.program.1 (by decide +kernel)).1 (by decide +kernel)
    exact absurd (hthird.mpr ⟨hpasses, hclosed⟩) (by decide +kernel)

end Rule

end Hat
