import Hat.Core.Machine
import Hat.Manager.DelayQueue
import Mathlib.Tactic.Linarith

/-!
# The decay of an event counter

A counter loses `dDecrement` for every second between two time updates and never falls below
zero.  A time update that delivers a delayed message also writes the time from which the
seconds are counted, so the seconds up to this update are not taken off.
-/

namespace Hat

open Hat.Hsrv Machine

/-- A level with and without a further loss has the same floor exactly when nothing is lost or
there was nothing above the floor. -/
theorem max_zero_eq_max_zero_sub_iff {level loss : ℚ} (hloss : 0 ≤ loss) :
    max 0 level = max 0 (level - loss) ↔ loss = 0 ∨ level ≤ 0 := by
  constructor
  · intro heq
    by_contra hnot
    rw [not_or, not_le] at hnot
    have hpos : 0 < loss := lt_of_le_of_ne hloss (Ne.symm hnot.1)
    rw [max_eq_right hnot.2.le] at heq
    rcases max_choice 0 (level - loss) with hmax | hmax
    · rw [hmax] at heq
      exact absurd heq hnot.2.ne'
    · rw [hmax] at heq
      linarith
  · rintro (rfl | hlevel)
    · rw [sub_zero]
    · rw [max_eq_left hlevel, max_eq_left (by linarith)]

namespace EventCounter

inductive Operation
  | eventUpdate (message : MMessage)
  | timeUpdate
  | clearDQ

/-- An operation and what it reads of its surroundings. -/
structure Call where
  env : Env
  operation : Operation

def Call.time (call : Call) : ℚ := call.env.gettime

def perform (counter : EventCounter) (call : Call) : EventCounter :=
  match call.operation with
  | .eventUpdate message => (counter.eventUpdate call.env message).2.2
  | .timeUpdate => counter.timeUpdate call.env
  | .clearDQ => counter.clearDQ

/-- The next place of the delay queue, if there is a queue, lies in it. -/
def Indexed (counter : EventCounter) : Prop := ∀ queue, counter.dq = some queue → queue.Indexed

/-- A delayed message is due. -/
def isDue (env : Env) (counter : EventCounter) : Bool :=
  counter.dq.any fun queue => queue.isDue env

theorem indexed_new (env : Env) (unloaded : MParams) (nm : String) :
    (new env unloaded nm).Indexed := by
  intro queue hqueue
  simp only [new] at hqueue
  split_ifs at hqueue
  rw [Option.some.injEq] at hqueue
  rw [← hqueue]
  exact fun hne => absurd rfl hne

/-- What an event update leaves of a counter. -/
structure EventStep (before after : EventCounter) : Prop where
  lastTime : after.lastTime = before.lastTime
  dDecrement : after.dDecrement = before.dDecrement
  indexed : before.Indexed → after.Indexed

theorem eventStep (env : Env) (message : MMessage) (counter : EventCounter) :
    EventStep counter (counter.eventUpdate env message).2.2 := by
  rw [eventUpdate]
  split_ifs
  · exact ⟨rfl, rfl, id⟩
  · cases hdq : counter.dq with
    | none =>
        refine ⟨rfl, rfl, fun _ queue hqueue => ?_⟩
        exact absurd (hdq.symm.trans hqueue) (Option.some_ne_none queue).symm
    | some queue =>
        have htaken : counter.Indexed →
            ((queue.messageAppend env message).2.2.messageGet env).2.Indexed := by
          exact fun hindexed => ((hindexed queue hdq).messageAppend message).messageGet
        dsimp only
        cases ((queue.messageAppend env message).2.2.messageGet env).1
        all_goals
          refine ⟨rfl, rfl, fun hindexed after hafter => ?_⟩
          rw [← Option.some.inj hafter]
          exact htaken hindexed

/-- What the delayed message of a time update changes. -/
structure Delivery (env : Env) (before after : EventCounter) : Prop where
  counter : after.counter = before.counter + if before.isDue env then before.dIncrement else 0
  lastTime : after.lastTime = if before.isDue env then env.gettime else before.lastTime
  dDecrement : after.dDecrement = before.dDecrement
  indexed : after.Indexed

theorem delivery (env : Env) {counter : EventCounter} (hindexed : counter.Indexed) :
    Delivery env counter (counter.takeDelayed env) := by
  cases hdq : counter.dq with
  | none =>
      have hdue : counter.isDue env = false := by rw [isDue, hdq]; rfl
      have htake : counter.takeDelayed env = counter := by simp only [takeDelayed, hdq]
      rw [htake]
      refine ⟨?_, ?_, rfl, hindexed⟩
      · rw [hdue, if_neg Bool.false_ne_true, add_zero]
      · rw [hdue, if_neg Bool.false_ne_true]
  | some queue =>
      have hqueue := hindexed queue hdq
      have hdue : counter.isDue env = queue.isDue env := by rw [isDue, hdq]; rfl
      have hsome := DelayQueue.isSome_messageGet env hqueue
      have hafter : ∀ after : EventCounter, after.dq = some (queue.messageGet env).2 →
          after.Indexed := by
        intro after hdq' queue' hqueue'
        rw [← Option.some.inj (hdq'.symm.trans hqueue')]
        exact hqueue.messageGet
      simp only [takeDelayed, hdq]
      cases hget : (queue.messageGet env).1 with
      | none =>
          rw [hget, ← hdue] at hsome
          refine ⟨?_, ?_, rfl, hafter _ rfl⟩
          · rw [← hsome, Option.isSome_none, if_neg Bool.false_ne_true, add_zero]
          · rw [← hsome, Option.isSome_none, if_neg Bool.false_ne_true]
      | some due =>
          rw [hget, ← hdue] at hsome
          refine ⟨?_, ?_, rfl, hafter _ rfl⟩
          · rw [← hsome, Option.isSome_some, if_pos rfl]
            rfl
          · rw [← hsome, Option.isSome_some, if_pos rfl]

theorem counter_timeUpdate (env : Env) (counter : EventCounter) :
    (counter.timeUpdate env).counter =
      max 0 ((counter.takeDelayed env).counter -
        (env.gettime - (counter.takeDelayed env).lastTime) *
          (counter.takeDelayed env).dDecrement) := by
  simp only [timeUpdate]
  split_ifs with hneg
  · rw [max_eq_left hneg.le]
  · rw [max_eq_right (not_lt.mp hneg)]

/-- No decay is lost at a time update: no delayed message is due, or nothing is to be taken
off, or the floor is reached anyway. -/
def LosesNothing (env : Env) (counter : EventCounter) : Prop :=
  counter.isDue env = false ∨ counter.dDecrement * (env.gettime - counter.lastTime) = 0 ∨
    counter.counter + counter.dIncrement ≤ 0

instance (env : Env) (counter : EventCounter) : Decidable (counter.LosesNothing env) :=
  inferInstanceAs (Decidable (_ ∨ _))

/-- The increments of the delayed messages that a time update counts. -/
def counted (env : Env) (counter : EventCounter) : ℚ :=
  match counter.dq.bind fun queue => (queue.messageGet env).1 with
  | some _ => counter.dIncrement
  | none => 0

theorem counted_eq {env : Env} {counter : EventCounter} (hindexed : counter.Indexed) :
    counter.counted env = if counter.isDue env then counter.dIncrement else 0 := by
  cases hdq : counter.dq with
  | none => simp [counted, isDue, hdq]
  | some queue =>
      have hsome := DelayQueue.isSome_messageGet env (hindexed queue hdq)
      have hdue : counter.isDue env = queue.isDue env := by rw [isDue, hdq]; rfl
      rw [hdue, ← hsome, counted, hdq, Option.bind_some]
      cases (queue.messageGet env).1 <;> rfl

/-- The law of a time update: the increments it counts and the decay since `updated`, the time
of the time update before. -/
structure Decays (env : Env) (counter : EventCounter) (updated : ℚ) : Prop where
  nonneg : 0 ≤ (counter.timeUpdate env).counter
  law : (counter.timeUpdate env).counter =
    max 0 (counter.counter + counter.counted env - counter.dDecrement * (env.gettime - updated))

theorem decays_iff {env : Env} {counter : EventCounter} (hindexed : counter.Indexed)
    (hdecrement : 0 ≤ counter.dDecrement) (htime : counter.lastTime ≤ env.gettime) :
    counter.Decays env counter.lastTime ↔ counter.LosesNothing env := by
  have hloss : 0 ≤ counter.dDecrement * (env.gettime - counter.lastTime) :=
    mul_nonneg hdecrement (sub_nonneg.mpr htime)
  have hdelivery := delivery env hindexed
  have hupdate := counter_timeUpdate env counter
  have hnonneg : 0 ≤ (counter.timeUpdate env).counter := hupdate ▸ le_max_left _ _
  have hlaw : counter.Decays env counter.lastTime ↔ (counter.timeUpdate env).counter =
      max 0 (counter.counter + counter.counted env -
        counter.dDecrement * (env.gettime - counter.lastTime)) :=
    ⟨Decays.law, fun law => ⟨hnonneg, law⟩⟩
  rw [hlaw, hupdate, hdelivery.counter, hdelivery.lastTime, hdelivery.dDecrement,
    counted_eq hindexed, LosesNothing]
  cases hdue : counter.isDue env with
  | false =>
      simp only [Bool.false_eq_true, if_false, true_or, iff_true]
      rw [mul_comm]
  | true =>
      simp only [if_true, sub_self, zero_mul, sub_zero, Bool.true_eq_false, false_or]
      exact max_zero_eq_max_zero_sub_iff hloss

/-! ## Runs -/

/-- A counter with the time of its last call and the time of its last time update, or of its
construction. -/
structure Clocked where
  counter : EventCounter
  now : ℚ
  updated : ℚ

namespace Clocked

def start (env : Env) (unloaded : MParams) (nm : String) : Clocked :=
  ⟨EventCounter.new env unloaded nm, env.gettime, env.gettime⟩

def next (state : Clocked) (call : Call) : Clocked :=
  { counter := state.counter.perform call
    now := call.time
    updated := match call.operation with
      | .timeUpdate => call.time
      | _ => state.updated }

/-- The counter measures its decay from the last time update. -/
structure Measured (state : Clocked) : Prop where
  indexed : state.counter.Indexed
  decrement : 0 ≤ state.counter.dDecrement
  lastTime : state.counter.lastTime = state.updated
  past : state.updated ≤ state.now

theorem Measured.next {state : Clocked} {call : Call} (h : state.Measured)
    (hclock : state.now ≤ call.time) : (state.next call).Measured := by
  cases call with
  | mk env operation =>
      cases operation with
      | eventUpdate message =>
          have hstep := eventStep env message state.counter
          refine ⟨hstep.indexed h.indexed, ?_, ?_, h.past.trans hclock⟩
          · exact le_of_le_of_eq h.decrement hstep.dDecrement.symm
          · exact hstep.lastTime.trans h.lastTime
      | timeUpdate =>
          have hdelivery := delivery env h.indexed
          refine ⟨hdelivery.indexed, ?_, rfl, le_refl _⟩
          exact le_of_le_of_eq h.decrement hdelivery.dDecrement.symm
      | clearDQ =>
          refine ⟨?_, h.decrement, h.lastTime, h.past.trans hclock⟩
          intro queue hqueue
          obtain ⟨before, -, rfl⟩ := Option.map_eq_some_iff.mp hqueue
          exact fun hne => absurd rfl hne

/-- Every time update of the run obeys the law. -/
def DecaysAt (state : Clocked) (call : Call) : Prop :=
  call.operation = .timeUpdate → state.counter.Decays call.env state.updated

def LosesNothingAt (state : Clocked) (call : Call) : Prop :=
  call.operation = .timeUpdate → state.counter.LosesNothing call.env

theorem decaysAt_iff {state : Clocked} {call : Call} (h : state.Measured)
    (hclock : state.now ≤ call.time) : state.DecaysAt call ↔ state.LosesNothingAt call := by
  apply imp_congr_right
  intro _
  rw [← h.lastTime]
  exact EventCounter.decays_iff h.indexed h.decrement (h.lastTime ▸ h.past.trans hclock)

/-- Over any calls on a clock that never goes back, the time updates obey the law exactly when
no decay is lost at any of them. -/
theorem decays_along_iff (env : Env) (unloaded : MParams) (nm : String)
    (hdecrement : 0 ≤ (EventCounter.new env unloaded nm).dDecrement) (calls : List Call)
    (hclock : (env.gettime :: calls.map Call.time).Pairwise fun earlier later => earlier ≤ later) :
    Along (total next) DecaysAt (start env unloaded nm) calls ↔
      Along (total next) LosesNothingAt (start env unloaded nm) calls := by
  have hmeasured : (start env unloaded nm).Measured :=
    ⟨indexed_new env unloaded nm, hdecrement, rfl, le_refl _⟩
  have honTime : Along (total next) (fun state call => state.now ≤ call.time)
      (start env unloaded nm) calls := by
    apply along_of_clock Clocked.now Call.time _ hclock
    rintro state call _ ⟨⟩
    rfl
  apply along_iff_within _ _ hmeasured honTime
  · exact fun state call h hcall => decaysAt_iff h hcall
  · rintro state call _ h hcall _ ⟨⟩
    exact h.next hcall

/-- A door that counts ten for every opening, five seconds late, and decays by one a second. -/
def doorFile : MParams :=
  ⟨"event", [⟨"increment", "generic", "10"⟩, ⟨"decrement", "generic", "1"⟩,
    ⟨"delay", "generic", "5"⟩, ⟨"alias", "generic", "door"⟩,
    ⟨"accepted_values", "generic", "open"⟩], none, none⟩

/-- Ten seconds into the first night. -/
def later : Env := { firstNight with gettime := 11055, gettime_nonneg := by decide +kernel }

/-- The door opens; ten seconds later the counter is updated. -/
def doorCalls : List Call :=
  [⟨firstNight, .eventUpdate ((MMessage.mk2 "event" "door").add "value" "open")⟩,
    ⟨later, .timeUpdate⟩]

theorem decays_along_door :
    Along (total next) DecaysAt (start firstNight doorFile "door") doorCalls ↔
      Along (total next) LosesNothingAt (start firstNight doorFile "door") doorCalls :=
  decays_along_iff firstNight doorFile "door" (by decide +kernel) doorCalls (by decide +kernel)

/-- The counter stands at ten, although ten seconds have passed since it was built. -/
theorem not_decays_door :
    0 ≤ (EventCounter.new firstNight doorFile "door").dDecrement ∧
      (firstNight.gettime :: doorCalls.map Call.time).Pairwise
        (fun earlier later => earlier ≤ later) ∧
      ¬Along (total next) DecaysAt (start firstNight doorFile "door") doorCalls := by
  refine ⟨by decide +kernel, by decide +kernel, ?_⟩
  intro hdecays
  have hlaw := ((hdecays.2 _ rfl).1 rfl).law
  exact absurd hlaw (by decide +kernel)

end Clocked

end EventCounter

end Hat
