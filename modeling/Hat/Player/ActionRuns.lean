import Hat.Player.ActionSet
import Mathlib.Algebra.Order.Floor.Ring
import Mathlib.Tactic.Linarith
import Mathlib.Tactic.NormNum

/-!
# Every accepted call has its command sent

A thread that has not read the delay yet reads that of the last call.  As long as the calls for
an action whose threads are still to read agree on the time, every accepted call is followed by
one command after its own delay.
-/

namespace Hat.Player

open Hat.Hsrv

theorem toLong_nonpos {value : ℚ} (hvalue : value ≤ 0) : toLong value ≤ 0 := by
  rw [toLong]
  split_ifs with h
  · rw [le_antisymm hvalue h, Int.floor_zero]
  · exact Int.ceil_le.mpr (by simpa using hvalue)

theorem toInt_nonpos {env : Env} {value : ℚ} (hlower : -2147483649 < value) (hvalue : value ≤ 0) :
    toInt env value ≤ 0 := by
  rw [toInt, if_pos ⟨hlower, by linarith⟩]
  exact toLong_nonpos hvalue

theorem toInt_eq_floor {env : Env} {value : ℚ} (hvalue : 0 ≤ value)
    (hupper : value < 2147483648) : toInt env value = ⌊value⌋ := by
  rw [toInt, if_pos ⟨by linarith, hupper⟩, toLong, if_pos hvalue]

/-- A time that is not positive is not slept. -/
theorem nanosleep_of_nonpos {tvSec tvNsec : ℤ} (hsec : tvSec ≤ 0)
    (hnsec : tvSec = 0 → tvNsec ≤ 0) : nanosleep tvSec tvNsec = 0 := by
  rw [nanosleep]
  split_ifs with h
  · obtain rfl : tvSec = 0 := le_antisymm hsec h.1
    obtain rfl : tvNsec = 0 := le_antisymm (hnsec rfl) h.2.1
    simp
  · rfl

/-- Seconds and nanoseconds together are the time in nanoseconds. -/
theorem nanosleep_floor {waittime : ℚ} (hwait : 0 ≤ waittime) :
    nanosleep ⌊waittime⌋ ⌊1000000000 * (waittime - ⌊waittime⌋)⌋ =
      ⌊1000000000 * waittime⌋ / 1000000000 := by
  have hfract : 0 ≤ waittime - ⌊waittime⌋ := by linarith [Int.floor_le waittime]
  have hlt : waittime - ⌊waittime⌋ < 1 := by linarith [Int.lt_floor_add_one waittime]
  have hnsec : 0 ≤ ⌊1000000000 * (waittime - ⌊waittime⌋)⌋ :=
    Int.floor_nonneg.mpr (by positivity)
  have hnsecLt : ⌊1000000000 * (waittime - ⌊waittime⌋)⌋ < 1000000000 :=
    Int.floor_lt.mpr (by push_cast; linarith)
  have hsum : (1000000000 * waittime : ℚ) =
      1000000000 * (waittime - ⌊waittime⌋) + (1000000000 * ⌊waittime⌋ : ℤ) := by
    push_cast
    ring
  rw [nanosleep, if_pos ⟨Int.floor_nonneg.mpr hwait, hnsec, hnsecLt⟩, hsum, Int.floor_add_intCast]
  push_cast
  ring

theorem waitOf_eq_some {d : String} {wait : ℚ} (hwait : waitOf d = some wait) (hd : d ≠ "") :
    ∃ value, scanDouble d.toList = some value ∧ -2147483649 < value / 10 ∧
      value / 10 < 2147483648 ∧ wait = wholeNanos (value / 10) := by
  rw [waitOf, if_neg hd, Option.bind_eq_some_iff] at hwait
  obtain ⟨value, hvalue, hwait⟩ := hwait
  split_ifs at hwait with hrange
  exact ⟨value, hvalue, hrange.1, hrange.2, (Option.some.inj hwait).symm⟩

/-- A thread sleeps for the time that the delay it reads stands for. -/
theorem sleepTime_eq {d : String} {wait : ℚ} (hwait : waitOf d = some wait) (hd : d ≠ "")
    (env : Env) : sleepTime env d = wait := by
  obtain ⟨value, hscan, hlower, hupper, rfl⟩ := waitOf_eq_some hwait hd
  have hvalue : a2double env d = value := by
    rw [a2double, hscan, Option.getD_some]
  rw [sleepTime, hvalue, wholeNanos]
  generalize value / 10 = waittime at hlower hupper ⊢
  split_ifs with hneg
  · have hsec : toInt env waittime ≤ 0 := toInt_nonpos hlower hneg.le
    refine nanosleep_of_nonpos hsec fun hzero => ?_
    have hceil : -1 < waittime := by
      rw [toInt, if_pos ⟨hlower, hupper⟩, toLong, if_neg (not_le.mpr hneg),
        Int.ceil_eq_iff] at hzero
      simpa using hzero.1
    simp only [hzero, Int.cast_zero, sub_zero]
    exact toInt_nonpos (by linarith) (by linarith)
  · have hnonneg : 0 ≤ waittime := not_lt.mp hneg
    have hfract : 0 ≤ waittime - ⌊waittime⌋ := by linarith [Int.floor_le waittime]
    have hlt : waittime - ⌊waittime⌋ < 1 := by linarith [Int.lt_floor_add_one waittime]
    simp only [toInt_eq_floor hnonneg hupper]
    rw [toInt_eq_floor (by positivity) (by linarith), nanosleep_floor hnonneg]

/-- A deadline is not before the end of the delay, unless there is none. -/
theorem waitOf_le {d : String} {wait : ℚ} (hwait : waitOf d = some wait) (env : Env) :
    wait = 0 ∨ wait ≤ a2double env d / 10 := by
  by_cases hd : d = ""
  · rw [waitOf, if_pos hd, Option.some.injEq] at hwait
    exact Or.inl hwait.symm
  · obtain ⟨value, hscan, -, -, rfl⟩ := waitOf_eq_some hwait hd
    rw [a2double, hscan, Option.getD_some, wholeNanos]
    split_ifs
    · exact Or.inl rfl
    · refine Or.inr ?_
      have hfloor := Int.floor_le (1000000000 * (value / 10))
      linarith

namespace Phase

/-- What the thread has still to read stands for its own time while this is the action's delay. -/
def Takes (delay : String) (own : Option ℚ) : Phase → Prop
  | created => waitOf delay = own
  | built _ => waitOf delay = own
  | looked _ => waitOf delay = own ∧ delay ≠ ""
  | asleep _ _ _ => True
  | finished _ _ _ _ => True

instance (delay : String) (own : Option ℚ) (phase : Phase) : Decidable (phase.Takes delay own) :=
  match phase with
  | created => inferInstanceAs (Decidable (waitOf delay = own))
  | built _ => inferInstanceAs (Decidable (waitOf delay = own))
  | looked _ => inferInstanceAs (Decidable (waitOf delay = own ∧ delay ≠ ""))
  | asleep _ _ _ => inferInstanceAs (Decidable True)
  | finished _ _ _ _ => inferInstanceAs (Decidable True)

/-- When the sleep began and how long it takes. -/
def sleep : Phase → Option (ℚ × ℚ)
  | asleep _ since wait => some (since, wait)
  | finished _ since wait _ => some (since, wait)
  | _ => none

end Phase

namespace PlayerState

def emissions (state : PlayerState) (i : ℕ) : List Emission :=
  state.emitted.filter fun e => e.thread = i

/-- The delay of a call fits, and the threads of the action that have not read theirs were asked
for with the same one. -/
def Apart (state : PlayerState) (move : Move) : Prop :=
  match move.act with
  | .exec name d => ∀ i ∈ state.find name, ∀ action ∈ state.actions[i]?,
      (action.params.get "status" = "ON" → (waitOf d).isSome) ∧
        ∀ pair ∈ state.threads.zip state.accepted, pair.1.obj = i →
          pair.1.phase.Takes d (waitOf pair.2.delay)
  | _ => True

instance (state : PlayerState) (move : Move) : Decidable (state.Apart move) :=
  match move with
  | ⟨_, .exec name _⟩ => inferInstanceAs (Decidable (∀ i ∈ state.find name, _))
  | ⟨_, .setStatus _ _⟩ => inferInstanceAs (Decidable True)
  | ⟨_, .purge⟩ => inferInstanceAs (Decidable True)
  | ⟨_, .join⟩ => inferInstanceAs (Decidable True)
  | ⟨_, .run _⟩ => inferInstanceAs (Decidable True)

/-- The request was accepted as the given one. -/
def Asked (state : PlayerState) (i : ℕ) (request : Request) : Prop :=
  state.accepted[i]? = some request

/-- The one command that a request is for, after its own delay. -/
def Sent (state : PlayerState) (i : ℕ) (request : Request) : Prop :=
  ∃ time wait, state.emissions i = [⟨i, request.command, time⟩] ∧
    waitOf request.delay = some wait ∧ request.time + wait ≤ time

/-- Each accepted call has one thread, which sleeps for the delay of that call; nothing or one
command has been sent for it, and in the first case the thread can still send it.  Whoever was
waited for had had time to sleep. -/
structure Serves (state : PlayerState) : Prop where
  threads : state.threads.length = state.accepted.length
  once : ∀ {i : ℕ} {request : Request}, state.Asked i request →
    state.emissions i = [] ∨ state.Sent i request
  own : ∀ {i : ℕ} {request : Request} {thread : Thread} {since wait : ℚ}, state.Asked i request →
    state.threads[i]? = some thread → thread.phase.sleep = some (since, wait) →
      waitOf request.delay = some wait ∧ request.time ≤ since
  sends : ∀ {i : ℕ} {request : Request}, state.Asked i request →
    ∃ (moves : List Move) (final : PlayerState), (∀ move ∈ moves, move.act = .run i) ∧
      Machine.exec step state moves = some final ∧ final.Sent i request
  only : ∀ e ∈ state.emitted, ∃ request, state.Asked e.thread request
  joined : ∀ join ∈ state.joined, ∃ request wait, state.Asked join.thread request ∧
    waitOf request.delay = some wait ∧ request.time + wait ≤ join.time

end PlayerState

/-! ## The invariant -/

/-- What a thread has read so far is right. -/
def Phase.Keeps (request : Request) : Phase → Prop
  | created => True
  | built out => out = request.command
  | looked out => out = request.command
  | asleep out since wait =>
      out = request.command ∧ waitOf request.delay = some wait ∧ request.time ≤ since
  | finished out since wait time =>
      (out = request.command ∧ waitOf request.delay = some wait ∧ request.time ≤ since) ∧
        since + wait ≤ time

/-- What a thread has sent. -/
def Thread.output (i : ℕ) (thread : Thread) : List Emission :=
  match thread.phase with
  | .finished out _ _ time => [⟨i, out, time⟩]
  | _ => []

theorem Phase.thread_sends {i : ℕ} {time : ℚ} {phase : Phase} {e : Emission}
    (he : e ∈ phase.sends i time) : e.thread = i := by
  cases phase with
  | asleep out since wait => rw [List.mem_singleton.mp he]
  | created => exact absurd he List.not_mem_nil
  | built out => exact absurd he List.not_mem_nil
  | looked out => exact absurd he List.not_mem_nil
  | finished out since wait time => exact absurd he List.not_mem_nil

theorem Thread.output_next {i : ℕ} {env : Env} {action : Action} {thread : Thread} {phase : Phase}
    (hphase : thread.phase.next env action = some phase) :
    Thread.output i ⟨thread.obj, phase⟩ =
      Thread.output i thread ++ thread.phase.sends i env.gettime := by
  obtain ⟨obj, old⟩ := thread
  cases old with
  | created =>
      obtain rfl := Option.some.inj hphase
      rfl
  | built out =>
      obtain rfl := Option.some.inj hphase
      split_ifs
      · rfl
      · rfl
  | looked out =>
      obtain rfl := Option.some.inj hphase
      rfl
  | asleep out since wait =>
      rw [Phase.next] at hphase
      split_ifs at hphase
      obtain rfl := Option.some.inj hphase
      rfl
  | finished out since wait time => cases hphase

/-- What a thread reads on the way to its next point is right. -/
theorem Phase.Takes.next {env : Env} {action : Action} {request : Request} {wait : ℚ}
    {phase other : Phase} (h : phase.Takes action.delay (waitOf request.delay))
    (hcommand : action.command = request.command) (hwait : waitOf request.delay = some wait)
    (hpast : request.time ≤ env.gettime) (hkeeps : phase.Keeps request)
    (hother : phase.next env action = some other) :
    other.Takes action.delay (waitOf request.delay) ∧ other.Keeps request := by
  cases phase with
  | created =>
      obtain rfl := Option.some.inj hother
      exact ⟨h, hcommand⟩
  | built out =>
      obtain rfl := Option.some.inj hother
      split_ifs with hdelay
      · exact ⟨⟨h, hdelay⟩, hkeeps⟩
      · have hnone : waitOf request.delay = some 0 := by
          rw [← h, not_not.mp hdelay]
          rfl
        exact ⟨trivial, hkeeps, hnone, hpast⟩
  | looked out =>
      obtain rfl := Option.some.inj hother
      rw [sleepTime_eq (h.1.trans hwait) h.2 env]
      exact ⟨trivial, hkeeps, hwait, hpast⟩
  | asleep out since wait =>
      rw [Phase.next] at hother
      split_ifs at hother with htime
      obtain rfl := Option.some.inj hother
      exact ⟨trivial, hkeeps, htime⟩
  | finished out since wait time => cases hother

/-- A thread and its request fit the action that they are for. -/
structure Follows (actions : List Action) (now : ℚ) (thread : Thread) (request : Request) :
    Prop where
  obj : thread.obj = request.obj
  action : ∃ action, actions[request.obj]? = some action ∧ action.command = request.command ∧
    thread.phase.Takes action.delay (waitOf request.delay)
  fits : (waitOf request.delay).isSome
  keeps : thread.phase.Keeps request
  past : request.time ≤ now

namespace PlayerState

/-- The time with which deadlines are compared. -/
def purgeTime (state : PlayerState) : ℚ :=
  match state.main with
  | .idle => state.now
  | .purging tt _ => tt

/-- A thread whose deadline has passed has had the time for its delay. -/
def Elapses (state : PlayerState) (entry : ThreadEntry) : Prop :=
  ∃ request wait, state.Asked entry.th request ∧ waitOf request.delay = some wait ∧
    (request.time + wait ≤ entry.deadline ∨ request.time + wait ≤ state.purgeTime)

structure Inv (state : PlayerState) : Prop where
  threads : state.threads.length = state.accepted.length
  follows : ∀ {i : ℕ} {thread : Thread} {request : Request},
    state.threads[i]? = some thread → state.Asked i request →
    Follows state.actions state.now thread request
  emissions : ∀ i, state.emissions i = (state.threads[i]?).elim [] (Thread.output i)
  entries : ∀ {i : ℕ} {action : Action}, state.actions[i]? = some action → ∀ entry ∈ action.ths,
    state.Elapses entry
  joined : ∀ join ∈ state.joined, ∃ request wait, state.Asked join.thread request ∧
    waitOf request.delay = some wait ∧ request.time + wait ≤ join.time
  purgeTime_le : state.purgeTime ≤ state.now

variable {state : PlayerState}

theorem inv_initial (params : List MParams) (now : ℚ) : (initial params now).Inv where
  threads := rfl
  follows := fun hthread => by simp [initial] at hthread
  emissions := fun i => by simp [initial, PlayerState.emissions]
  entries := by
    intro i action haction entry hentry
    simp only [initial, List.getElem?_map, Option.map_eq_some_iff] at haction
    obtain ⟨p, -, rfl⟩ := haction
    exact absurd hentry List.not_mem_nil
  joined := fun join hjoin => absurd hjoin List.not_mem_nil
  purgeTime_le := le_refl now

/-- Time passes. -/
theorem Inv.tick (h : state.Inv) {time : ℚ} (htime : state.now ≤ time) :
    Inv { state with now := time } where
  threads := h.threads
  follows := by
    intro i thread request hthread hasked
    have hfollows := h.follows hthread hasked
    exact { hfollows with past := hfollows.past.trans htime }
  emissions := h.emissions
  entries := by
    intro i action haction entry hentry
    obtain ⟨request, wait, hasked, hwait, hdue⟩ := h.entries haction entry hentry
    refine ⟨request, wait, hasked, hwait, hdue.imp id fun hdue => hdue.trans ?_⟩
    cases hmain : state.main with
    | idle => simpa [purgeTime, hmain] using htime
    | purging tt i => simp [purgeTime, hmain]
  joined := h.joined
  purgeTime_le := by
    have hle := h.purgeTime_le
    cases hmain : state.main with
    | idle => simp [purgeTime]
    | purging tt i =>
        simp only [purgeTime, hmain] at hle ⊢
        exact hle.trans htime

/-- The engine's thread goes on. -/
theorem Inv.setMain (h : state.Inv) {main : Main}
    (htime : state.purgeTime ≤ { state with main := main }.purgeTime)
    (hle : { state with main := main }.purgeTime ≤ state.now) :
    Inv { state with main := main } where
  threads := h.threads
  follows := h.follows
  emissions := h.emissions
  entries := by
    intro i action haction entry hentry
    obtain ⟨request, wait, hrequest, hwait, hdue⟩ := h.entries haction entry hentry
    exact ⟨request, wait, hrequest, hwait, hdue.imp id fun hdue => hdue.trans htime⟩
  joined := h.joined
  purgeTime_le := hle

/-- An action is replaced by one with the same command. -/
theorem Inv.setAction (h : state.Inv) {k : ℕ} {action other : Action}
    (haction : state.actions[k]? = some action) (hcommand : other.command = action.command)
    (htakes : ∀ {i : ℕ} {thread : Thread} {request : Request},
      state.threads[i]? = some thread → state.Asked i request →
      thread.obj = k → thread.phase.Takes other.delay (waitOf request.delay))
    (hentries : ∀ entry ∈ other.ths, state.Elapses entry) :
    (state.setAction k other).Inv where
  threads := h.threads
  follows := by
    intro i thread request hthread hasked
    have hfollows := h.follows hthread hasked
    obtain ⟨own, hown, hsame, hread⟩ := hfollows.action
    refine { hfollows with action := ?_ }
    by_cases hk : k = request.obj
    · have hlt : k < state.actions.length := (List.getElem?_eq_some_iff.mp haction).1
      refine ⟨other, ?_, ?_, htakes hthread hasked (hfollows.obj.trans hk.symm)⟩
      · rw [← hk, PlayerState.setAction, List.getElem?_set_self hlt]
      · rw [← hk, haction, Option.some.injEq] at hown
        rw [hcommand, hown, hsame]
    · exact ⟨own, by rw [PlayerState.setAction, List.getElem?_set_ne hk, hown], hsame, hread⟩
  emissions := h.emissions
  entries := by
    intro i changed hchanged entry hentry
    by_cases hk : k = i
    · rw [← hk, PlayerState.setAction, List.getElem?_set, if_pos rfl] at hchanged
      split_ifs at hchanged
      obtain rfl := Option.some.inj hchanged
      exact hentries entry hentry
    · rw [PlayerState.setAction, List.getElem?_set_ne hk] at hchanged
      exact h.entries hchanged entry hentry
  joined := h.joined
  purgeTime_le := h.purgeTime_le

theorem Inv.setAction_of_delay (h : state.Inv) {k : ℕ} {action other : Action}
    (haction : state.actions[k]? = some action) (hcommand : other.command = action.command)
    (hdelay : other.delay = action.delay) (hentries : ∀ entry ∈ other.ths, state.Elapses entry) :
    (state.setAction k other).Inv := by
  refine h.setAction haction hcommand (fun hthread hasked hobj => ?_) hentries
  have hfollows := h.follows hthread hasked
  obtain ⟨own, hown, -, hread⟩ := hfollows.action
  rw [← hfollows.obj, hobj, haction, Option.some.injEq] at hown
  rw [hdelay, hown]
  exact hread

theorem getElem?_append_singleton {α : Type*} {list : List α} {last item : α} {i : ℕ} :
    (list ++ [last])[i]? = some item ↔
      list[i]? = some item ∨ i = list.length ∧ last = item := by
  rcases lt_trichotomy i list.length with hlt | rfl | hgt
  · rw [List.getElem?_append_left hlt]
    simp [hlt.ne]
  · simp
  · have hnone : list[i]? = none := List.getElem?_eq_none hgt.le
    have hlong : (list ++ [last])[i]? = none := by
      apply List.getElem?_eq_none
      rw [List.length_append, List.length_singleton]
      exact hgt
    simp [hnone, hlong, hgt.ne']

theorem Asked.spawn {i : ℕ} {request : Request} (h : state.Asked i request) (other : Request) :
    (state.spawn other).Asked i request :=
  getElem?_append_singleton.mpr (Or.inl h)

theorem Inv.spawn (h : state.Inv) {request : Request} {action : Action}
    (haction : state.actions[request.obj]? = some action)
    (hcommand : action.command = request.command) (hdelay : action.delay = request.delay)
    (hfits : (waitOf request.delay).isSome) (htime : request.time ≤ state.now) :
    (state.spawn request).Inv where
  threads := by
    rw [PlayerState.spawn, List.length_append, List.length_append, h.threads]
    rfl
  follows := by
    intro i thread own hthread hown
    rcases getElem?_append_singleton.mp hthread with hthread | ⟨hi, rfl⟩
    · rcases getElem?_append_singleton.mp hown with hown | ⟨hi, -⟩
      · exact h.follows hthread hown
      · have hlt := (List.getElem?_eq_some_iff.mp hthread).1
        rw [h.threads] at hlt
        exact absurd hi hlt.ne
    · rcases getElem?_append_singleton.mp hown with hown | ⟨-, rfl⟩
      · have hlt := (List.getElem?_eq_some_iff.mp hown).1
        rw [← h.threads] at hlt
        exact absurd hi hlt.ne
      · exact ⟨rfl, ⟨action, haction, hcommand, congrArg waitOf hdelay⟩, hfits, trivial, htime⟩
  emissions := by
    intro i
    refine (h.emissions i).trans ?_
    rw [PlayerState.spawn]
    rcases lt_trichotomy i state.threads.length with hlt | rfl | hgt
    · rw [List.getElem?_append_left hlt]
    · simp [Thread.output]
    · have hlong : state.threads.length + [(⟨request.obj, .created⟩ : Thread)].length ≤ i := hgt
      rw [List.getElem?_eq_none hgt.le, List.getElem?_eq_none (by rwa [List.length_append])]
  entries := by
    intro i own hown entry hentry
    obtain ⟨asked, wait, hasked, hwait, hdue⟩ := h.entries hown entry hentry
    exact ⟨asked, wait, hasked.spawn request, hwait, hdue⟩
  joined := by
    intro join hjoin
    obtain ⟨asked, wait, hasked, hwait, hdue⟩ := h.joined join hjoin
    exact ⟨asked, wait, hasked.spawn request, hwait, hdue⟩
  purgeTime_le := h.purgeTime_le

/-- A thread goes on to another phase, and what it has sent goes with it. -/
theorem Inv.setPhase (h : state.Inv) {i : ℕ} {thread : Thread} {request : Request}
    {action : Action} (hthread : state.threads[i]? = some thread)
    (hasked : state.Asked i request) (haction : state.actions[thread.obj]? = some action)
    {phase : Phase} {emitted : List Emission}
    (htakes : phase.Takes action.delay (waitOf request.delay)) (hkeeps : phase.Keeps request)
    (hemitted : ∀ j, (emitted.filter fun e => e.thread = j) =
      if j = i then Thread.output i ⟨thread.obj, phase⟩ else state.emissions j) :
    Inv { state.setPhase i thread.obj phase with emitted := emitted } where
  threads := by simpa [PlayerState.setPhase] using h.threads
  follows := by
    intro j other asked hother hrequest
    by_cases hj : i = j
    · subst hj
      simp only [PlayerState.setPhase, List.getElem?_set, if_true] at hother
      split_ifs at hother
      obtain rfl := Option.some.inj hother
      obtain rfl : request = asked := Option.some.inj (hasked.symm.trans hrequest)
      have hfollows := h.follows hthread hasked
      obtain ⟨own, hown, hsame, -⟩ := hfollows.action
      have heq : action = own := by
        rw [hfollows.obj, hown, Option.some.injEq] at haction
        exact haction.symm
      rw [← heq] at hown hsame
      exact ⟨hfollows.obj, ⟨action, hown, hsame, htakes⟩, hfollows.fits, hkeeps, hfollows.past⟩
    · simp only [PlayerState.setPhase, List.getElem?_set_ne hj] at hother
      exact h.follows hother hrequest
  emissions := by
    intro j
    refine (hemitted j).trans ?_
    have hlt := (List.getElem?_eq_some_iff.mp hthread).1
    by_cases hj : j = i
    · rw [if_pos hj, hj]
      simp [PlayerState.setPhase, hlt]
    · rw [if_neg hj, h.emissions j]
      simp [PlayerState.setPhase, List.getElem?_set_ne (Ne.symm hj)]
  entries := h.entries
  joined := h.joined
  purgeTime_le := h.purgeTime_le

/-- Every thread has its request. -/
theorem Inv.exists_request (h : state.Inv) {i : ℕ} {thread : Thread}
    (hthread : state.threads[i]? = some thread) : ∃ request, state.Asked i request := by
  have hlt := (List.getElem?_eq_some_iff.mp hthread).1
  rw [h.threads] at hlt
  exact ⟨_, List.getElem?_eq_getElem hlt⟩

theorem Inv.run (h : state.Inv) {i : ℕ} {env : Env} {next : PlayerState}
    (henv : env.gettime = state.now) (hnext : state.run env i = some next) : next.Inv := by
  rw [PlayerState.run, Option.bind_eq_some_iff] at hnext
  obtain ⟨thread, hthread, hnext⟩ := hnext
  obtain ⟨action, haction, hnext⟩ := Option.bind_eq_some_iff.mp hnext
  obtain ⟨phase, hphase, rfl⟩ := Option.map_eq_some_iff.mp hnext
  obtain ⟨request, hasked⟩ := h.exists_request hthread
  have hfollows := h.follows hthread hasked
  obtain ⟨own, hown, hcommand, hread⟩ := hfollows.action
  rw [← hfollows.obj, haction, Option.some.injEq] at hown
  rw [← hown] at hcommand hread
  obtain ⟨wait, hwait⟩ := Option.isSome_iff_exists.mp hfollows.fits
  obtain ⟨htakes, hkeeps⟩ := hread.next hcommand hwait (henv ▸ hfollows.past) hfollows.keeps hphase
  refine h.setPhase hthread hasked haction htakes hkeeps fun j => ?_
  have hown : state.emissions i = Thread.output i thread := by
    rw [h.emissions i, hthread]
    rfl
  rw [List.filter_append, ← PlayerState.emissions, Thread.output_next hphase]
  split_ifs with hj
  · rw [hj, hown, List.filter_eq_self.mpr]
    exact fun e he => decide_eq_true (Phase.thread_sends he)
  · rw [List.filter_eq_nil_iff.mpr, List.append_nil]
    intro e he heq
    exact hj ((of_decide_eq_true heq).symm.trans (Phase.thread_sends he))

/-- The delay is replaced, and if the call is accepted a thread is started and its deadline is
added. -/
theorem Inv.exec (h : state.Inv) {env : Env} {name d : String} (henv : env.gettime = state.now)
    (hmain : state.main = .idle) (hapart : state.Apart ⟨env, .exec name d⟩) :
    (state.exec env name d).Inv := by
  rw [PlayerState.exec]
  cases hfind : state.find name with
  | none => exact h
  | some k =>
      cases haction : state.actions[k]? with
      | none => simpa [haction] using h
      | some action =>
          obtain ⟨hfits, hpairs⟩ := hapart k hfind action haction
          have hdelayed : (state.setAction k { action with delay := d }).Inv := by
            refine h.setAction haction rfl (fun hthread hasked hobj => hpairs (_, _) ?_ hobj) ?_
            · exact List.mem_of_getElem? (List.getElem?_zip_eq_some.mpr ⟨hthread, hasked⟩)
            · exact fun entry hentry => h.entries haction entry hentry
          simp only [haction, Action.exec]
          by_cases hstatus : action.params.get "status" = "ON"
          · have hlt : k < state.actions.length := (List.getElem?_eq_some_iff.mp haction).1
            have hself : (state.setAction k { action with delay := d }).actions[k]? =
                some { action with delay := d } := List.getElem?_set_self hlt
            let request : Request := ⟨k, action.command, d, env.gettime⟩
            let entry : ThreadEntry :=
              ⟨env.gettime + a2double env d / 10 + 30, state.threads.length⟩
            let spawned := (state.setAction k { action with delay := d }).spawn request
            have hspawned : spawned.Inv := hdelayed.spawn hself rfl rfl (hfits hstatus) henv.le
            have hself : spawned.actions[k]? = some { action with delay := d } := hself
            obtain ⟨wait, hwait⟩ := Option.isSome_iff_exists.mp (hfits hstatus)
            have hentry : spawned.Elapses entry := by
              refine ⟨request, wait, ?_, hwait, ?_⟩
              · exact getElem?_append_singleton.mpr (Or.inr ⟨h.threads, rfl⟩)
              · have hnow : spawned.purgeTime = state.now := by
                  simp [spawned, purgeTime, PlayerState.spawn, PlayerState.setAction, hmain]
                rcases waitOf_le hwait env with rfl | hle
                · refine Or.inr ?_
                  rw [hnow, add_zero]
                  exact henv.le
                · refine Or.inl ?_
                  simp only [request, entry]
                  linarith
            have hnew : (spawned.setAction k
                { action with delay := d, ths := action.ths ++ [entry] }).Inv :=
              hspawned.setAction_of_delay hself rfl rfl (List.forall_mem_append.mpr
                ⟨fun own hown => hspawned.entries hself own hown,
                  List.forall_mem_singleton.mpr hentry⟩)
            simpa [hstatus, spawned, PlayerState.setAction, PlayerState.spawn, List.set_set]
              using hnew
          · simpa [hstatus] using hdelayed

theorem command_setStatus (value : String) (action : Action) :
    (action.setStatus value).command = action.command := by
  have hcmd : "status" ≠ "cmd" := by decide
  have hvalue : "status" ≠ "value" := by decide
  simp only [Action.command, Action.setStatus, MParams.get_save,
    MParams.get_set_of_ne _ _ hcmd, MParams.get_set_of_ne _ _ hvalue]

theorem Inv.setStatus (h : state.Inv) (i : ℕ) (value : String) :
    (state.setStatus i value).Inv := by
  rw [PlayerState.setStatus]
  cases haction : state.actions[i]? with
  | none => exact h
  | some action =>
      exact h.setAction_of_delay haction (command_setStatus value action) rfl
        fun entry hentry => h.entries haction entry hentry

theorem Inv.join (h : state.Inv) {next : PlayerState} (hnext : state.join = some next) :
    next.Inv := by
  rw [PlayerState.join] at hnext
  cases hmain : state.main with
  | idle => simp [hmain] at hnext
  | purging tt i =>
      have htt : state.purgeTime = tt := by
        rw [purgeTime, hmain]
      have hle : tt ≤ state.now := htt ▸ h.purgeTime_le
      simp only [hmain] at hnext
      cases haction : state.actions[i]? with
      | none =>
          simp only [haction, Option.some.injEq] at hnext
          subst hnext
          exact h.setMain (by rwa [htt]) (le_refl _)
      | some action =>
          simp only [haction] at hnext
          cases hexpired : action.expired tt with
          | none =>
              simp only [hexpired, Option.some.injEq] at hnext
              subst hnext
              exact h.setMain (by rw [htt]; exact le_refl _) hle
          | some j =>
              simp only [hexpired] at hnext
              obtain ⟨entry, hentry, hnext⟩ := Option.bind_eq_some_iff.mp hnext
              split_ifs at hnext
              obtain rfl := Option.some.inj hnext
              have hmem : entry ∈ action.ths := List.mem_of_getElem? hentry
              have hpassed : entry.deadline < tt := by
                obtain ⟨hlt, hdeadline, -⟩ := List.findIdx?_eq_some_iff_getElem.mp hexpired
                have hsame : action.ths[j] = entry := (List.getElem?_eq_some_iff.mp hentry).2
                rw [hsame] at hdeadline
                exact of_decide_eq_true hdeadline
              have herased :
                  (state.setAction i { action with ths := action.ths.eraseIdx j }).Inv :=
                h.setAction_of_delay haction rfl rfl
                  fun own hown => h.entries haction own (List.mem_of_mem_eraseIdx hown)
              refine { herased with joined := ?_ }
              rw [List.forall_mem_append, List.forall_mem_singleton]
              refine ⟨herased.joined, ?_⟩
              obtain ⟨request, wait, hasked, hwait, hdue⟩ := h.entries haction entry hmem
              refine ⟨request, wait, hasked, hwait, ?_⟩
              rcases hdue with hdue | hdue
              · exact hdue.trans hpassed.le
              · exact hdue.trans htt.le

theorem Inv.perform (h : state.Inv) {env : Env} (henv : env.gettime = state.now) {act : Act}
    {next : PlayerState} (hapart : state.Apart ⟨env, act⟩)
    (hnext : perform env state act = some next) : next.Inv := by
  cases act with
  | exec name d =>
      simp only [PlayerState.perform] at hnext
      split_ifs at hnext with hmain
      obtain rfl := Option.some.inj hnext
      exact h.exec henv hmain hapart
  | setStatus i value =>
      simp only [PlayerState.perform] at hnext
      split_ifs at hnext
      obtain rfl := Option.some.inj hnext
      exact h.setStatus i value
  | purge =>
      simp only [PlayerState.perform] at hnext
      split_ifs at hnext with hmain
      obtain rfl := Option.some.inj hnext
      exact h.setMain (by simp [purgeTime, hmain, henv]) (by simp [purgeTime, henv])
  | join => exact h.join hnext
  | run i => exact h.run henv hnext

/-- A step of a run keeps the invariant. -/
theorem Inv.step (h : state.Inv) {move : Move} {next : PlayerState} (hapart : state.Apart move)
    (hnext : state.step move = some next) : next.Inv := by
  rw [PlayerState.step] at hnext
  split_ifs at hnext with hclock
  exact (h.tick (not_lt.mp hclock)).perform rfl hapart hnext

/-! ## Threads come to their end -/

/-- The points that a thread has before it. -/
def stepsLeft : Phase → ℕ
  | .created => 4
  | .built _ => 3
  | .looked _ => 2
  | .asleep _ _ _ => 1
  | .finished _ _ _ _ => 0

/-- Surroundings at a time to come. -/
def later (time : ℚ) : Env :=
  { firstNight with gettime := max 0 time, gettime_nonneg := le_max_left 0 time }

theorem exists_next (phase : Phase) (action : Action) (now : ℚ) (hleft : stepsLeft phase ≠ 0) :
    ∃ time other, now ≤ time ∧ phase.next (later time) action = some other ∧
      stepsLeft other < stepsLeft phase := by
  cases phase with
  | created => exact ⟨now, _, le_refl _, rfl, Nat.lt_succ_self 3⟩
  | built out =>
      refine ⟨now, _, le_refl _, rfl, ?_⟩
      split_ifs
      · exact Nat.lt_succ_self 2
      · exact Nat.lt_succ_of_lt (Nat.lt_succ_self 1)
  | looked out => exact ⟨now, _, le_refl _, rfl, Nat.lt_succ_self 1⟩
  | asleep out since wait =>
      -- the step is taken when the sleep is over
      have hover : since + wait ≤ (later (max now (since + wait))).gettime :=
        (le_max_right _ _).trans (le_max_right _ _)
      exact ⟨max now (since + wait), _, le_max_left _ _, if_pos hover, Nat.lt_succ_self 0⟩
  | finished out since wait time => exact absurd rfl hleft

/-- A thread that has not come to its end can go on. -/
theorem Inv.exists_run (h : state.Inv) {i : ℕ} {thread : Thread}
    (hthread : state.threads[i]? = some thread) (hleft : stepsLeft thread.phase ≠ 0) :
    ∃ move next other, move.act = .run i ∧ state.step move = some next ∧ next.Inv ∧
      next.accepted = state.accepted ∧ next.threads[i]? = some other ∧
      stepsLeft other.phase < stepsLeft thread.phase := by
  obtain ⟨request, hasked⟩ := h.exists_request hthread
  have hfollows := h.follows hthread hasked
  obtain ⟨action, haction, -, -⟩ := hfollows.action
  rw [← hfollows.obj] at haction
  obtain ⟨time, phase, htime, hphase, hless⟩ := exists_next thread.phase action state.now hleft
  have hclock : ¬(later time).gettime < state.now := not_lt.mpr (htime.trans (le_max_right 0 time))
  have hstep : state.step ⟨later time, .run i⟩ =
      some { PlayerState.setPhase i thread.obj phase { state with now := (later time).gettime } with
        emitted := state.emitted ++ thread.phase.sends i (later time).gettime } := by
    rw [PlayerState.step, if_neg hclock]
    simp [PlayerState.perform, PlayerState.run, hthread, haction, hphase, PlayerState.setPhase]
  have hlt : i < state.threads.length := (List.getElem?_eq_some_iff.mp hthread).1
  exact ⟨_, _, ⟨thread.obj, phase⟩, rfl, hstep, h.step (by rw [Apart]; trivial) hstep, rfl,
    List.getElem?_set_self hlt, hless⟩

/-- Whatever else happened, a thread can go on by itself until its message is sent. -/
theorem Inv.exists_runs {i : ℕ} (n : ℕ) {state : PlayerState} (h : state.Inv) {thread : Thread}
    (hthread : state.threads[i]? = some thread) (hleft : stepsLeft thread.phase ≤ n) :
    ∃ (moves : List Move) (final : PlayerState) (other : Thread),
      (∀ move ∈ moves, move.act = .run i) ∧
      Machine.exec PlayerState.step state moves = some final ∧ final.Inv ∧
      final.accepted = state.accepted ∧ final.threads[i]? = some other ∧
      stepsLeft other.phase = 0 := by
  induction n generalizing state thread with
  | zero =>
      exact ⟨[], state, thread, fun move hmove => absurd hmove List.not_mem_nil, rfl, h, rfl,
        hthread, Nat.le_zero.mp hleft⟩
  | succ n ih =>
      by_cases hdone : stepsLeft thread.phase = 0
      · exact ⟨[], state, thread, fun move hmove => absurd hmove List.not_mem_nil, rfl, h, rfl,
          hthread, hdone⟩
      · obtain ⟨move, next, other, hmove, hnext, hinv, haccepted, hother, hless⟩ :=
          h.exists_run hthread hdone
        obtain ⟨moves, final, last, hmoves, hexec, hfinal, hsame, hlast, hzero⟩ :=
          ih hinv hother (by omega)
        refine ⟨move :: moves, final, last, List.forall_mem_cons.mpr ⟨hmove, hmoves⟩, ?_, hfinal,
          hsame.trans haccepted, hlast, hzero⟩
        exact Machine.exec_cons_eq_some.mpr ⟨next, hnext, hexec⟩

/-- What a thread has sent is its command after its own delay, and it has sent it at its end. -/
theorem Inv.sent_iff (h : state.Inv) {i : ℕ} {thread : Thread} {request : Request}
    (hthread : state.threads[i]? = some thread) (hasked : state.Asked i request) :
    if stepsLeft thread.phase = 0 then state.Sent i request else state.emissions i = [] := by
  have hemissions : state.emissions i = Thread.output i thread := by
    rw [h.emissions i, hthread]
    rfl
  have hkeeps := (h.follows hthread hasked).keeps
  obtain ⟨obj, phase⟩ := thread
  cases phase with
  | finished out since wait time =>
      obtain ⟨⟨rfl, hwait, hpast⟩, htime⟩ := hkeeps
      exact ⟨time, wait, hemissions, hwait, le_trans (by linarith) htime⟩
  | created => exact hemissions
  | built out => exact hemissions
  | looked out => exact hemissions
  | asleep out since wait => exact hemissions

theorem Inv.exists_thread (h : state.Inv) {i : ℕ} {request : Request}
    (hasked : state.Asked i request) : ∃ thread, state.threads[i]? = some thread := by
  have hlt := (List.getElem?_eq_some_iff.mp hasked).1
  rw [← h.threads] at hlt
  exact ⟨_, List.getElem?_eq_getElem hlt⟩

theorem Inv.serves (h : state.Inv) : state.Serves where
  threads := h.threads
  once := by
    intro i request hasked
    obtain ⟨thread, hthread⟩ := h.exists_thread hasked
    have hsent := h.sent_iff hthread hasked
    split_ifs at hsent
    · exact Or.inr hsent
    · exact Or.inl hsent
  own := by
    intro i request thread since wait hasked hthread hsleep
    have hkeeps := (h.follows hthread hasked).keeps
    obtain ⟨obj, phase⟩ := thread
    cases phase with
    | asleep out begun own =>
        obtain ⟨rfl, rfl⟩ := Prod.mk.inj (Option.some.inj hsleep)
        exact hkeeps.2
    | finished out begun own time =>
        obtain ⟨rfl, rfl⟩ := Prod.mk.inj (Option.some.inj hsleep)
        exact hkeeps.1.2
    | created => cases hsleep
    | built out => cases hsleep
    | looked out => cases hsleep
  sends := by
    intro i request hasked
    obtain ⟨thread, hthread⟩ := h.exists_thread hasked
    obtain ⟨moves, final, other, hmoves, hexec, hfinal, haccepted, hother, hzero⟩ :=
      h.exists_runs (stepsLeft thread.phase) hthread (le_refl _)
    have hsame : final.Asked i request := by
      rw [Asked, haccepted]
      exact hasked
    have hsent := hfinal.sent_iff hother hsame
    rw [if_pos hzero] at hsent
    exact ⟨moves, final, hmoves, hexec, hsent⟩
  only := by
    intro e he
    have hmem : e ∈ state.emissions e.thread :=
      List.mem_filter.mpr ⟨he, decide_eq_true rfl⟩
    rw [h.emissions] at hmem
    cases hthread : state.threads[e.thread]? with
    | none =>
        rw [hthread] at hmem
        exact absurd hmem List.not_mem_nil
    | some thread => exact h.exists_request hthread
  joined := h.joined

/-- In every run in which the calls are apart, every accepted call is served. -/
theorem serves_of_apart (params : List MParams) (now : ℚ) (moves : List Move)
    (hapart : Machine.Along step Apart (initial params now) moves) :
    Machine.Always step Serves (initial params now) moves :=
  (Machine.always_of_along (fun _ _ _ h hC hnext => h.step hC hnext) (inv_initial params now)
    hapart).mono fun _ h => h.serves

/-- A lamp that is on. -/
def lampFile : MParams :=
  ⟨"action", [⟨"name", "generic", "lamp"⟩, ⟨"status", "generic", "ON"⟩,
    ⟨"cmd", "generic", "LI_hall"⟩, ⟨"value", "generic", "ON"⟩], none, none⟩

/-- The thread of the first call has read its delay when the second one comes. -/
def unhurried : List Move :=
  [⟨firstNight, .exec "lamp" "100"⟩, ⟨firstNight, .run 0⟩, ⟨firstNight, .run 0⟩,
    ⟨firstNight, .run 0⟩, ⟨firstNight, .exec "lamp" ""⟩]

theorem serves_unhurried : Machine.Always step Serves (initial [lampFile] 0) unhurried :=
  serves_of_apart [lampFile] 0 unhurried (by decide +kernel)

/-- The second call comes before the thread of the first one has read its delay. -/
def hurried : List Move :=
  [⟨firstNight, .exec "lamp" "100"⟩, ⟨firstNight, .exec "lamp" ""⟩, ⟨firstNight, .run 0⟩,
    ⟨firstNight, .run 0⟩, ⟨firstNight, .run 0⟩]

/-- The command that is to wait for ten seconds is sent at once. -/
theorem not_serves_hurried :
    (Machine.exec step (initial [lampFile] 0) hurried).map
        (fun final => final.emitted.map fun e => (e.thread, e.time)) = some [(0, 11045)] ∧
      ¬Machine.Always step Serves (initial [lampFile] 0) hurried := by
  have hasked : (Machine.exec step (initial [lampFile] 0) hurried).bind
      (fun final => (final.accepted[0]?).map Request.delay) = some "100" := by decide +kernel
  have hslept : (Machine.exec step (initial [lampFile] 0) hurried).bind
      (fun final => (final.threads[0]?).bind fun thread => thread.phase.sleep) =
      some (11045, 0) := by decide +kernel
  refine ⟨by decide +kernel, fun halways => ?_⟩
  obtain ⟨final, hfinal, hrequest⟩ := Option.bind_eq_some_iff.mp hasked
  obtain ⟨request, hrequest, hdelay⟩ := Option.map_eq_some_iff.mp hrequest
  rw [hfinal, Option.bind_some] at hslept
  obtain ⟨thread, hthread, hsleep⟩ := Option.bind_eq_some_iff.mp hslept
  have hwait := ((halways.last hfinal).own hrequest hthread hsleep).1
  rw [hdelay] at hwait
  exact absurd hwait (by decide +kernel)

end PlayerState

end Hat.Player
