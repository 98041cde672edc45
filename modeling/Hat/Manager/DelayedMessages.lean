import Hat.Core.DelayLine
import Hat.Manager.CounterDecay
import Hat.Minilibs.DoubleText

/-!
# The messages of a delayed counter

A counter with a delay stamps a matching message with its deadline, in the field `time` of
the message itself, and counts it when the deadline has passed.  What the queue reads as the
deadline is the first text of that field.  The queue then is a delay line: every message that
it takes in and that is not cleared is counted once, in the order of arrival and not before
its time.
-/

namespace Hat

open Hat.Hsrv Machine

namespace MMessage

/-- A deadline put in the field `time` is what the field reads as afterwards: the field is no
list, or an empty one, or one whose first text reads as this number. -/
def ReadsStamp (deadline : ℚ) (message : MMessage) : Prop :=
  ∀ items, message.fields.find? "time" = some (.mstringList items) →
    ∀ first ∈ items.head?, scanDouble first.toList = some (toFive deadline)

theorem getDouble_addDouble_of_readsStamp {deadline : ℚ} {message : MMessage}
    (h : message.ReadsStamp deadline) (env : Env) :
    (message.addDouble "time" deadline).getDouble env "time" = toFive deadline := by
  simp only [getDouble, addDouble, find?_add, if_true]
  cases hfield : message.fields.find? "time" with
  | none => exact a2double_double2a env deadline
  | some list =>
      cases list with
      | mstring _ => exact a2double_double2a env deadline
      | mstringList items =>
          cases items with
          | nil => exact a2double_double2a env deadline
          | cons first rest =>
              have hfirst := h (first :: rest) hfield first rfl
              simp only [added, MstringList.add, List.cons_append, MstringList.getString,
                List.headD_cons, a2double, hfirst, Option.getD_some]

end MMessage

/-- A message as the queue took it in, and when. -/
structure Arrival where
  time : ℚ
  message : MMessage

/-- The arrival time and the delay, to the printed precision. -/
def Arrival.due (delay : ℚ) (arrival : Arrival) : ℚ := toFive (arrival.time + delay)

namespace DelayQueue

variable {delay : ℚ} {waiting : List Arrival} {queue : DelayQueue}

/-- The queue holds the messages of the waiting arrivals, each reading as its deadline. -/
structure Stores (delay : ℚ) (waiting : List Arrival) (queue : DelayQueue) : Prop where
  sameDelay : queue.delay = delay
  messages : queue.messages = waiting.map Arrival.message
  reads : ∀ arrival ∈ waiting, ∀ env, arrival.message.getDouble env "time" = arrival.due delay
  size : waiting.length ≤ maxSize + 1

/-- The place and the deadline that the queue keeps are those of the first of the messages
with the least deadline. -/
def Cached (delay : ℚ) (waiting : List Arrival) (queue : DelayQueue) : Prop :=
  waiting ≠ [] → ∃ deadline, queue.nextDeadline = some deadline ∧
    IsFirstMin (Arrival.due delay) waiting queue.nextMessage deadline

theorem Stores.deadlineUpdate (h : Stores delay waiting queue) (env : Env) :
    Stores delay waiting (deadlineUpdate env queue) ∧
      Cached delay waiting (deadlineUpdate env queue) := by
  rw [deadlineUpdate_eq]
  refine ⟨⟨h.sameDelay, h.messages, h.reads, h.size⟩, fun hne => ?_⟩
  have hmessages : queue.messages ≠ [] := by
    rw [h.messages]
    exact fun hnil => hne (List.map_eq_nil_iff.mp hnil)
  obtain ⟨deadline, hdeadline, hfirst⟩ :=
    isFirstMin_firstMin (MMessage.getDouble env "time") hmessages
  refine ⟨deadline, hdeadline, ?_⟩
  rw [h.messages] at hfirst
  dsimp only
  rw [h.messages]
  exact hfirst.of_map fun arrival harrival => h.reads arrival harrival env

/-- A message that finds room joins the others with its deadline. -/
theorem Stores.messageAppend (h : Stores delay waiting queue) {env : Env} {message : MMessage}
    (hroom : queue.messages.length ≤ maxSize)
    (hreads : message.ReadsStamp (env.gettime + delay)) :
    ∃ stamped, (queue.messageAppend env message).1 = true ∧
      (queue.messageAppend env message).2.1 = stamped ∧
      Stores delay (waiting ++ [⟨env.gettime, stamped⟩])
        (queue.messageAppend env message).2.2 ∧
      Cached delay (waiting ++ [⟨env.gettime, stamped⟩])
        (queue.messageAppend env message).2.2 := by
  refine ⟨message.addDouble "time" (env.gettime + queue.delay), ?_, ?_, ?_⟩
  · rw [DelayQueue.messageAppend, if_neg (not_lt.mpr hroom)]
  · rw [DelayQueue.messageAppend, if_neg (not_lt.mpr hroom)]
  · rw [DelayQueue.messageAppend, if_neg (not_lt.mpr hroom)]
    apply Stores.deadlineUpdate
    refine ⟨h.sameDelay, ?_, ?_, ?_⟩
    · rw [List.map_append, List.map_singleton, ← h.messages]
    · intro arrival harrival other
      rcases List.mem_append.mp harrival with harrival | harrival
      · exact h.reads arrival harrival other
      · rw [List.mem_singleton.mp harrival, h.sameDelay]
        exact MMessage.getDouble_addDouble_of_readsStamp hreads other
    · rw [h.messages, List.length_map] at hroom
      rw [List.length_append, List.length_singleton]
      omega

theorem isDue_eq (h : Stores delay waiting queue) (hcached : Cached delay waiting queue)
    (env : Env) {arrival : Arrival} {rest : List Arrival} (hwaiting : waiting = arrival :: rest)
    (hsorted : waiting.Pairwise fun earlier later => earlier.due delay ≤ later.due delay) :
    queue.nextMessage = 0 ∧ (queue.isDue env = true ↔ arrival.due delay ≤ env.gettime) := by
  subst hwaiting
  obtain ⟨deadline, hdeadline, hfirst⟩ := hcached (List.cons_ne_nil _ _)
  obtain ⟨hplace, hleast⟩ := hfirst.unique (isFirstMin_of_pairwise hsorted)
  refine ⟨hplace, ?_⟩
  rw [isDue, h.messages, List.map_cons, List.isEmpty_cons, Bool.not_false, Bool.true_and,
    hasPassed, hdeadline, hleast]
  exact decide_eq_true_iff

/-- A message is taken out when the front is due, and then it is the front. -/
theorem Stores.messageGet (h : Stores delay waiting queue) (hcached : Cached delay waiting queue)
    (env : Env)
    (hsorted : waiting.Pairwise fun earlier later => earlier.due delay ≤ later.due delay) :
    (queue.messageGet env = (none, queue) ∧
        ∀ arrival ∈ waiting.head?, env.gettime < arrival.due delay) ∨
      ∃ arrival rest, waiting = arrival :: rest ∧ queue.nextMessage = 0 ∧
        arrival.due delay ≤ env.gettime ∧
        (queue.messageGet env).1 = some (arrival.message.addDouble "time" env.gettime) ∧
        Stores delay rest (queue.messageGet env).2 ∧
        Cached delay rest (queue.messageGet env).2 := by
  cases hwaiting : waiting with
  | nil =>
      refine Or.inl ⟨messageGet_of_not_isDue ?_, ?_⟩
      · rw [isDue, h.messages, hwaiting]
        rfl
      · exact fun _ hhead => absurd hhead (Option.not_mem_none _)
  | cons arrival rest =>
      obtain ⟨hplace, hdue⟩ := isDue_eq h hcached env hwaiting hsorted
      cases hisDue : queue.isDue env with
      | false =>
          refine Or.inl ⟨messageGet_of_not_isDue hisDue, ?_⟩
          rintro _ ⟨⟩
          rw [hisDue] at hdue
          exact not_le.mp fun hle => Bool.false_ne_true (hdue.mpr hle)
      | true =>
          have hmessages := h.messages
          rw [hwaiting, List.map_cons] at hmessages
          have hindexed : queue.Indexed := by
            intro _
            rw [hplace, hmessages, List.length_cons]
            exact Nat.succ_pos _
          obtain ⟨message, hmessage, hget⟩ := messageGet_of_isDue hindexed hisDue
          rw [hplace, hmessages, List.getElem?_cons_zero, Option.some.injEq] at hmessage
          refine Or.inr ⟨arrival, rest, rfl, hplace, hdue.mp hisDue, ?_, ?_⟩
          · rw [hget, hmessage]
          · rw [hget]
            apply Stores.deadlineUpdate
            refine ⟨h.sameDelay, ?_, ?_, ?_⟩
            · rw [hplace, hmessages, List.eraseIdx_cons_zero]
            · intro other hother
              apply h.reads
              rw [hwaiting]
              exact List.mem_cons_of_mem _ hother
            · have hsize := h.size
              rw [hwaiting, List.length_cons] at hsize
              omega

end DelayQueue

structure CarriesLine (delay : ℚ) (line : DelayLine Arrival ℚ) (queue : DelayQueue) : Prop where
  sound : line.Sound (Arrival.due delay)
  stores : DelayQueue.Stores delay line.waiting queue
  cached : DelayQueue.Cached delay line.waiting queue

/-- The line after the queue has been asked for a message. -/
def afterGet (env : Env) (queue : DelayQueue) (line : DelayLine Arrival ℚ) :
    DelayLine Arrival ℚ :=
  match (queue.messageGet env).1 with
  | some _ => line.count queue.nextMessage env.gettime
  | none => line

/-- What asking a queue for a message does to its line. -/
structure Gets (delay : ℚ) (env : Env) (queue : DelayQueue) (line after : DelayLine Arrival ℚ) :
    Prop where
  carries : CarriesLine delay after (queue.messageGet env).2
  counted : after.counted = line.counted ++
    ((line.waiting.head?.filter fun arrival => arrival.due delay ≤ env.gettime).map
      fun arrival => (arrival, env.gettime)).toList
  waiting : after.waiting =
    if ∃ arrival ∈ line.waiting.head?, arrival.due delay ≤ env.gettime then line.waiting.tail
    else line.waiting
  handed : (queue.messageGet env).1 =
    (line.waiting.head?.filter fun arrival => arrival.due delay ≤ env.gettime).map
      fun arrival => arrival.message.addDouble "time" env.gettime

theorem CarriesLine.gets {delay : ℚ} {line : DelayLine Arrival ℚ} {queue : DelayQueue}
    (h : CarriesLine delay line queue) (env : Env) :
    Gets delay env queue line (afterGet env queue line) := by
  rcases h.stores.messageGet h.cached env h.sound.sorted with
    ⟨hget, hearly⟩ | ⟨arrival, rest, hwaiting, hplace, hdue, hsome, hstores, hcached⟩
  · have hfilter : (line.waiting.head?.filter fun arrival =>
        arrival.due delay ≤ env.gettime) = none := by
      rw [Option.filter_eq_none_iff]
      intro arrival harrival
      simpa using hearly arrival harrival
    have hafter : afterGet env queue line = line := by rw [afterGet, hget]
    rw [hafter]
    refine ⟨?_, ?_, ?_, ?_⟩
    · rw [hget]
      exact h
    · rw [hfilter, Option.map_none, Option.toList_none, List.append_nil]
    · rw [if_neg]
      rintro ⟨arrival, harrival, hle⟩
      exact absurd hle (not_le.mpr (hearly arrival harrival))
    · rw [hget, hfilter, Option.map_none]
  · have hfilter : (line.waiting.head?.filter fun arrival =>
        arrival.due delay ≤ env.gettime) = some arrival := by
      rw [hwaiting, List.head?_cons, Option.filter_some, if_pos (decide_eq_true hdue)]
    have hafter : afterGet env queue line = line.count 0 env.gettime := by
      simp only [afterGet, hsome, hplace]
    have hcount := DelayLine.count_front env.gettime hwaiting
    rw [hafter]
    refine ⟨⟨h.sound.count hwaiting hdue, ?_, ?_⟩, ?_, ?_, ?_⟩
    · rw [hcount]
      exact hstores
    · rw [hcount]
      exact hcached
    · rw [hcount, hfilter]
      rfl
    · rw [hcount, if_pos ⟨arrival, by rw [hwaiting]; rfl, hdue⟩, hwaiting]
      rfl
    · rw [hsome, hfilter, Option.map_some]

namespace EventCounter

/-- What an event update puts in the queue. -/
def arrival (env : Env) (message : MMessage) (counter : EventCounter) : Option Arrival :=
  match counter.dq with
  | some queue =>
      if counter.matchMessage message && (queue.messageAppend env message).1 then
        some ⟨env.gettime, (queue.messageAppend env message).2.1⟩
      else none
  | none => none

/-- The queue that a call asks for a message. -/
def asked (counter : EventCounter) (call : Call) : Option DelayQueue :=
  match call.operation with
  | .eventUpdate message =>
      if counter.matchMessage message then
        counter.dq.map fun queue => (queue.messageAppend call.env message).2.2
      else none
  | .timeUpdate => counter.dq
  | .clearDQ => none

/-- The counter after the messages of a call and before its decay. -/
def raised (counter : EventCounter) (call : Call) : ℚ :=
  match call.operation with
  | .eventUpdate message => (counter.eventUpdate call.env message).2.2.counter
  | .timeUpdate => (counter.takeDelayed call.env).counter
  | .clearDQ => counter.clearDQ.counter

/-- A counter with the time of its last call, the line of the messages that its queue has
taken in, and the messages that it has counted. -/
structure DelayRun where
  counter : EventCounter
  now : ℚ
  line : DelayLine Arrival ℚ
  handed : List MMessage

namespace DelayRun

def start (env : Env) (unloaded : MParams) (nm : String) : DelayRun :=
  ⟨EventCounter.new env unloaded nm, env.gettime, DelayLine.empty, []⟩

/-- The line before the queue is asked for a message. -/
def before (run : DelayRun) (call : Call) : DelayLine Arrival ℚ :=
  match call.operation with
  | .eventUpdate message =>
      match run.counter.arrival call.env message with
      | some arrival => run.line.accept arrival
      | none => run.line
  | .timeUpdate => run.line
  | .clearDQ => run.line.clear

def next (run : DelayRun) (call : Call) : DelayRun :=
  { counter := run.counter.perform call
    now := call.time
    line := match run.counter.asked call with
      | some queue => afterGet call.env queue (run.before call)
      | none => run.before call
    handed := run.handed ++
      ((run.counter.asked call).bind fun queue => (queue.messageGet call.env).1).toList }

/-- The queue of a counter carries the line of the run. -/
structure Kept (delay : ℚ) (run : DelayRun) : Prop where
  past : ∀ arrival ∈ run.line.waiting, arrival.time ≤ run.now
  handed : run.handed =
    run.line.counted.map fun entry => entry.1.message.addDouble "time" entry.2
  queue : ∃ queue, run.counter.dq = some queue ∧ CarriesLine delay run.line queue

/-- A message that is taken in reads as the deadline that it is given. -/
def StampsAt (run : DelayRun) (call : Call) : Prop :=
  ∀ message queue, call.operation = .eventUpdate message → run.counter.dq = some queue →
    run.counter.matchMessage message = true → queue.messages.length ≤ DelayQueue.maxSize →
      message.ReadsStamp (call.time + queue.delay)

theorem kept_start {env : Env} {unloaded : MParams} {nm : String}
    (hdelay : (EventCounter.new env unloaded nm).params.get "delay" ≠ "") :
    (start env unloaded nm).Kept
      (a2double env ((EventCounter.new env unloaded nm).params.get "delay")) := by
  refine ⟨fun _ harrival => absurd harrival List.not_mem_nil, rfl, ?_⟩
  refine ⟨DelayQueue.new env ((EventCounter.new env unloaded nm).params.get "delay"), ?_, ?_⟩
  · exact if_neg hdelay
  · refine ⟨DelayLine.sound_empty, ⟨rfl, rfl, ?_, Nat.zero_le _⟩, fun hne => absurd rfl hne⟩
    exact fun _ harrival => absurd harrival List.not_mem_nil

/-! ## One call -/

variable {delay : ℚ} {run : DelayRun}

theorem mem_waiting_of_gets {env : Env} {queue : DelayQueue} {line after : DelayLine Arrival ℚ}
    (h : Gets delay env queue line after) {arrival : Arrival} (harrival : arrival ∈ after.waiting) :
    arrival ∈ line.waiting := by
  rw [h.waiting] at harrival
  split_ifs at harrival
  · exact List.mem_of_mem_tail harrival
  · exact harrival

/-- A call that asks the queue for a message. -/
theorem kept_of_asked {call : Call} {queue : DelayQueue} (hrun : run.Kept delay)
    (hasked : run.counter.asked call = some queue)
    (hcarries : CarriesLine delay (run.before call) queue)
    (hcounted : (run.before call).counted = run.line.counted)
    (hpast : ∀ arrival ∈ (run.before call).waiting, arrival.time ≤ call.time)
    (hdq : (run.counter.perform call).dq = some (queue.messageGet call.env).2) :
    (run.next call).Kept delay := by
  have hgets := hcarries.gets call.env
  have hline : (run.next call).line = afterGet call.env queue (run.before call) := by
    simp only [next, hasked]
  refine ⟨?_, ?_, ⟨_, hdq, ?_⟩⟩
  · intro arrival harrival
    rw [hline] at harrival
    exact hpast arrival (mem_waiting_of_gets hgets harrival)
  · rw [hline, hgets.counted, hcounted, List.map_append, ← hrun.handed]
    simp only [next, hasked, Option.bind_some, hgets.handed]
    congr 1
    cases (run.before call).waiting.head?.filter fun arrival =>
      arrival.due delay ≤ call.env.gettime <;> rfl
  · rw [hline]
    exact hgets.carries

/-- The counter after a matching message, the queue being asked after it took the message in. -/
theorem dq_eventUpdate {env : Env} {message : MMessage} {counter : EventCounter}
    {queue : DelayQueue} (hdq : counter.dq = some queue)
    (hmatch : counter.matchMessage message = true) :
    (counter.eventUpdate env message).2.2.dq =
      some ((queue.messageAppend env message).2.2.messageGet env).2 := by
  simp only [eventUpdate, hmatch, Bool.not_true, Bool.false_eq_true, if_false, hdq]
  cases ((queue.messageAppend env message).2.2.messageGet env).1 <;> rfl

theorem dq_timeUpdate (env : Env) {counter : EventCounter} {queue : DelayQueue}
    (hdq : counter.dq = some queue) :
    (counter.timeUpdate env).dq = some (queue.messageGet env).2 := by
  simp only [timeUpdate, takeDelayed, hdq]
  cases (queue.messageGet env).1 <;> rfl

/-- A message that does not match leaves the queue alone. -/
theorem kept_eventUpdate_of_foreign {env : Env} {message : MMessage} (hrun : run.Kept delay)
    (hclock : run.now ≤ env.gettime) (hmatch : run.counter.matchMessage message = false) :
    (run.next ⟨env, .eventUpdate message⟩).Kept delay := by
  obtain ⟨queue, hdq, hcarries⟩ := hrun.queue
  have hperform : (run.next ⟨env, .eventUpdate message⟩).counter = run.counter := by
    simp only [next, perform, eventUpdate, hmatch, Bool.not_false, if_true]
  have hline : (run.next ⟨env, .eventUpdate message⟩).line = run.line := by
    simp [next, asked, before, arrival, hdq, hmatch]
  have hhanded : (run.next ⟨env, .eventUpdate message⟩).handed = run.handed := by
    simp [next, asked, hmatch]
  refine ⟨?_, ?_, ⟨queue, ?_, ?_⟩⟩
  · rw [hline]
    exact fun arrival harrival => (hrun.past arrival harrival).trans hclock
  · rw [hline, hhanded]
    exact hrun.handed
  · rw [hperform, hdq]
  · rw [hline]
    exact hcarries

theorem asked_eventUpdate {env : Env} {message : MMessage} {queue : DelayQueue}
    (hdq : run.counter.dq = some queue) (hmatch : run.counter.matchMessage message = true) :
    run.counter.asked ⟨env, .eventUpdate message⟩ =
      some (queue.messageAppend env message).2.2 := by
  simp only [asked, hmatch, if_true, hdq, Option.map_some]

/-- A full queue takes no message in and is asked all the same. -/
theorem kept_eventUpdate_of_full {env : Env} {message : MMessage} {queue : DelayQueue}
    (hrun : run.Kept delay) (hclock : run.now ≤ env.gettime)
    (hdq : run.counter.dq = some queue) (hcarries : CarriesLine delay run.line queue)
    (hmatch : run.counter.matchMessage message = true)
    (hfull : DelayQueue.maxSize < queue.messages.length) :
    (run.next ⟨env, .eventUpdate message⟩).Kept delay := by
  have happend : queue.messageAppend env message = (false, message, queue) := if_pos hfull
  have hbefore : run.before ⟨env, .eventUpdate message⟩ = run.line := by
    simp only [before, arrival, hdq, happend, Bool.and_false, Bool.false_eq_true, if_false]
  apply kept_of_asked hrun (asked_eventUpdate hdq hmatch) _ _ _ (dq_eventUpdate hdq hmatch)
  · rw [hbefore, happend]
    exact hcarries
  · rw [hbefore]
  · rw [hbefore]
    exact fun arrival harrival => (hrun.past arrival harrival).trans hclock

/-- A message joins the line behind the others, which are due before it. -/
theorem kept_eventUpdate_of_room {env : Env} {message : MMessage} {queue : DelayQueue}
    (hrun : run.Kept delay) (hclock : run.now ≤ env.gettime)
    (hstamps : run.StampsAt ⟨env, .eventUpdate message⟩)
    (hdq : run.counter.dq = some queue) (hcarries : CarriesLine delay run.line queue)
    (hmatch : run.counter.matchMessage message = true)
    (hroom : queue.messages.length ≤ DelayQueue.maxSize) :
    (run.next ⟨env, .eventUpdate message⟩).Kept delay := by
  have hlater : ∀ arrival ∈ run.line.waiting, arrival.time ≤ env.gettime :=
    fun arrival harrival => (hrun.past arrival harrival).trans hclock
  obtain ⟨stamped, hin, hstamped, hstores, hcached⟩ := hcarries.stores.messageAppend hroom
    (hcarries.stores.sameDelay ▸ hstamps message queue rfl hdq hmatch hroom)
  have hbefore : run.before ⟨env, .eventUpdate message⟩ =
      run.line.accept ⟨env.gettime, stamped⟩ := by
    simp only [before, arrival, hdq, hmatch, hin, hstamped, Bool.and_self, if_true]
  apply kept_of_asked hrun (asked_eventUpdate hdq hmatch) _ _ _ (dq_eventUpdate hdq hmatch)
  · rw [hbefore]
    refine ⟨hcarries.sound.accept ?_, hstores, hcached⟩
    intro earlier hearlier
    exact toFive_mono (add_le_add_left (hlater earlier hearlier) delay)
  · rw [hbefore]
    rfl
  · rw [hbefore]
    intro arrival harrival
    rcases List.mem_append.mp harrival with harrival | harrival
    · exact hlater arrival harrival
    · rw [List.mem_singleton.mp harrival]
      exact le_refl _

theorem kept_eventUpdate {env : Env} {message : MMessage} (hrun : run.Kept delay)
    (hclock : run.now ≤ env.gettime) (hstamps : run.StampsAt ⟨env, .eventUpdate message⟩) :
    (run.next ⟨env, .eventUpdate message⟩).Kept delay := by
  obtain ⟨queue, hdq, hcarries⟩ := hrun.queue
  cases hmatch : run.counter.matchMessage message with
  | false => exact kept_eventUpdate_of_foreign hrun hclock hmatch
  | true =>
      rcases le_or_gt queue.messages.length DelayQueue.maxSize with hroom | hfull
      · exact kept_eventUpdate_of_room hrun hclock hstamps hdq hcarries hmatch hroom
      · exact kept_eventUpdate_of_full hrun hclock hdq hcarries hmatch hfull

theorem kept_timeUpdate {env : Env} (hrun : run.Kept delay) (hclock : run.now ≤ env.gettime) :
    (run.next ⟨env, .timeUpdate⟩).Kept delay := by
  obtain ⟨queue, hdq, hcarries⟩ := hrun.queue
  have hasked : run.counter.asked ⟨env, .timeUpdate⟩ = some queue := hdq
  apply kept_of_asked hrun hasked hcarries rfl _ (dq_timeUpdate env hdq)
  exact fun arrival harrival => (hrun.past arrival harrival).trans hclock

theorem kept_clearDQ (env : Env) (hrun : run.Kept delay) :
    (run.next ⟨env, .clearDQ⟩).Kept delay := by
  obtain ⟨queue, hdq, hcarries⟩ := hrun.queue
  refine ⟨fun _ harrival => absurd harrival List.not_mem_nil, ?_, ?_⟩
  · exact (List.append_nil _).trans hrun.handed
  · refine ⟨{ queue with messages := [] }, ?_, hcarries.sound.clear, ?_, ?_⟩
    · exact congrArg (Option.map fun queue => { queue with messages := [] }) hdq
    · refine ⟨hcarries.stores.sameDelay, rfl, ?_, Nat.zero_le _⟩
      exact fun _ harrival => absurd harrival List.not_mem_nil
    · exact fun hne => absurd rfl hne

theorem Kept.next {call : Call} (hrun : run.Kept delay) (hclock : run.now ≤ call.time)
    (hstamps : run.StampsAt call) : (run.next call).Kept delay := by
  cases call with
  | mk env operation =>
      cases operation with
      | eventUpdate message => exact kept_eventUpdate hrun hclock hstamps
      | timeUpdate => exact kept_timeUpdate hrun hclock
      | clearDQ => exact kept_clearDQ env hrun

/-- Time updates with the given surroundings. -/
def updates (envs : List Env) : List Call := envs.map fun env => ⟨env, .timeUpdate⟩

theorem gets_timeUpdate (hrun : run.Kept delay) (env : Env) :
    ∃ queue, Gets delay env queue run.line (run.next ⟨env, .timeUpdate⟩).line := by
  obtain ⟨queue, hdq, hcarries⟩ := hrun.queue
  have hasked : run.counter.asked ⟨env, .timeUpdate⟩ = some queue := hdq
  have hline : (run.next ⟨env, .timeUpdate⟩).line = afterGet env queue run.line := by
    simp only [next, hasked, before]
  exact ⟨queue, hline ▸ hcarries.gets env⟩

/-- A time update counts the front, if there is one and it is due. -/
theorem moved_of_gets {env : Env} {queue : DelayQueue} {line after : DelayLine Arrival ℚ}
    (hgets : Gets delay env queue line after)
    (hdue : ∀ arrival ∈ line.waiting, arrival.due delay ≤ env.gettime) :
    after.waiting = line.waiting.tail ∧
      after.counted.map Prod.fst ++ line.waiting.tail =
        line.counted.map Prod.fst ++ line.waiting := by
  have hw := hgets.waiting
  have hc := hgets.counted
  cases hwaiting : line.waiting with
  | nil =>
      rw [hwaiting] at hw hc
      refine ⟨hw.trans (by simp), ?_⟩
      rw [hc]
      simp
  | cons front others =>
      have hfront : front.due delay ≤ env.gettime := by
        apply hdue
        rw [hwaiting]
        exact List.mem_cons_self
      rw [hwaiting] at hw hc
      refine ⟨hw.trans (if_pos ⟨front, rfl, hfront⟩), ?_⟩
      rw [hc, List.head?_cons, Option.filter_some, if_pos (decide_eq_true hfront)]
      simp

/-- From when all waiting messages are due, every time update counts the next of them. -/
theorem counted_updates (envs : List Env) (hrun : run.Kept delay)
    (hclock : (run.now :: envs.map Env.gettime).Pairwise fun earlier later => earlier ≤ later)
    (hdue : ∀ env ∈ envs, ∀ arrival ∈ run.line.waiting, arrival.due delay ≤ env.gettime)
    (hlength : run.line.waiting.length ≤ envs.length) :
    ((updates envs).foldl next run).line.counted.map Prod.fst =
        run.line.counted.map Prod.fst ++ run.line.waiting ∧
      ((updates envs).foldl next run).line.waiting = [] := by
  induction envs generalizing run with
  | nil =>
      have hwaiting : run.line.waiting = [] :=
        List.eq_nil_of_length_eq_zero (Nat.le_zero.mp hlength)
      rw [hwaiting, List.append_nil]
      exact ⟨rfl, hwaiting⟩
  | cons env rest ih =>
      rw [List.map_cons] at hclock
      have hnow : run.now ≤ env.gettime := List.rel_of_pairwise_cons hclock List.mem_cons_self
      have hkept := kept_timeUpdate hrun hnow
      obtain ⟨queue, hgets⟩ := gets_timeUpdate hrun env
      have hmoved := moved_of_gets hgets (hdue env List.mem_cons_self)
      have htail := ih hkept hclock.of_cons
        (fun other hother arrival harrival => hdue other (List.mem_cons_of_mem _ hother) arrival
          (List.mem_of_mem_tail (hmoved.1 ▸ harrival)))
        (by
          rw [hmoved.1, List.length_tail]
          rw [List.length_cons] at hlength
          omega)
      rw [hmoved.1, hmoved.2] at htail
      exact htail

/-! ## Whole runs -/

/-- What the queue of a counter owes to the messages that it takes in. -/
structure Serves (delay : ℚ) (run : DelayRun) : Prop where
  /-- Every one is counted, cleared or waiting, and only one of these; the counted ones in the
  order of arrival and not before their time. -/
  sound : run.line.Sound (Arrival.due delay)
  handed : run.handed =
    run.line.counted.map fun entry => entry.1.message.addDouble "time" entry.2
  queue : ∃ queue, run.counter.dq = some queue ∧
    queue.messages = run.line.waiting.map Arrival.message ∧ queue.messages.length ≤ 101 ∧
    DelayQueue.Cached delay run.line.waiting queue
  goesOn : ∀ envs : List Env,
    ((run.now :: envs.map Env.gettime).Pairwise fun earlier later => earlier ≤ later) →
    (∀ env ∈ envs, ∀ arrival ∈ run.line.waiting, arrival.due delay ≤ env.gettime) →
    run.line.waiting.length ≤ envs.length →
    ((updates envs).foldl next run).line.counted.map Prod.fst =
        run.line.counted.map Prod.fst ++ run.line.waiting ∧
      ((updates envs).foldl next run).line.waiting = []

theorem Kept.serves (hrun : run.Kept delay) : run.Serves delay := by
  obtain ⟨queue, hdq, hcarries⟩ := hrun.queue
  refine ⟨hcarries.sound, hrun.handed, ⟨queue, hdq, hcarries.stores.messages, ?_, ?_⟩, ?_⟩
  · rw [hcarries.stores.messages, List.length_map]
    exact hcarries.stores.size
  · exact hcarries.cached
  · exact fun envs hclock hdue hlength => counted_updates envs hrun hclock hdue hlength

/-- The counter is raised by one increment for every message that the call counts. -/
def CountsAt (run : DelayRun) (call : Call) : Prop :=
  ∃ messages, (run.next call).handed = run.handed ++ messages ∧
    run.counter.raised call =
      run.counter.counter + messages.length * run.counter.dIncrement

theorem countsAt {queue : DelayQueue} (hdq : run.counter.dq = some queue) (call : Call) :
    run.CountsAt call := by
  refine ⟨_, rfl, ?_⟩
  cases call with
  | mk env operation =>
      cases operation with
      | eventUpdate message =>
          simp only [raised, eventUpdate, asked]
          cases hmatch : run.counter.matchMessage message with
          | false => simp
          | true =>
              simp only [hdq, Bool.not_true, Bool.false_eq_true, if_false, if_true,
                Option.map_some, Option.bind_some]
              cases ((queue.messageAppend env message).2.2.messageGet env).1 with
              | none => simp
              | some due => simp [update]
      | timeUpdate =>
          simp only [raised, takeDelayed, asked, hdq, Option.bind_some]
          cases (queue.messageGet env).1 with
          | none => simp
          | some due => simp [update]
      | clearDQ => simp [raised, clearDQ, asked]

/-- Over any calls on a clock that never goes back, whose messages read as the deadlines that
they are given when they are taken in, a delayed counter counts every message that it takes in
and does not clear once, in order and not before its time. -/
theorem serves_of_stamps (env : Env) (unloaded : MParams) (nm : String)
    (hdelay : (EventCounter.new env unloaded nm).params.get "delay" ≠ "") (calls : List Call)
    (hclock : (env.gettime :: calls.map Call.time).Pairwise fun earlier later => earlier ≤ later)
    (hstamps : Along (total next) StampsAt (start env unloaded nm) calls) :
    Always (total next)
        (Serves (a2double env ((EventCounter.new env unloaded nm).params.get "delay")))
        (start env unloaded nm) calls ∧
      Along (total next) CountsAt (start env unloaded nm) calls := by
  have honTime : Along (total next) (fun run call => run.now ≤ call.time)
      (start env unloaded nm) calls := by
    apply along_of_clock DelayRun.now Call.time _ hclock
    rintro run call _ ⟨⟩
    rfl
  have hkept := kept_start hdelay
  constructor
  · apply (always_of_along_within _ hkept honTime hstamps).mono fun run => Kept.serves
    rintro run call _ hrun hcall hstampsAt ⟨⟩
    exact hrun.next hcall hstampsAt
  · apply Along.imp_of_guarded _ _ hkept (honTime.and hstamps)
    · intro run call hrun _
      obtain ⟨queue, hdq, -⟩ := hrun.queue
      exact countsAt hdq call
    · rintro run call _ hrun h ⟨⟩
      exact hrun.next h.1 h.2

/-- A message without a list in its field `time` reads as every deadline that it is given. -/
theorem stampsAt_of_no_list {call : Call}
    (h : ∀ message, call.operation = .eventUpdate message →
      ∀ items, message.fields.find? "time" ≠ some (.mstringList items)) : run.StampsAt call :=
  fun message _ hoperation _ _ _ items hitems => absurd hitems (h message hoperation items)

theorem serves_door :
    Always (total next)
        (Serves (a2double firstNight
          ((EventCounter.new firstNight Clocked.doorFile "door").params.get "delay")))
        (start firstNight Clocked.doorFile "door") Clocked.doorCalls ∧
      Along (total next) CountsAt (start firstNight Clocked.doorFile "door")
        Clocked.doorCalls := by
  apply serves_of_stamps firstNight Clocked.doorFile "door" (by decide +kernel) Clocked.doorCalls
    (by decide +kernel)
  refine ⟨stampsAt_of_no_list ?_, fun _ _ => ⟨stampsAt_of_no_list ?_, fun _ _ => trivial⟩⟩
  · rintro _ ⟨⟩ items
    rw [MMessage.find?_add_of_ne _ _ (by decide)]
    exact fun hfound => Option.some_ne_none _ hfound.symm
  · exact fun _ hoperation => Operation.noConfusion hoperation

/-- The door opens, in a message with a list of times. -/
def listed : Call :=
  ⟨firstNight, .eventUpdate
    (((MMessage.mk2 "event" "door").add "value" "open").addList "time" ["0"])⟩

/-- The message is counted as soon as it arrives, although the delay is five seconds. -/
theorem not_serves_listed :
    (EventCounter.new firstNight Clocked.doorFile "door").params.get "delay" ≠ "" ∧
      (firstNight.gettime :: [listed].map Call.time).Pairwise
        (fun earlier later => earlier ≤ later) ∧
      ¬Always (total next)
        (Serves (a2double firstNight
          ((EventCounter.new firstNight Clocked.doorFile "door").params.get "delay")))
        (start firstNight Clocked.doorFile "door") [listed] := by
  refine ⟨by decide +kernel, by decide +kernel, ?_⟩
  intro hserves
  have hearly := (hserves.2 _ rfl).sound.notEarly
  exact absurd hearly (by decide +kernel)

end DelayRun

end EventCounter

end Hat
