import Hat.Core.Skipping
import Hat.Minilibs.MMessage
import Hat.Minilibs.MParams

/-!
# Event counters and boolean conditions

The two kinds of antecedents of a rule.  A counter is raised by the messages it
matches, decays with time and keeps the history of its latest events; with a
delay, matching messages wait in a queue until their deadline.  A boolean
condition holds the last value it was sent.
-/

namespace Hat

open Hat.Hsrv

structure Event where
  time : ℚ
  source : String
  video : String
  deriving DecidableEq

namespace EvList

/-- Removal of the events older than `time`.  The loop advances its iterator
after every removal as well, so the event behind a removed one is not looked at. -/
def update (time : ℚ) : List Event → ℕ × List Event
  | [] => (0, [])
  | [event] => if event.time < time then (1, []) else (0, [event])
  | event :: next :: rest =>
      if event.time < time then
        let tail := update time rest
        (tail.1 + 1, next :: tail.2)
      else
        let tail := update time (next :: rest)
        (tail.1, event :: tail.2)

def joinPlus (texts : List String) : String :=
  texts.foldl (fun joined text => (if joined = "" then joined else joined ++ "+") ++ text) ""

def history (events : List Event) : String := joinPlus (events.map Event.source)

def video (events : List Event) : String := joinPlus (events.map Event.video)

end EvList

structure DelayQueue where
  messages : List MMessage
  delay : ℚ
  /-- `none` stands for infinity. -/
  nextDeadline : Option ℚ
  nextMessage : ℕ
  deriving DecidableEq

namespace DelayQueue

def new (env : Env) (delay : String) : DelayQueue := ⟨[], a2double env delay, some 0, 0⟩

def deadlineUpdate (env : Env) (queue : DelayQueue) : DelayQueue :=
  let earliest := queue.messages.zipIdx.foldl
    (fun (best : Option ℚ × ℕ) entry =>
      let time := entry.1.getDouble env "time"
      match best.1 with
      | some deadline => if time < deadline then (some time, entry.2) else best
      | none => (some time, entry.2))
    (none, 0)
  { queue with nextDeadline := earliest.1, nextMessage := earliest.2 }

def hasPassed (env : Env) (queue : DelayQueue) : Bool :=
  match queue.nextDeadline with
  | some deadline => deadline ≤ env.gettime
  | none => false

/-- The message whose deadline has passed, stamped with the current time. -/
def messageGet (env : Env) (queue : DelayQueue) : Option MMessage × DelayQueue :=
  if queue.messages = [] then (none, queue)
  else if queue.hasPassed env then
    match queue.messages[queue.nextMessage]? with
    | some message =>
        (some (message.addDouble "time" env.gettime),
          deadlineUpdate env { queue with messages := queue.messages.eraseIdx queue.nextMessage })
    | none => (none, queue)
  else (none, queue)

/-- `MAXDELAYQSZ`. -/
def maxSize : ℕ := 100

/-- The message is stamped with its deadline in place, so the caller sees the stamp. -/
def messageAppend (env : Env) (message : MMessage) (queue : DelayQueue) :
    Bool × MMessage × DelayQueue :=
  if maxSize < queue.messages.length then (false, message, queue)
  else
    let stamped := message.addDouble "time" (env.gettime + queue.delay)
    (true, stamped, deadlineUpdate env { queue with messages := queue.messages ++ [stamped] })

end DelayQueue

structure EventCounter where
  params : MParams
  name : String
  dq : Option DelayQueue
  counter : ℚ
  dIncrement : ℚ
  dDecrement : ℚ
  threshold : ℚ
  aliases : NameList
  values : NameList
  lastTime : ℚ
  currentTime : ℚ
  history : List Event
  comment : String
  deriving DecidableEq

namespace EventCounter

def new (env : Env) (unloaded : MParams) (nm : String) : EventCounter :=
  let params := unloaded.load
  { params := params
    name := if params.get "name" = "" then nm else params.get "name"
    dq := if params.get "delay" = "" then none else some (DelayQueue.new env (params.get "delay"))
    counter := 0
    dIncrement := a2double env (params.get "increment")
    dDecrement := a2double env (params.get "decrement")
    threshold := a2double env (params.get "threshold")
    aliases := NameList.init [] (params.get "alias") '+'
    values := NameList.init [] (params.get "accepted_values") '+'
    lastTime := env.gettime
    currentTime := env.gettime
    history := []
    comment := "" }

def isActive (counter : EventCounter) : Bool := counter.threshold ≤ counter.counter

def matchMessage (counter : EventCounter) (message : MMessage) : Bool :=
  let name := message.msubtype
  let source := message.getString "source"
  counter.values.member (message.getString "value") &&
    (name = counter.params.ty || counter.aliases.member name ||
      message.getString source = counter.params.ty || counter.aliases.member source)

def update (env : Env) (message : MMessage) (counter : EventCounter) : EventCounter :=
  let source := message.getString "source"
  { counter with
    counter := counter.counter + counter.dIncrement
    history := counter.history ++
      [⟨env.gettime, if source = "" then message.msubtype else source, message.getString "video"⟩]
    comment := message.getString "comment" }

/-- The value added to the total, the message as it is left, and the counter. -/
def eventUpdate (env : Env) (message : MMessage) (counter : EventCounter) :
    ℚ × MMessage × EventCounter :=
  if !counter.matchMessage message then (0, message, counter)
  else
    match counter.dq with
    | some queue =>
        let appended := queue.messageAppend env message
        let taken := appended.2.2.messageGet env
        match taken.1 with
        | none => (0, appended.2.1, { counter with dq := some taken.2 })
        | some due =>
            let updated := { counter with dq := some taken.2 }.update env due
            (updated.counter, appended.2.1, updated)
    | none =>
        let updated := counter.update env message
        (updated.counter, message, updated)

/-- A message whose deadline has passed is counted before the decay. -/
def takeDelayed (env : Env) (counter : EventCounter) : EventCounter :=
  match counter.dq with
  | some queue =>
      let taken := queue.messageGet env
      match taken.1 with
      | none => { counter with dq := some taken.2 }
      | some due =>
          { ({ counter with dq := some taken.2 }.update env due) with lastTime := env.gettime }
  | none => counter

def timeUpdate (env : Env) (counter : EventCounter) : EventCounter :=
  let taken := counter.takeDelayed env
  let decayed := taken.counter - (env.gettime - taken.lastTime) * taken.dDecrement
  let memory := if taken.params.get "memory" = "" then "10" else taken.params.get "memory"
  { taken with
    counter := if decayed < 0 then 0 else decayed
    currentTime := env.gettime
    lastTime := env.gettime
    history := (EvList.update (env.gettime - a2double env memory) taken.history).2 }

def clearDQ (counter : EventCounter) : EventCounter :=
  { counter with dq := counter.dq.map fun queue => { queue with messages := [] } }

end EventCounter

abbrev EventCounterSet := List EventCounter

namespace EventCounterSet

/-- The sum of the counters as `timeUpdate` of the set accumulates it. -/
def total (set : EventCounterSet) : ℚ := set.foldl (fun sum counter => sum + counter.counter) 0

def timeUpdate (env : Env) (set : EventCounterSet) : Bool × EventCounterSet :=
  let updated := set.map (EventCounter.timeUpdate env)
  (0 < total updated, updated)

/-- Every counter sees the message as the counters before it have left it. -/
def eventUpdateFrom (env : Env) : MMessage → EventCounterSet → ℚ × EventCounterSet
  | _, [] => (0, [])
  | message, counter :: rest =>
      let updated := counter.eventUpdate env message
      let tail := eventUpdateFrom env updated.2.1 rest
      (updated.1 + tail.1, updated.2.2 :: tail.2)

def eventUpdate (env : Env) (message : MMessage) (set : EventCounterSet) :
    Bool × EventCounterSet :=
  let updated := eventUpdateFrom env message (timeUpdate env set).2
  (0 < updated.1, updated.2)

def clearDQ (set : EventCounterSet) : EventCounterSet := set.map EventCounter.clearDQ

end EventCounterSet

/-! ## Boolean conditions -/

structure BooleanCondition where
  params : MParams
  name : String
  value : ℚ
  threshold : ℚ
  aliases : NameList
  lastTime : ℚ
  deriving DecidableEq

namespace BooleanCondition

def new (env : Env) (unloaded : MParams) (nm : String) : BooleanCondition :=
  let params := unloaded.load
  { params := params
    name := if params.get "name" = "" then nm else params.get "name"
    value := 0
    threshold := a2double env (params.get "threshold")
    aliases := NameList.init [] (params.get "alias") '+'
    lastTime := env.gettime }

def isActive (condition : BooleanCondition) : Bool := condition.threshold < condition.value

def matchMessage (condition : BooleanCondition) (message : MMessage) : Bool :=
  let name := message.msubtype
  let source := message.getString "source"
  name = condition.params.ty || condition.aliases.member name ||
    message.getString source = condition.params.ty || condition.aliases.member source

def eventUpdate (env : Env) (message : MMessage) (condition : BooleanCondition) :
    BooleanCondition :=
  if condition.matchMessage message then
    let tvalue := message.getString "value"
    { condition with
      value :=
        if tvalue = "ON" ∨ tvalue = "On" ∨ tvalue = "on" then 1
        else if tvalue = "OFF" ∨ tvalue = "Off" ∨ tvalue = "off" then 0
        else a2double env tvalue }
  else condition

end BooleanCondition

abbrev BooleanConditionSet := List BooleanCondition

def BooleanConditionSet.eventUpdate (env : Env) (message : MMessage)
    (set : BooleanConditionSet) : BooleanConditionSet :=
  set.map (BooleanCondition.eventUpdate env message)

end Hat

/-!
# The memory of an event counter

Events older than the memory of a counter are removed from its history by a loop that
erases while it traverses, and what is left is reported in the alarms.
-/

namespace Hat

open Hat.Hsrv

namespace EvList

def isOlder (time : ℚ) (event : Event) : Bool := event.time < time

theorem update_eq_eraseSkipping (time : ℚ) (events : List Event) :
    update time events = eraseSkipping (isOlder time) events := by
  fun_induction eraseSkipping (isOlder time) events with
  | case1 => rfl
  | case2 event holder => simpa [update, isOlder] using holder
  | case3 event hrecent => simpa [update, isOlder] using hrecent
  | case4 event next rest holder ih =>
      simp only [isOlder, decide_eq_true_eq] at holder
      rw [update, if_pos holder, ih]
  | case5 event next rest hrecent ih =>
      simp only [isOlder, decide_eq_true_eq] at hrecent
      rw [update, if_neg hrecent, ih]

/-- The events from `time` on. -/
def since (time : ℚ) (events : List Event) : List Event :=
  events.filter fun event => time ≤ event.time

theorem since_eq_filter_not (time : ℚ) (events : List Event) :
    since time events = events.filter fun event => !isOlder time event := by
  apply List.filter_congr
  intro event _
  rw [isOlder, ← decide_not, decide_eq_decide, not_lt]

/-- An update leaves the events from `time` on and returns the number of the others. -/
structure Trims (time : ℚ) (events : List Event) : Prop where
  left : (update time events).2 = since time events
  removed : (update time events).1 + (update time events).2.length = events.length

/-- No event older than `time` directly follows another. -/
def OlderApart (time : ℚ) (events : List Event) : Prop := Scattered (isOlder time) events

instance (time : ℚ) : DecidablePred (OlderApart time) :=
  inferInstanceAs (DecidablePred (Scattered _))

theorem trims_iff_olderApart (time : ℚ) (events : List Event) :
    Trims time events ↔ OlderApart time events := by
  calc Trims time events
    _ ↔ (update time events).2 = since time events := by
        constructor
        · exact Trims.left
        · intro hleft
          refine ⟨hleft, ?_⟩
          rw [update_eq_eraseSkipping]
          exact length_eraseSkipping (isOlder time) events
    _ ↔ OlderApart time events := by
        rw [update_eq_eraseSkipping, since_eq_filter_not]
        exact eraseSkipping_eq_filter_iff (isOlder time) events

end EvList

namespace EventCounter

/-- The event of a delayed message that the next time update counts. -/
def dueEvents (env : Env) (counter : EventCounter) : List Event :=
  match counter.dq.bind fun queue => (queue.messageGet env).1 with
  | some due => (({ counter with history := [] }).update env due).history
  | none => []

theorem history_takeDelayed (env : Env) (counter : EventCounter) :
    (counter.takeDelayed env).history = counter.history ++ counter.dueEvents env := by
  simp only [takeDelayed, dueEvents]
  cases counter.dq with
  | none => simp
  | some queue =>
      simp only [Option.bind_some]
      cases (queue.messageGet env).1 with
      | none => simp
      | some due => simp [update]

theorem params_takeDelayed (env : Env) (counter : EventCounter) :
    (counter.takeDelayed env).params = counter.params := by
  simp only [takeDelayed]
  cases counter.dq with
  | none => rfl
  | some queue =>
      dsimp only
      cases (queue.messageGet env).1 <;> rfl

/-- The time at which the memory of the counter begins. -/
def memoryStart (env : Env) (counter : EventCounter) : ℚ :=
  env.gettime -
    a2double env (if counter.params.get "memory" = "" then "10" else counter.params.get "memory")

theorem history_timeUpdate (env : Env) (counter : EventCounter) :
    (counter.timeUpdate env).history =
      (EvList.update (counter.memoryStart env) (counter.history ++ counter.dueEvents env)).2 := by
  rw [memoryStart, ← history_takeDelayed, ← params_takeDelayed env counter]
  rfl

/-- After a time update the counter reports the events within its memory and no others. -/
structure Remembers (env : Env) (counter : EventCounter) : Prop where
  within : ∀ event ∈ (counter.timeUpdate env).history, counter.memoryStart env ≤ event.time
  history : EvList.history (counter.timeUpdate env).history =
    EvList.history (EvList.since (counter.memoryStart env)
      (counter.history ++ counter.dueEvents env))
  video : EvList.video (counter.timeUpdate env).history =
    EvList.video (EvList.since (counter.memoryStart env)
      (counter.history ++ counter.dueEvents env))

theorem remembers_iff_olderApart (env : Env) (counter : EventCounter) :
    counter.Remembers env ↔
      EvList.OlderApart (counter.memoryStart env) (counter.history ++ counter.dueEvents env) := by
  constructor
  · intro hremembers
    apply (forall_mem_eraseSkipping_iff _ _).mp
    intro event hevent
    rw [← EvList.update_eq_eraseSkipping, ← history_timeUpdate] at hevent
    exact decide_eq_false (not_lt.mpr (hremembers.within event hevent))
  · intro hapart
    have hleft := ((EvList.trims_iff_olderApart _ _).mpr hapart).left
    rw [← history_timeUpdate] at hleft
    refine ⟨?_, by rw [hleft], by rw [hleft]⟩
    intro event hevent
    rw [hleft] at hevent
    exact of_decide_eq_true (List.mem_filter.mp hevent).2

/-- A list is trimmed, and the alarms mention the memory of a counter only, exactly when no
old event directly follows another. -/
theorem trims_remembers_iff (time : ℚ) (events : List Event) (env : Env) (counter : EventCounter) :
    (EvList.Trims time events ↔ EvList.OlderApart time events) ∧
      (counter.Remembers env ↔
        EvList.OlderApart (counter.memoryStart env)
          (counter.history ++ counter.dueEvents env)) := by
  constructor
  · exact EvList.trims_iff_olderApart time events
  · exact remembers_iff_olderApart env counter

/-- The door and the window, fifteen and fourteen seconds before the first night. -/
def opened : EventCounter :=
  let counter := new firstNight ⟨"event", [⟨"threshold", "generic", "1"⟩], none, none⟩ "opened"
  { counter with history := [⟨11030, "door", ""⟩, ⟨11031, "window", ""⟩] }

/-- The window stays in a memory of ten seconds. -/
theorem not_trims_opened :
    ¬EvList.Trims 11035 opened.history ∧ ¬opened.Remembers firstNight := by
  constructor
  · intro htrims
    exact absurd htrims.left (by decide +kernel)
  · intro hremembers
    exact absurd hremembers.history (by decide +kernel)

end EventCounter

end Hat
