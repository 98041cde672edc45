import Hat.Core.Machine
import Hat.MqttBBDevices.Timer
import Mathlib.Tactic.Linarith

/-!
# Runs of the timer

The timer is started by wait sets and sends one wait end for every timer that is not started
again before: at the poll with which the periods of the polls that counted since then reach
its duration.
-/

namespace Hat

open Hat.Hsrv

namespace Timer

/-- The message is the end of the timer of the value. -/
def IsEnd (value : String) (m : MMessage) : Prop :=
  (m.mtype = "wait" ∧ m.msubtype = "end") ∧ m.getString "value" = value

instance (value : String) : DecidablePred (IsEnd value) := fun _ =>
  inferInstanceAs (Decidable (_ ∧ _))

/-- How many of the messages are ends of the timer of the value. -/
def endsOf (value : String) (messages : List MMessage) : ℕ := messages.countP (IsEnd value)

/-- What a wait end says. -/
def endText (m : MMessage) : String × String × String := (m.mtype, m.msubtype, m.getString "value")

/-- The message that is filled again and again holds no list. -/
def Scalar (m : MMessage) : Prop := ∀ items, m.fields.find? "value" ≠ some (.mstringList items)

theorem scalar_blank : Scalar MMessage.blank := by
  intro items h
  cases h

end Timer

namespace TimedCondition

/-- The entry is answered with a wait end. -/
def isOver (tc : TimedCondition) : Bool := tc.waitTime ≤ 0 && !tc.expired

theorem message_of_isOver {tc : TimedCondition} (hover : tc.isOver = true) (m : MMessage) :
    tc.message m = some (({ m with mtype := tc.type, msubtype := "end" } : MMessage).add "value"
      tc.value, { tc with expired := true }) := by
  rw [isOver, Bool.and_eq_true, decide_eq_true_eq, Bool.not_eq_true'] at hover
  rw [message, if_neg (not_lt.mpr hover.1), hover.2, if_neg Bool.false_ne_true]

theorem message_of_not_isOver {tc : TimedCondition} (hover : tc.isOver = false) (m : MMessage) :
    tc.message m = none := by
  rw [isOver, Bool.and_eq_false_iff, decide_eq_false_iff_not, Bool.not_eq_false'] at hover
  exact (message_eq_none_iff m tc).mpr (hover.imp_left not_le.mp)

end TimedCondition

namespace Timer

theorem scalar_filled {m : MMessage} (hscalar : Scalar m) (mtype msubtype value : String) :
    Scalar (({ m with mtype := mtype, msubtype := msubtype } : MMessage).add "value" value) := by
  intro items h
  rw [MMessage.find?_add, if_pos rfl, Option.some.injEq] at h
  cases hfield : m.fields.find? "value" with
  | none =>
      simp only [hfield, MMessage.added] at h
      cases h
  | some list =>
      cases list with
      | mstring old =>
          simp only [hfield, MMessage.added] at h
          cases h
      | mstringList old => exact hscalar old hfield

/-- The loop answers the entries that are over, each with a wait end of its value. -/
theorem ends_notifyEnds {m : MMessage} (hscalar : Scalar m) (entries : List TimedCondition) :
    Scalar (notifyEnds m entries).1 ∧
      (notifyEnds m entries).2.2.map endText =
        (entries.filter TimedCondition.isOver).map fun tc => (tc.type, "end", tc.value) := by
  induction entries generalizing m with
  | nil => exact ⟨hscalar, rfl⟩
  | cons tc rest ih =>
      rw [notifyEnds]
      cases hover : tc.isOver with
      | false =>
          rw [TimedCondition.message_of_not_isOver hover, List.filter_cons_of_neg
            (by rw [hover]; exact Bool.false_ne_true)]
          exact ih hscalar
      | true =>
          rw [TimedCondition.message_of_isOver hover, List.filter_cons_of_pos hover]
          have hfilled := scalar_filled hscalar tc.type "end" tc.value
          obtain ⟨hafter, htexts⟩ := ih hfilled
          refine ⟨hafter, ?_⟩
          have htext : endText (({ m with mtype := tc.type, msubtype := "end" } : MMessage).add
              "value" tc.value) = (tc.type, "end", tc.value) := by
            have hretyped : Scalar { m with mtype := tc.type, msubtype := "end" } := hscalar
            rw [endText, MMessage.mtype_add, MMessage.msubtype_add,
              MMessage.getString_add_self _ _ _ hretyped]
          rw [List.map_cons, List.map_cons, htexts, htext]

end Timer

/-- The timer with what a run has told it. -/
structure TimerRun where
  timer : Timer
  /-- The time of the last poll that counted. -/
  lastAccepted : ℚ
  /-- The duration of a timer, with the periods of the polls that counted since its start. -/
  started : String → Option (ℚ × ℚ)
  /-- The wait ends sent since the timer of the value was last started. -/
  sent : String → ℕ

/-- Each message is read with a clock of its own. -/
inductive TimerInput
  | set (clock : Env) (msg : MMessage)
  | poll (clock : Env) (msg : MMessage)

namespace TimerRun

def start : TimerRun := ⟨Timer.new, 0, fun _ => none, fun _ => 0⟩

/-- A poll closer than half a period to the last one that counted does not count. -/
def TooClose (run : TimerRun) (period time : ℚ) : Prop := time - run.lastAccepted ≤ period / 2

instance (run : TimerRun) (period time : ℚ) : Decidable (run.TooClose period time) :=
  inferInstanceAs (Decidable (_ ≤ _))

/-- The time goes on for all timers that have been started. -/
def elapse (period : ℚ) (started : String → Option (ℚ × ℚ)) (value : String) : Option (ℚ × ℚ) :=
  (started value).map fun timer => (timer.1, timer.2 + period)

/-- A wait set starts a timer when its duration is positive; a poll has a positive period. -/
def step (run : TimerRun) : TimerInput → Option TimerRun
  | .set clock msg =>
      if msg.mtype = "wait" ∧ msg.msubtype = "set" then
        let value := msg.getString "value"
        let duration := Timer.getDoubleDuration clock value
        let after := run.timer.receive clock msg
        if 0 < duration then
          some {
            timer := after.1
            lastAccepted := run.lastAccepted
            started := Function.update run.started value (some (duration, 0))
            sent := fun other =>
              Function.update run.sent value 0 other + Timer.endsOf other after.2 }
        else some { run with
          timer := after.1
          sent := fun other => run.sent other + Timer.endsOf other after.2 }
      else none
  | .poll clock msg =>
      if (msg.mtype = "trigger" ∧ msg.msubtype = "poll") ∧ 0 < msg.getDouble clock "period" then
        let period := msg.getDouble clock "period"
        let time := msg.getDouble clock "time"
        let after := run.timer.receive clock msg
        let sent := fun other => run.sent other + Timer.endsOf other after.2
        if run.TooClose period time then some { run with timer := after.1, sent := sent }
        else some {
          timer := after.1
          lastAccepted := time
          started := elapse period run.started
          sent := sent }
      else none

/-- One end for a timer whose duration is reached, and none for any other. -/
def endsDue : Option (ℚ × ℚ) → ℕ
  | some (duration, accumulated) => if duration ≤ accumulated then 1 else 0
  | none => 0

/-- Since its last start every timer has been ended once if its duration has been reached, and
not at all before. -/
def EndsOnce (run : TimerRun) : Prop := ∀ value, run.sent value = endsDue (run.started value)

/-- The messages that the timer sends for an input. -/
def messages (run : TimerRun) : TimerInput → List MMessage
  | .set clock msg => (run.timer.receive clock msg).2
  | .poll clock msg => (run.timer.receive clock msg).2

/-- Only ends of timers are sent, and a poll that is too close changes nothing. -/
structure Quiet (run : TimerRun) (input : TimerInput) : Prop where
  ends : ∀ next, run.step input = some next → ∀ m ∈ run.messages input,
    ∃ value, run.started value ≠ none ∧ Timer.IsEnd value m
  close : ∀ clock msg, input = .poll clock msg →
    run.TooClose (msg.getDouble clock "period") (msg.getDouble clock "time") →
    ∀ next, run.step input = some next → next = run ∧ run.messages input = []

/-- The kind of the entry of a value. -/
def setKind (value : String) : String × String × String := ("wait", "set", value)

def entryOf (entries : List TimedCondition) (value : String) : Option TimedCondition :=
  entries.find? fun tc => Timer.kind tc = setKind value

/-- The entry of a timer has the time that is left, or has expired. -/
def Shows : Option TimedCondition → Option (ℚ × ℚ) → Prop
  | some tc, some (duration, accumulated) =>
      if duration ≤ accumulated then tc.expired = true
      else tc.expired = false ∧ tc.waitTime = duration - accumulated
  | none, none => True
  | _, _ => False

/-- The timer has one entry for every timer that was started, and no others. -/
structure Tracked (run : TimerRun) : Prop where
  last : run.timer.lastUpdateTime = run.lastAccepted
  scalar : Timer.Scalar run.timer.outMess
  nodup : (run.timer.condition.map Timer.kind).Nodup
  kinds : ∀ kind ∈ run.timer.condition.map Timer.kind, kind = setKind kind.2.2
  shows : ∀ value, Shows (entryOf run.timer.condition value) (run.started value)
  once : run.EndsOnce

theorem tracked_start : Tracked start where
  last := rfl
  scalar := Timer.scalar_blank
  nodup := List.nodup_nil
  kinds := fun _ hkind => absurd hkind List.not_mem_nil
  shows := fun _ => trivial
  once := fun _ => rfl

/-- What a poll that counts does to the entry of a timer. -/
theorem Shows.poll {tc : TimedCondition} {timer : ℚ × ℚ} (hshows : Shows (some tc) (some timer))
    {period : ℚ} (hperiod : 0 < period) :
    Shows (some (tc.update period).settle) (some (timer.1, timer.2 + period)) ∧
      endsDue (some timer) + (if (tc.update period).isOver then 1 else 0) =
        endsDue (some (timer.1, timer.2 + period)) := by
  obtain ⟨duration, accumulated⟩ := timer
  rw [Shows] at hshows
  simp only [Shows, endsDue]
  by_cases hreached : duration ≤ accumulated
  · rw [if_pos hreached] at hshows
    have hstill : duration ≤ accumulated + period := by
      linarith
    rw [if_pos hreached, if_pos hstill, if_pos hstill, TimedCondition.update, if_pos hshows,
      TimedCondition.isOver, hshows, TimedCondition.settle]
    refine ⟨?_, by simp⟩
    split_ifs
    · exact hshows
    · rfl
  · rw [if_neg hreached] at hshows
    obtain ⟨hexpired, hleft⟩ := hshows
    have hupdate : tc.update period = { tc with waitTime := tc.waitTime - period } := by
      rw [TimedCondition.update, hexpired, if_neg Bool.false_ne_true]
    have hover : tc.waitTime - period ≤ 0 ↔ duration ≤ accumulated + period := by
      rw [hleft]
      constructor <;> intro h <;> linarith
    rw [if_neg hreached, hupdate, TimedCondition.settle, TimedCondition.isOver]
    simp only [hexpired, Bool.not_false, Bool.and_true, decide_eq_true_eq]
    by_cases hreach : duration ≤ accumulated + period
    · rw [if_pos hreach, if_pos hreach, if_pos (hover.mpr hreach),
        if_neg (not_lt.mpr (hover.mpr hreach))]
      exact ⟨rfl, rfl⟩
    · have hrunning : 0 < tc.waitTime - period := not_le.mp fun h => hreach (hover.mp h)
      rw [if_neg hreach, if_neg hreach, if_neg fun h => hreach (hover.mp h), if_pos hrunning]
      refine ⟨⟨rfl, ?_⟩, rfl⟩
      rw [hleft]
      ring

/-! ## Steps -/

section Steps

variable {run next : TimerRun} {clock : Env} {msg : MMessage}

theorem entryOf_startTimer {tc : TimedCondition} {started : String}
    (hkind : Timer.kind tc = setKind started) (entries : List TimedCondition) (value : String) :
    entryOf (Timer.startTimer tc entries) value =
      if value = started then some tc else entryOf entries value := by
  have hvalue : setKind started = setKind value ↔ value = started := by
    simp only [setKind, Prod.mk.injEq, true_and]
    exact eq_comm
  rw [entryOf, Timer.startTimer_eq_overwrite, find?_overwrite, hkind, entryOf]
  simp only [hvalue]

/-- The entry that a wait set starts. -/
def setEntry (clock : Env) (msg : MMessage) : TimedCondition :=
  .new clock "wait" "set" (msg.getString "value")

theorem receive_set (hset : msg.mtype = "wait" ∧ msg.msubtype = "set") (timer : Timer) :
    timer.receive clock msg =
      if 0 < Timer.getDoubleDuration clock (msg.getString "value") then
        ({ timer with condition := Timer.startTimer (setEntry clock msg) timer.condition }, [])
      else (timer, []) := by
  simp [Timer.receive, hset.1, hset.2, setEntry]

theorem messages_set (hset : msg.mtype = "wait" ∧ msg.msubtype = "set") (timer : Timer) :
    (timer.receive clock msg).2 = [] := by
  rw [receive_set hset]
  split_ifs <;> rfl

theorem Tracked.set (htracked : run.Tracked) (hset : msg.mtype = "wait" ∧ msg.msubtype = "set")
    (hnext : run.step (.set clock msg) = some next) : next.Tracked := by
  rw [step, if_pos hset] at hnext
  simp only [messages_set hset, Timer.endsOf, List.countP_nil, Nat.add_zero] at hnext
  rw [receive_set hset] at hnext
  split_ifs at hnext with hduration
  · cases hnext
    have hkind : Timer.kind (setEntry clock msg) = setKind (msg.getString "value") := rfl
    refine ⟨htracked.last, htracked.scalar, Timer.nodup_startTimer _ htracked.nodup, ?_, ?_, ?_⟩
    · intro kind hmem
      obtain rfl | hold := Timer.mem_kinds_startTimer _ _ hmem
      · exact hkind
      · exact htracked.kinds kind hold
    · intro value
      rw [entryOf_startTimer hkind]
      simp only [Function.update_apply]
      split_ifs with hvalue
      · rw [Shows, if_neg (not_le.mpr hduration), sub_zero]
        exact ⟨rfl, Timer.waitTime_new clock "wait" "set" _⟩
      · exact htracked.shows value
    · intro value
      simp only [Function.update_apply]
      split_ifs with hvalue
      · rw [endsDue, if_neg (not_le.mpr hduration)]
      · exact htracked.once value
  · cases hnext
    exact htracked

/-- The ends that the loop sends for a value. -/
theorem endsOf_notifyEnds {m : MMessage} (hscalar : Timer.Scalar m)
    {entries : List TimedCondition} (hnodup : (entries.map Timer.kind).Nodup)
    (hkinds : ∀ kind ∈ entries.map Timer.kind, kind = setKind kind.2.2) (value : String) :
    Timer.endsOf value (Timer.notifyEnds m entries).2.2 =
      if (entryOf entries value).any TimedCondition.isOver then 1 else 0 := by
  have htexts := (Timer.ends_notifyEnds hscalar entries).2
  rw [entryOf, ← countP_filter_of_nodup Timer.kind hnodup TimedCondition.isOver]
  calc Timer.endsOf value (Timer.notifyEnds m entries).2.2
      = ((Timer.notifyEnds m entries).2.2.map Timer.endText).countP
          fun text => text = ("wait", "end", value) := by
        rw [List.countP_map]
        refine List.countP_congr fun msg _ => ?_
        simp [Timer.IsEnd, Timer.endText, and_assoc]
    _ = (entries.filter TimedCondition.isOver).countP fun tc => Timer.kind tc = setKind value := by
        rw [htexts, List.countP_map]
        refine List.countP_congr fun tc htc => ?_
        have hkind := hkinds _ (List.mem_map_of_mem (List.mem_filter.mp htc).1)
        have htype : tc.type = "wait" := congrArg Prod.fst hkind
        rw [hkind]
        simp [Timer.kind, setKind, htype]

theorem entryOf_map {f : TimedCondition → TimedCondition}
    (hf : ∀ tc, Timer.kind (f tc) = Timer.kind tc) (entries : List TimedCondition)
    (value : String) : entryOf (entries.map f) value = (entryOf entries value).map f := by
  rw [entryOf, List.find?_map, entryOf]
  simp only [Function.comp_def, hf]

theorem accepts_iff (htracked : run.Tracked) (period time : ℚ) :
    run.timer.Accepts period time ↔ ¬run.TooClose period time := by
  rw [Timer.Accepts, TooClose, htracked.last, not_le]
  exact lt_sub_iff_add_lt.symm

/-- A poll with a positive period, as the timer receives it. -/
theorem receive_poll (htracked : run.Tracked)
    (hpoll : (msg.mtype = "trigger" ∧ msg.msubtype = "poll") ∧ 0 < msg.getDouble clock "period") :
    run.timer.receive clock msg =
      if run.TooClose (msg.getDouble clock "period") (msg.getDouble clock "time") then
        (run.timer, [])
      else
        let after := Timer.notifyEnds run.timer.outMess
          (run.timer.condition.map (TimedCondition.update (msg.getDouble clock "period")))
        (⟨after.2.1, after.1, msg.getDouble clock "time"⟩, after.2.2) := by
  rw [Timer.receive, if_pos hpoll.1, Timer.poll, if_pos hpoll.2]
  by_cases hclose : run.TooClose (msg.getDouble clock "period") (msg.getDouble clock "time")
  · rw [if_neg fun haccepts => (accepts_iff htracked _ _).mp haccepts hclose, if_pos hclose]
  · rw [if_pos ((accepts_iff htracked _ _).mpr hclose), if_neg hclose]

/-- With a poll that counts every timer gets its end when its duration is reached. -/
theorem shows_poll (htracked : run.Tracked) {period : ℚ} (hperiod : 0 < period)
    (value : String) :
    Shows (entryOf (run.timer.condition.map fun tc => (tc.update period).settle) value)
        (elapse period run.started value) ∧
      run.sent value + (if (entryOf (run.timer.condition.map (TimedCondition.update period))
          value).any TimedCondition.isOver then 1 else 0) =
        endsDue (elapse period run.started value) := by
  have hshows := htracked.shows value
  have honce := htracked.once value
  rw [entryOf_map fun tc => by simp, entryOf_map fun tc => Timer.kind_update period tc, elapse,
    honce]
  cases hentry : entryOf run.timer.condition value with
  | none =>
      cases hstarted : run.started value with
      | none => exact ⟨trivial, rfl⟩
      | some timer =>
          rw [hentry, hstarted] at hshows
          exact hshows.elim
  | some tc =>
      cases hstarted : run.started value with
      | none =>
          rw [hentry, hstarted] at hshows
          exact hshows.elim
      | some timer =>
          rw [hentry, hstarted] at hshows
          exact hshows.poll hperiod

/-- A poll that counts keeps the timer tracked. -/
theorem Tracked.elapse (htracked : run.Tracked) {period : ℚ} (hperiod : 0 < period) (time : ℚ) :
    let after := Timer.notifyEnds run.timer.outMess
      (run.timer.condition.map (TimedCondition.update period))
    Tracked {
      timer := ⟨after.2.1, after.1, time⟩
      lastAccepted := time
      started := elapse period run.started
      sent := fun value => run.sent value + Timer.endsOf value after.2.2 } := by
  have hshows := shows_poll htracked hperiod
  have hkind : (run.timer.condition.map (TimedCondition.update period)).map Timer.kind =
      run.timer.condition.map Timer.kind := by
    rw [List.map_map]
    exact List.map_congr_left fun tc _ => Timer.kind_update period tc
  have hnodup := hkind.symm ▸ htracked.nodup
  have hkinds := hkind.symm ▸ htracked.kinds
  have hcondition : (Timer.notifyEnds run.timer.outMess
      (run.timer.condition.map (TimedCondition.update period))).2.1 =
        run.timer.condition.map fun tc => (tc.update period).settle := by
    rw [Timer.condition_notifyEnds, List.map_map]
    rfl
  refine ⟨rfl, ?_, ?_, ?_, ?_, ?_⟩
  · exact (Timer.ends_notifyEnds htracked.scalar _).1
  · exact (Timer.map_kind_notifyEnds _ _).symm ▸ hnodup
  · exact (Timer.map_kind_notifyEnds _ _).symm ▸ hkinds
  · intro value
    rw [hcondition]
    exact (hshows value).1
  · intro value
    change run.sent value + Timer.endsOf value _ = _
    rw [endsOf_notifyEnds htracked.scalar hnodup hkinds]
    exact (hshows value).2

theorem Tracked.poll (htracked : run.Tracked) (hnext : run.step (.poll clock msg) = some next) :
    next.Tracked := by
  rw [step] at hnext
  split_ifs at hnext with hpoll
  rw [receive_poll htracked hpoll] at hnext
  by_cases hclose : run.TooClose (msg.getDouble clock "period") (msg.getDouble clock "time")
  · simp only [if_pos hclose, Timer.endsOf, List.countP_nil, Nat.add_zero] at hnext
    cases hnext
    exact htracked
  · simp only [if_neg hclose] at hnext
    cases hnext
    exact htracked.elapse hpoll.2 _

theorem set_of_step (hnext : run.step (.set clock msg) = some next) :
    msg.mtype = "wait" ∧ msg.msubtype = "set" := by
  rw [step] at hnext
  split_ifs at hnext with hset
  exact hset

theorem poll_of_step (hnext : run.step (.poll clock msg) = some next) :
    (msg.mtype = "trigger" ∧ msg.msubtype = "poll") ∧ 0 < msg.getDouble clock "period" := by
  rw [step] at hnext
  split_ifs at hnext with hpoll
  exact hpoll

theorem Tracked.step (htracked : run.Tracked) {input : TimerInput}
    (hnext : run.step input = some next) : next.Tracked := by
  cases input with
  | set clock msg => exact htracked.set (set_of_step hnext) hnext
  | poll clock msg => exact htracked.poll hnext

/-! ### What is sent -/

theorem Tracked.started_ne_none (htracked : run.Tracked) {value : String}
    (hkind : setKind value ∈ run.timer.condition.map Timer.kind) : run.started value ≠ none := by
  obtain ⟨tc, htc, hkind⟩ := List.mem_map.mp hkind
  intro hnone
  have hshows := htracked.shows value
  rw [hnone] at hshows
  cases hentry : entryOf run.timer.condition value with
  | none => exact absurd (decide_eq_true hkind) (List.find?_eq_none.mp hentry tc htc)
  | some found =>
      rw [hentry] at hshows
      exact hshows

/-- Every message of the loop is the end of a timer. -/
theorem isEnd_of_mem_notifyEnds (htracked : run.Tracked) {period : ℚ} {m : MMessage}
    (hm : m ∈ (Timer.notifyEnds run.timer.outMess
      (run.timer.condition.map (TimedCondition.update period))).2.2) :
    ∃ value, run.started value ≠ none ∧ Timer.IsEnd value m := by
  have htext := List.mem_map_of_mem (f := Timer.endText) hm
  rw [(Timer.ends_notifyEnds htracked.scalar _).2] at htext
  obtain ⟨tc, htc, htext⟩ := List.mem_map.mp htext
  obtain ⟨old, hold, rfl⟩ := List.mem_map.mp (List.mem_filter.mp htc).1
  have hmem := List.mem_map_of_mem (f := Timer.kind) hold
  have hkind := htracked.kinds _ hmem
  rw [hkind] at hmem
  have hsame : Timer.kind (old.update period) = setKind old.value :=
    (Timer.kind_update period old).trans hkind
  simp only [Timer.kind, setKind, Prod.mk.injEq] at hsame
  simp only [Timer.endText, hsame, Prod.mk.injEq] at htext
  exact ⟨old.value, htracked.started_ne_none hmem,
    ⟨htext.1.symm, htext.2.1.symm⟩, htext.2.2.symm⟩

theorem Tracked.quiet (htracked : run.Tracked) (input : TimerInput) : run.Quiet input := by
  constructor
  · intro next hnext m hm
    cases input with
    | set clock msg =>
        rw [messages, messages_set (set_of_step hnext)] at hm
        exact absurd hm List.not_mem_nil
    | poll clock msg =>
        rw [messages, receive_poll htracked (poll_of_step hnext)] at hm
        split_ifs at hm
        · exact absurd hm List.not_mem_nil
        · exact isEnd_of_mem_notifyEnds htracked hm
  · rintro clock msg rfl hclose next hnext
    have hpoll := poll_of_step hnext
    have hreceive := receive_poll htracked hpoll
    rw [if_pos hclose] at hreceive
    simp only [TimerRun.step, if_pos hpoll, if_pos hclose, hreceive, Timer.endsOf, List.countP_nil,
      Nat.add_zero, Option.some.injEq] at hnext
    exact ⟨hnext.symm, by rw [messages, hreceive]⟩

end Steps

/-- In every run each timer is ended once when its duration is reached and not before, until
it is started again, and polls that come too close change nothing. -/
theorem endsOnce_run (inputs : List TimerInput) :
    Machine.Always step EndsOnce start inputs ∧ Machine.Along step Quiet start inputs := by
  have hstep : ∀ run input next, Tracked run → step run input = some next → Tracked next :=
    fun run input next htracked hnext => htracked.step hnext
  constructor
  · exact (Machine.always_of_invariant hstep inputs tracked_start).mono fun run h => h.once
  · exact Machine.along_of_invariant hstep (fun run input h => h.quiet input) inputs tracked_start

def setInput (value : String) : TimerInput :=
  .set firstNight ((MMessage.mk2 "wait" "set").add "value" value)

def pollInput (period time : String) : TimerInput :=
  .poll firstNight (((MMessage.mk2 "trigger" "poll").add "period" period).add "time" time)

/-- Three polls count and the second of them ends the timer; one is too close. -/
example : (Machine.exec step start [setInput "2_lamp", pollInput "1" "10", pollInput "1" "10.5",
    pollInput "1" "11", pollInput "1" "12"]).map (fun run =>
      (run.started "2_lamp", run.sent "2_lamp")) = some (some (2, 3), 1) := by
  decide +kernel

end TimerRun

end Hat
