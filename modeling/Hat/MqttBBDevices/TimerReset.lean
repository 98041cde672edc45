import Hat.MqttBBDevices.Timer

/-!
# Resetting a timer

A wait reset should end the timers of its value.  It starts an entry of its own kind, which
is told apart from those of wait sets, and looks for it in the first place of the list only.
-/

namespace Hat

open Hat.Hsrv

namespace Timer

section Entries

variable {tc other : TimedCondition}

theorem mem_resetTimer_of_kind_ne (hkind : kind other ≠ kind tc) (entries : List TimedCondition) :
    other ∈ resetTimer tc entries ↔ other ∈ entries := by
  cases entries with
  | nil => exact Iff.rfl
  | cons first rest =>
      rw [resetTimer]
      split_ifs with hequal
      · have hsame : kind first = kind tc := (isEqual_iff _ _).mp hequal
        have hfirst : other ≠ first := by
          rintro rfl
          exact hkind hsame
        have hzero : other ≠ { first with waitTime := 0 } := by
          rintro rfl
          exact hkind hsame
        simp [hfirst, hzero]
      · exact Iff.rfl

theorem filter_resetTimer {p : TimedCondition → Bool}
    (hp : ∀ other, kind other = kind tc → p other = false) (entries : List TimedCondition) :
    (resetTimer tc entries).filter p = entries.filter p := by
  cases entries with
  | nil => rfl
  | cons first rest =>
      rw [resetTimer]
      split_ifs with hequal
      · have hsame : kind first = kind tc := (isEqual_iff _ _).mp hequal
        simp [hp first hsame, hp { first with waitTime := 0 } hsame]
      · rfl

/-- An entry with time left is gone after its reset exactly when it was started in the first
place. -/
theorem notMem_resetTimer_iff (htime : 0 < tc.waitTime) (entries : List TimedCondition) :
    tc ∉ resetTimer tc (startTimer tc entries) ↔
      ∀ first ∈ entries.head?, kind first = kind tc ∧ tc ∉ entries.tail := by
  have hself : tc.isEqual tc = true := (isEqual_iff tc tc).mpr rfl
  have hzero : tc ≠ { tc with waitTime := 0 } := by
    intro heq
    rw [heq] at htime
    exact lt_irrefl 0 htime
  cases entries with
  | nil => simp [startTimer, resetTimer, hself, hzero]
  | cons first rest =>
      rw [startTimer]
      split_ifs with hequal
      · have hkind := (isEqual_iff _ _).mp hequal
        simp [resetTimer, hself, hzero, hkind]
      · have hmem : tc ∈ startTimer tc rest := by
          rw [startTimer_eq_overwrite]
          exact self_mem_overwrite kind tc rest
        have hkind : kind first ≠ kind tc := fun heq => hequal ((isEqual_iff _ _).mpr heq)
        simp [resetTimer, hequal, hkind, hmem]

end Entries

section Reset

variable (env : Env) (msg : MMessage) (timer : Timer)

/-- A wait reset with a positive duration. -/
def Resets : Prop :=
  (msg.mtype = "wait" ∧ msg.msubtype = "reset") ∧
    0 < getDoubleDuration env (msg.getString "value")

instance : Decidable (Resets env msg) := inferInstanceAs (Decidable (_ ∧ _))

/-- A poll that counts. -/
def CountsAsPoll (clock : Env) (pollMsg : MMessage) : Prop :=
  (pollMsg.mtype = "trigger" ∧ pollMsg.msubtype = "poll") ∧
    timer.Accepts (pollMsg.getDouble clock "period") (pollMsg.getDouble clock "time")

instance (clock : Env) (pollMsg : MMessage) : Decidable (timer.CountsAsPoll clock pollMsg) :=
  inferInstanceAs (Decidable (_ ∧ _))

/-- The time by which a poll lets the entries run down. -/
def pollStep (clock : Env) (pollMsg : MMessage) : ℚ :=
  if 0 < pollMsg.getDouble clock "period" then pollMsg.getDouble clock "period" else 1

/-- The entry that a wait reset starts. -/
def resetEntry : TimedCondition := .new env "wait" "reset" (msg.getString "value")

/-- The kind of the entry that a wait set with the value of the message starts. -/
def setKind : String × String × String := ("wait", "set", msg.getString "value")

/-- The reset ends the timers of its value at the next poll, starts none and leaves the
others as they are. -/
structure CancelsTimers (clock : Env) (pollMsg : MMessage) : Prop where
  expired : ∀ tc ∈ ((timer.receive env msg).1.receive clock pollMsg).1.condition,
    kind tc = setKind msg → tc.expired = true
  started : resetEntry env msg ∉ (timer.receive env msg).1.condition
  others : ((timer.receive env msg).1.condition.filter fun tc =>
      tc.value ≠ msg.getString "value") =
    timer.condition.filter fun tc => tc.value ≠ msg.getString "value"

/-- The timers of the value run out at the next poll anyway; and the list is empty, or an
entry of an earlier wait reset of the value is the first, with none at full length behind. -/
structure ResetInFront (clock : Env) (pollMsg : MMessage) : Prop where
  spent : ∀ tc ∈ timer.condition, kind tc = setKind msg →
    tc.expired = true ∨ tc.waitTime ≤ pollStep clock pollMsg
  front : ∀ first ∈ timer.condition.head?,
    kind first = kind (resetEntry env msg) ∧ resetEntry env msg ∉ timer.condition.tail

end Reset

section Receive

variable {env clock : Env} {msg pollMsg : MMessage} {timer : Timer}

theorem receive_reset (hreset : Resets env msg) :
    (timer.receive env msg).1 =
      { timer with condition :=
          resetTimer (resetEntry env msg) (startTimer (resetEntry env msg) timer.condition) } := by
  obtain ⟨⟨htype, hsubtype⟩, hduration⟩ := hreset
  simp [receive, htype, hsubtype, hduration, resetEntry]

theorem condition_poll (hpoll : timer.CountsAsPoll clock pollMsg) :
    (timer.receive clock pollMsg).1.condition =
      timer.condition.map fun tc => (tc.update (pollStep clock pollMsg)).settle := by
  obtain ⟨hkind, haccepts⟩ := hpoll
  rw [receive, if_pos hkind, poll, if_pos haccepts]
  simp only [condition_notifyEnds, List.map_map]
  rfl

/-- An entry is over after a poll when it was before, or when it has no more time left than
the poll takes. -/
theorem expired_settle_update (d : ℚ) (tc : TimedCondition) :
    ((tc.update d).settle).expired = true ↔ tc.expired = true ∨ tc.waitTime ≤ d := by
  by_cases hexpired : tc.expired = true
  · rw [TimedCondition.update, if_pos hexpired, TimedCondition.settle]
    split_ifs <;> simp [hexpired]
  · rw [TimedCondition.update, if_neg hexpired, TimedCondition.settle, or_iff_right hexpired]
    split_ifs with htime
    · exact iff_of_false hexpired fun hle => absurd (sub_pos.mp htime) (not_lt.mpr hle)
    · exact iff_of_true rfl (sub_nonpos.mp (not_lt.mp htime))

theorem expired_iff (hreset : Resets env msg) (hpoll : timer.CountsAsPoll clock pollMsg) :
    (∀ tc ∈ ((timer.receive env msg).1.receive clock pollMsg).1.condition,
        kind tc = setKind msg → tc.expired = true) ↔
      ∀ tc ∈ timer.condition, kind tc = setKind msg →
        tc.expired = true ∨ tc.waitTime ≤ pollStep clock pollMsg := by
  have hafter : (timer.receive env msg).1.CountsAsPoll clock pollMsg := by
    rw [receive_reset hreset]
    exact hpoll
  rw [condition_poll hafter, receive_reset hreset]
  simp only [List.forall_mem_map, kind_settle, kind_update, expired_settle_update]
  refine forall_congr' fun tc => ?_
  by_cases hkind : kind tc = setKind msg
  · have hne : kind tc ≠ kind (resetEntry env msg) := by
      rw [hkind]
      intro heq
      exact absurd (congrArg (fun k => k.2.1) heq) (by decide : ("set" : String) ≠ "reset")
    rw [mem_resetTimer_of_kind_ne hne, startTimer_eq_overwrite, mem_overwrite_of_key_ne kind hne]
  · exact iff_of_true (fun _ h => absurd h hkind) fun _ h => absurd h hkind

theorem others_receive_reset (hreset : Resets env msg) :
    ((timer.receive env msg).1.condition.filter fun tc => tc.value ≠ msg.getString "value") =
      timer.condition.filter fun tc => tc.value ≠ msg.getString "value" := by
  have hother : ∀ other, kind other = kind (resetEntry env msg) →
      decide (other.value ≠ msg.getString "value") = false := by
    intro other hkind
    have hvalue : other.value = msg.getString "value" := congrArg (fun k => k.2.2) hkind
    rw [hvalue]
    simp
  rw [receive_reset hreset, startTimer_eq_overwrite]
  exact (filter_resetTimer hother _).trans (filter_overwrite kind hother timer.condition)

/-- A wait reset does what it should at the next poll exactly when there is nothing left to
reset and the entry it starts is in the first place. -/
theorem cancelsTimers_iff (hreset : Resets env msg) (hpoll : timer.CountsAsPoll clock pollMsg) :
    CancelsTimers env msg timer clock pollMsg ↔ ResetInFront env msg timer clock pollMsg := by
  have hexpired := expired_iff hreset hpoll
  have htime : 0 < (resetEntry env msg).waitTime := by
    rw [resetEntry, waitTime_new]
    exact hreset.2
  have hstarted : resetEntry env msg ∉ (timer.receive env msg).1.condition ↔
      ∀ first ∈ timer.condition.head?,
        kind first = kind (resetEntry env msg) ∧ resetEntry env msg ∉ timer.condition.tail := by
    rw [receive_reset hreset]
    exact notMem_resetTimer_iff htime timer.condition
  constructor
  · exact fun h => ⟨hexpired.mp h.expired, hstarted.mp h.started⟩
  · exact fun h => ⟨hexpired.mpr h.spent, hstarted.mpr h.front, others_receive_reset hreset⟩

end Receive

section Examples

def waitMessage (subtype value : String) : MMessage :=
  (MMessage.mk2 "wait" subtype).add "value" value

def pollMessage (period time : String) : MMessage :=
  ((MMessage.mk2 "trigger" "poll").add "period" period).add "time" time

/-- An earlier reset of the value comes first, a timer of the value is about to run out, and one
of another value goes on. -/
def resetFirst : Timer :=
  { new with condition := [⟨"wait", "reset", "10_lamp", 4, false⟩,
      ⟨"wait", "set", "10_lamp", 1, false⟩, ⟨"wait", "set", "30_door", 12, false⟩] }

theorem cancelsTimers_resetFirst :
    CancelsTimers firstNight (waitMessage "reset" "10_lamp") resetFirst firstNight
      (pollMessage "1" "100") := by
  refine (cancelsTimers_iff (by decide +kernel) (by decide +kernel)).mpr ⟨?_, ?_⟩
  all_goals decide +kernel

/-- A timer that has been set goes on, and the reset starts another one. -/
def lampSet : Timer := (new.receive firstNight (waitMessage "set" "10_lamp")).1

theorem not_cancelsTimers_lampSet :
    ¬∀ (env clock : Env) (msg pollMsg : MMessage) (timer : Timer), Resets env msg →
      timer.CountsAsPoll clock pollMsg → CancelsTimers env msg timer clock pollMsg := by
  intro h
  have hcancels := h firstNight firstNight (waitMessage "reset" "10_lamp") (pollMessage "1" "100")
    lampSet (by decide +kernel) (by decide +kernel)
  exact absurd hcancels.started (by decide +kernel)

end Examples

end Timer

end Hat
