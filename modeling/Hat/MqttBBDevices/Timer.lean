import Hat.Core.Overwrite
import Hat.Minilibs.AgentInfo

/-!
# The timer

The timer keeps an entry for each wait message it was sent, with the time that is left,
and lets the time of all of them run down at each poll.  An entry that runs out is
answered with one wait end, and stays until the next message of the same kind starts it
again.
-/

namespace Hat

open Hat.Hsrv

structure TimedCondition where
  type : String
  subtype : String
  value : String
  waitTime : ℚ
  expired : Bool
  deriving DecidableEq

namespace TimedCondition

/-- What stands before the first underscore. -/
def getDuration (value : String) : String :=
  String.ofList (value.toList.takeWhile fun c => c ≠ '_')

def new (env : Env) (a b c : String) : TimedCondition :=
  ⟨a, b, c, a2double env (getDuration c), false⟩

def update (d : ℚ) (tc : TimedCondition) : TimedCondition :=
  if tc.expired then tc else { tc with waitTime := tc.waitTime - d }

/-- The message is filled and the entry expires, if its time has run out. -/
def message (m : MMessage) (tc : TimedCondition) : Option (MMessage × TimedCondition) :=
  if 0 < tc.waitTime then none
  else if tc.expired then none
  else some ({ m with mtype := tc.type, msubtype := "end" }.add "value" tc.value,
    { tc with expired := true })

/-- The entry after the loop over all entries. -/
def settle (tc : TimedCondition) : TimedCondition :=
  if 0 < tc.waitTime then tc else { tc with expired := true }

def isEqual (tc other : TimedCondition) : Bool :=
  tc.type = other.type && tc.subtype = other.subtype && tc.value = other.value

/-- An entry that runs after an update ran before it, with that much more time. -/
theorem running_update {d : ℚ} {tc : TimedCondition} (hrunning : (tc.update d).expired = false) :
    tc.expired = false ∧ (tc.update d).waitTime = tc.waitTime - d := by
  rw [update] at hrunning ⊢
  split_ifs at hrunning ⊢ with hexpired
  · exact absurd hexpired (Bool.eq_false_iff.mp hrunning)
  · exact ⟨hrunning, rfl⟩

theorem message_eq_none_iff (m : MMessage) (tc : TimedCondition) :
    tc.message m = none ↔ 0 < tc.waitTime ∨ tc.expired := by
  rw [message]
  split_ifs with htime hexpired
  · exact iff_of_true rfl (Or.inl htime)
  · exact iff_of_true rfl (Or.inr hexpired)
  · exact iff_of_false (fun h => nomatch h) (not_or.mpr ⟨htime, hexpired⟩)

theorem message_eq_some {m filled : MMessage} {tc ended : TimedCondition}
    (hmessage : tc.message m = some (filled, ended)) :
    (tc.waitTime ≤ 0 ∧ tc.expired = false) ∧
      (filled.mtype = tc.type ∧ filled.msubtype = "end") ∧ ended = { tc with expired := true } := by
  rw [message] at hmessage
  split_ifs at hmessage with htime hexpired
  rw [Option.some.injEq, Prod.mk.injEq] at hmessage
  obtain ⟨rfl, rfl⟩ := hmessage
  exact ⟨⟨not_lt.mp htime, Bool.eq_false_iff.mpr hexpired⟩,
    ⟨MMessage.mtype_add _ _ _, MMessage.msubtype_add _ _ _⟩, rfl⟩

end TimedCondition

/-- `outMess` is the message that `do_work` fills again and again. -/
structure Timer where
  condition : List TimedCondition
  outMess : MMessage
  lastUpdateTime : ℚ
  deriving DecidableEq

namespace Timer

def new : Timer := ⟨[], MMessage.blank, 0⟩

def getDoubleDuration (env : Env) (value : String) : ℚ :=
  a2double env (TimedCondition.getDuration value)

theorem waitTime_new (env : Env) (type subtype value : String) :
    (TimedCondition.new env type subtype value).waitTime = getDoubleDuration env value := by
  rw [TimedCondition.new, getDoubleDuration]

/-- The loop over the entries after an update; it gives the message, the entries and what
is notified. -/
def notifyEnds : MMessage → List TimedCondition → MMessage × List TimedCondition × List MMessage
  | m, [] => (m, [], [])
  | m, tc :: rest =>
      match tc.message m with
      | some (filled, ended) =>
          let after := notifyEnds filled rest
          (after.1, ended :: after.2.1, filled :: after.2.2)
      | none =>
          let after := notifyEnds m rest
          (after.1, tc :: after.2.1, after.2.2)

/-- The first entry of the kind starts again, or a new one is added. -/
def startTimer (tc : TimedCondition) : List TimedCondition → List TimedCondition
  | [] => [tc]
  | first :: rest => if first.isEqual tc then tc :: rest else first :: startTimer tc rest

/-- The loop ends with the first entry, whatever it is. -/
def resetTimer (tc : TimedCondition) : List TimedCondition → List TimedCondition
  | [] => []
  | first :: rest => (if first.isEqual tc then { first with waitTime := 0 } else first) :: rest

/-- A poll counts if it is later than the last one that counted by more than half a period. -/
def Accepts (timer : Timer) (period msgTime : ℚ) : Prop :=
  period / 2 + timer.lastUpdateTime < msgTime

instance (timer : Timer) (period msgTime : ℚ) : Decidable (timer.Accepts period msgTime) :=
  inferInstanceAs (Decidable (_ < _))

def poll (period msgTime : ℚ) (timer : Timer) : Timer × List MMessage :=
  if timer.Accepts period msgTime then
    let step := if 0 < period then period else 1
    let after := notifyEnds timer.outMess (timer.condition.map (TimedCondition.update step))
    (⟨after.2.1, after.1, msgTime⟩, after.2.2)
  else (timer, [])

/-- What `do_work` does with a message, and what it notifies. -/
def receive (env : Env) (msg : MMessage) (timer : Timer) : Timer × List MMessage :=
  if msg.mtype = "trigger" ∧ msg.msubtype = "poll" then
    poll (msg.getDouble env "period") (msg.getDouble env "time") timer
  else if msg.mtype = "wait" ∧ msg.msubtype = "set" then
    if 0 < getDoubleDuration env (msg.getString "value") then
      ({ timer with condition :=
          startTimer (.new env msg.mtype "set" (msg.getString "value")) timer.condition }, [])
    else (timer, [])
  else if msg.mtype = "wait" ∧ msg.msubtype = "reset" then
    if 0 < getDoubleDuration env (msg.getString "value") then
      let tc := TimedCondition.new env msg.mtype msg.msubtype (msg.getString "value")
      ({ timer with condition := resetTimer tc (startTimer tc timer.condition) }, [])
    else (timer, [])
  else (timer, [])

/-- What tells the entries apart. -/
def kind (tc : TimedCondition) : String × String × String := (tc.type, tc.subtype, tc.value)

@[simp]
theorem kind_update (d : ℚ) (tc : TimedCondition) : kind (tc.update d) = kind tc := by
  rw [TimedCondition.update]
  split_ifs <;> rfl

@[simp]
theorem kind_settle (tc : TimedCondition) : kind tc.settle = kind tc := by
  rw [TimedCondition.settle]
  split_ifs <;> rfl

theorem isEqual_iff (tc other : TimedCondition) : tc.isEqual other ↔ kind tc = kind other := by
  simp only [TimedCondition.isEqual, kind, Bool.and_eq_true, decide_eq_true_eq, Prod.mk.injEq,
    and_assoc]

/-- Starting an entry writes it over the one of its kind. -/
theorem startTimer_eq_overwrite (tc : TimedCondition) (entries : List TimedCondition) :
    startTimer tc entries = overwrite kind tc entries := by
  induction entries with
  | nil => rfl
  | cons first rest ih =>
      rw [startTimer, overwrite, ih]
      simp only [isEqual_iff]

/-- Starting an entry leaves those of other kinds as they are. -/
theorem mem_startTimer {tc : TimedCondition} {entries : List TimedCondition}
    (hnodup : (entries.map kind).Nodup) {other : TimedCondition}
    (hother : other ∈ startTimer tc entries) :
    other = tc ∨ (other ∈ entries ∧ kind other ≠ kind tc) := by
  rw [startTimer_eq_overwrite] at hother
  by_cases hkind : kind other = kind tc
  · exact Or.inl (eq_of_mem_overwrite kind hnodup hother hkind)
  · exact Or.inr ⟨(mem_overwrite_of_key_ne kind hkind entries).mp hother, hkind⟩

theorem mem_kinds_startTimer (tc : TimedCondition) (entries : List TimedCondition) {other}
    (hother : other ∈ (startTimer tc entries).map kind) :
    other = kind tc ∨ other ∈ entries.map kind := by
  rw [startTimer_eq_overwrite, map_overwrite] at hother
  split_ifs at hother
  · exact Or.inr hother
  · exact (List.mem_append.mp hother).symm.imp_left List.mem_singleton.mp

theorem nodup_startTimer (tc : TimedCondition) {entries : List TimedCondition}
    (hnodup : (entries.map kind).Nodup) : ((startTimer tc entries).map kind).Nodup := by
  rw [startTimer_eq_overwrite]
  exact nodup_overwrite kind tc hnodup

/-- The entry that stands first stays first. -/
theorem head?_startTimer (tc first : TimedCondition) (rest : List TimedCondition) :
    (startTimer tc (first :: rest)).head?.map kind = some (kind first) := by
  rw [startTimer]
  split_ifs with hequal
  · rw [List.head?_cons, Option.map_some, (isEqual_iff _ _).mp hequal]
  · rfl

theorem map_kind_resetTimer (tc : TimedCondition) (entries : List TimedCondition) :
    (resetTimer tc entries).map kind = entries.map kind := by
  cases entries with
  | nil => rfl
  | cons first rest =>
      rw [resetTimer, List.map_cons, List.map_cons]
      split_ifs <;> rfl

/-- Resetting does nothing where the first entry is of another kind. -/
theorem resetTimer_of_head_ne {tc : TimedCondition} {entries : List TimedCondition}
    (hhead : entries.head?.map kind ≠ some (kind tc)) : resetTimer tc entries = entries := by
  cases entries with
  | nil => rfl
  | cons first rest =>
      rw [List.head?_cons, Option.map_some, ne_eq, Option.some.injEq] at hhead
      rw [resetTimer, if_neg fun hequal => hhead ((isEqual_iff _ _).mp hequal)]

/-! ## Polls -/

theorem map_kind_notifyEnds (m : MMessage) (entries : List TimedCondition) :
    (notifyEnds m entries).2.1.map kind = entries.map kind := by
  induction entries generalizing m with
  | nil => rfl
  | cons tc rest ih =>
      rw [notifyEnds]
      cases hmessage : tc.message m with
      | none => simp only [List.map_cons, ih]
      | some result =>
          obtain ⟨-, -, hended⟩ := TimedCondition.message_eq_some hmessage
          simp only [List.map_cons, ih, hended]
          rfl

/-- The loop lets the entries expire that have no time left. -/
theorem condition_notifyEnds (m : MMessage) (entries : List TimedCondition) :
    (notifyEnds m entries).2.1 = entries.map TimedCondition.settle := by
  induction entries generalizing m with
  | nil => rfl
  | cons tc rest ih =>
      rw [notifyEnds, List.map_cons]
      cases hmessage : tc.message m with
      | none =>
          have hsettle : tc.settle = tc := by
            rw [TimedCondition.settle]
            split_ifs with htime
            · rfl
            · have hexpired := ((TimedCondition.message_eq_none_iff _ _).mp hmessage).resolve_left
                htime
              rw [← hexpired]
          rw [hsettle, ← ih m]
      | some result =>
          obtain ⟨⟨htime, -⟩, -, hended⟩ := TimedCondition.message_eq_some hmessage
          rw [TimedCondition.settle, if_neg (not_lt.mpr htime), ← hended, ← ih result.1]

/-- What still runs after the loop has time left and was there before it. -/
theorem running_notifyEnds {m : MMessage} {entries : List TimedCondition} {tc : TimedCondition}
    (htc : tc ∈ (notifyEnds m entries).2.1) (hrunning : tc.expired = false) :
    tc ∈ entries ∧ 0 < tc.waitTime := by
  induction entries generalizing m with
  | nil => exact absurd htc List.not_mem_nil
  | cons first rest ih =>
      rw [notifyEnds] at htc
      cases hmessage : first.message m with
      | none =>
          rw [hmessage] at htc
          obtain rfl | hrest := List.mem_cons.mp htc
          · refine ⟨List.mem_cons_self, ?_⟩
            exact ((TimedCondition.message_eq_none_iff _ _).mp hmessage).resolve_right
              (Bool.eq_false_iff.mp hrunning)
          · exact (ih hrest).imp_left (List.mem_cons_of_mem first)
      | some result =>
          rw [hmessage] at htc
          obtain ⟨-, -, hended⟩ := TimedCondition.message_eq_some hmessage
          obtain rfl | hrest := List.mem_cons.mp htc
          · rw [hended] at hrunning
            exact absurd hrunning.symm Bool.false_ne_true
          · exact (ih hrest).imp_left (List.mem_cons_of_mem first)

/-- What the loop notifies are the ends of entries whose time has run out. -/
theorem mem_ends_notifyEnds {m : MMessage} {entries : List TimedCondition} {msg : MMessage}
    (hmsg : msg ∈ (notifyEnds m entries).2.2) :
    ∃ tc ∈ entries, (tc.waitTime ≤ 0 ∧ tc.expired = false) ∧ msg.mtype = tc.type ∧
      msg.msubtype = "end" := by
  induction entries generalizing m with
  | nil => exact absurd hmsg List.not_mem_nil
  | cons first rest ih =>
      rw [notifyEnds] at hmsg
      cases hmessage : first.message m with
      | none =>
          rw [hmessage] at hmsg
          obtain ⟨tc, htc, hends⟩ := ih hmsg
          exact ⟨tc, List.mem_cons_of_mem first htc, hends⟩
      | some result =>
          rw [hmessage] at hmsg
          obtain ⟨hover, hfilled, -⟩ := TimedCondition.message_eq_some hmessage
          obtain rfl | hrest := List.mem_cons.mp hmsg
          · exact ⟨first, List.mem_cons_self, hover, hfilled⟩
          · obtain ⟨tc, htc, hends⟩ := ih hrest
            exact ⟨tc, List.mem_cons_of_mem first htc, hends⟩

end Timer

end Hat
