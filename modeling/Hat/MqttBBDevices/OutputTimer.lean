import Hat.Core.Machine
import Hat.MqttBBDevices.BinaryOutput
import Hat.MqttBBDevices.Timer
import Mathlib.Tactic.Linarith

/-!
# An output and the timer

The output sends wait messages to the timer and the timer answers with wait ends; both
kinds are delivered in the order they were sent in, at any time.  Commands to the output
and polls of the timer come in between as they like.  Beside the two parties a run keeps
the sum of the periods of the polls that the timer accepted since the output last sent a
wait set.
-/

namespace Hat

open Hat.Hsrv

structure OutputTimer where
  output : BinaryOutput
  timer : Timer
  toTimer : List MMessage
  toOutput : List MMessage
  elapsed : ℚ
  deriving DecidableEq

/-- Each command and each delivery to the output reads a clock of its own. -/
inductive OutputAction
  | command (clock : Env) (msg : MMessage)
  | poll (msg : MMessage)
  | timerStep
  | outputStep (clock : Env)

namespace OutputTimer

variable (host : DeviceHost) (env : Env)

def start (params : MParams) (n : String) : OutputTimer :=
  ⟨BinaryOutput.new params n, Timer.new, [], [], 0⟩

/-- The output executes a message; `rest` are the wait ends that are still on their way. -/
def call (clock : Env) (msg : MMessage) (rest : List MMessage) (s : OutputTimer) : OutputTimer :=
  let after := s.output.execcmd host clock msg
  let sent := after.2.notified.filter BinaryOutput.isWait
  { s with
    output := after.1
    toTimer := s.toTimer ++ sent
    toOutput := rest
    elapsed := if sent.any fun m => m.msubtype = "set" then 0 else s.elapsed }

/-- A command is addressed to the output, and a poll has a positive period. -/
def step (s : OutputTimer) : OutputAction → Option OutputTimer
  | .command clock msg =>
      if msg.mtype = "cmd" ∧ msg.msubtype = s.output.name then
        some (s.call host clock msg s.toOutput)
      else none
  | .poll msg =>
      if (msg.mtype = "trigger" ∧ msg.msubtype = "poll") ∧ 0 < msg.getDouble env "period" then
        let after := s.timer.receive env msg
        some { s with
          timer := after.1
          toOutput := s.toOutput ++ after.2
          elapsed :=
            if s.timer.Accepts (msg.getDouble env "period") (msg.getDouble env "time") then
              s.elapsed + msg.getDouble env "period"
            else s.elapsed }
      else none
  | .timerStep =>
      match s.toTimer with
      | [] => none
      | msg :: rest =>
          let after := s.timer.receive env msg
          some { s with timer := after.1, toTimer := rest, toOutput := s.toOutput ++ after.2 }
  | .outputStep clock =>
      match s.toOutput with
      | [] => none
      | msg :: rest => some (s.call host clock msg rest)

/-- The time that the output asks the timer for. -/
def duration (output : BinaryOutput) : ℚ := Timer.getDoubleDuration env output.waitCondition

/-- A wait end that takes the output to its default value comes after its duration. -/
def NotEarly (s : OutputTimer) : OutputAction → Prop
  | .outputStep clock => ∀ next ∈ step host env s (.outputStep clock),
      s.output.currentValue ≠ s.output.defaultValue →
      next.output.currentValue = s.output.defaultValue → duration env s.output ≤ s.elapsed
  | _ => True

instance (s : OutputTimer) : (action : OutputAction) → Decidable (NotEarly host env s action)
  | .outputStep _ => inferInstanceAs (Decidable (∀ next ∈ step host env s _, _ → _ → _))
  | .command _ _ | .poll _ | .timerStep => isTrue trivial

/-- The first entry of the timer is, or will be, that of a wait set; so no wait reset is
answered at once. -/
def SetFirst (s : OutputTimer) : Prop :=
  match s.timer.condition with
  | first :: _ => first.subtype = "set"
  | [] => s.toTimer.head?.map MMessage.msubtype = some "set"

instance (s : OutputTimer) : Decidable s.SetFirst :=
  match hentries : s.timer.condition with
  | first :: _ => decidable_of_iff (first.subtype = "set") (by rw [SetFirst, hentries])
  | [] => decidable_of_iff (s.toTimer.head?.map MMessage.msubtype = some "set")
      (by rw [SetFirst, hentries])

/-- Nothing is left of earlier waits that could end the one that is asked for: no wait end
is on its way, the entry of a wait reset runs for the duration or longer, and a wait reset
that the timer is still to get will not be answered at once. -/
structure Clear (s : OutputTimer) (ends : List MMessage) : Prop where
  ends : ends = []
  resets : ∀ tc ∈ s.timer.condition, tc.subtype = "reset" → tc.expired = false →
    duration env s.output ≤ tc.waitTime
  waiting : (∃ m ∈ s.toTimer, m.msubtype = "reset") → s.SetFirst

instance (s : OutputTimer) (ends : List MMessage) : Decidable (s.Clear env ends) :=
  decidable_of_iff (ends = [] ∧ (∀ tc ∈ s.timer.condition, tc.subtype = "reset" →
      tc.expired = false → duration env s.output ≤ tc.waitTime) ∧
      ((∃ m ∈ s.toTimer, m.msubtype = "reset") → s.SetFirst))
    ⟨fun h => ⟨h.1, h.2.1, h.2.2⟩, fun h => ⟨h.ends, h.resets, h.waiting⟩⟩

/-- When the output asks for a wait, nothing is left of earlier ones; and no poll before the
duration is over lets the entry of an earlier wait set run out while a newer one has not
reached the timer. -/
def Unhurried (s : OutputTimer) : OutputAction → Prop
  | .command _ msg =>
      s.output.Asks msg → 0 < duration env s.output → s.Clear env s.toOutput
  | .outputStep _ =>
      ∀ msg ∈ s.toOutput.head?, s.output.Asks msg → 0 < duration env s.output →
        s.Clear env s.toOutput.tail
  | .poll msg =>
      s.output.currentValue ≠ s.output.defaultValue →
      (∃ m ∈ s.toTimer, m.msubtype = "set") →
      s.elapsed + msg.getDouble env "period" < duration env s.output →
      ∀ tc ∈ s.timer.condition, tc.subtype = "set" → tc.expired = false →
        msg.getDouble env "period" < tc.waitTime
  | .timerStep => True

instance (s : OutputTimer) : (action : OutputAction) → Decidable (s.Unhurried env action)
  | .command _ msg =>
      inferInstanceAs (Decidable (s.output.Asks msg → 0 < duration env s.output → s.Clear env _))
  | .outputStep _ =>
      inferInstanceAs (Decidable (∀ msg ∈ s.toOutput.head?, s.output.Asks msg →
        0 < duration env s.output → s.Clear env _))
  | .poll msg => inferInstanceAs (Decidable (_ ≠ _ → (∃ m ∈ s.toTimer, _) →
      s.elapsed + msg.getDouble env "period" < _ →
        ∀ tc ∈ s.timer.condition, _ → _ → _ < tc.waitTime))
  | .timerStep => isTrue trivial

/-! ## What holds in every run -/

/-- The messages and the entries are those of the output, each entry once, and there are
none for an output without a duration. -/
structure Own (s : OutputTimer) : Prop where
  elapsed : 0 ≤ s.elapsed
  toTimer : ∀ m ∈ s.toTimer, m.mtype = "wait" ∧ (m.msubtype = "set" ∨ m.msubtype = "reset") ∧
    m.getString "value" = s.output.waitCondition
  entries : ∀ tc ∈ s.timer.condition, tc.type = "wait" ∧
    (tc.subtype = "set" ∨ tc.subtype = "reset") ∧ tc.value = s.output.waitCondition
  kinds : (s.timer.condition.map Timer.kind).Nodup
  toOutput : ∀ m ∈ s.toOutput, m.mtype = "wait" ∧ m.msubtype = "end"
  quiet : s.output.duration = "0" →
    s.toTimer = [] ∧ s.timer.condition = [] ∧ s.toOutput = []

/-- Whatever could end the wait comes after the duration. -/
structure Timed (s : OutputTimer) : Prop where
  ends : s.toOutput ≠ [] → duration env s.output ≤ s.elapsed
  resets : ∀ tc ∈ s.timer.condition, tc.subtype = "reset" → tc.expired = false →
    duration env s.output ≤ s.elapsed + tc.waitTime
  sets : (∀ m ∈ s.toTimer, m.msubtype ≠ "set") →
    ∀ tc ∈ s.timer.condition, tc.subtype = "set" → tc.expired = false →
      duration env s.output ≤ s.elapsed + tc.waitTime
  waiting : (∃ m ∈ s.toTimer, m.msubtype = "reset") → s.SetFirst

/-- Off its default value the output is timed. -/
structure Watched (s : OutputTimer) : Prop where
  own : s.Own
  timed : s.output.currentValue ≠ s.output.defaultValue → 0 < duration env s.output →
    s.Timed env

theorem watched_start (params : MParams) (n : String) : (start params n).Watched env := by
  constructor
  · constructor
    · exact le_refl 0
    · exact fun m hm => absurd hm List.not_mem_nil
    · exact fun tc htc => absurd htc List.not_mem_nil
    · exact List.nodup_nil
    · exact fun m hm => absurd hm List.not_mem_nil
    · exact fun _ => ⟨rfl, rfl, rfl⟩
  · intro _ _
    constructor
    · exact fun hne => absurd rfl hne
    · exact fun tc htc => absurd htc List.not_mem_nil
    · exact fun _ tc htc => absurd htc List.not_mem_nil
    · rintro ⟨m, hm, -⟩
      exact absurd hm List.not_mem_nil

/-! ### The output -/

section Call

variable {s : OutputTimer} {msg : MMessage}

theorem call_cases (clock : Env) (rest : List MMessage)
    (hmsg : msg.msubtype = s.output.name ∨ (msg.mtype = "wait" ∧ msg.msubtype = "end")) :
    ∃ next, s.output.SameSetup next ∧
      ((s.output.Asks msg ∧ s.call host clock msg rest =
          { s with
            output := next
            toTimer := s.toTimer ++ [s.output.wait "set"]
            toOutput := rest
            elapsed := 0 }) ∨
        (s.output.duration ≠ "0" ∧ next.currentValue = s.output.defaultValue ∧
          s.call host clock msg rest =
            { s with
              output := next
              toTimer := s.toTimer ++ [s.output.wait "reset"]
              toOutput := rest }) ∨
        ((s.output.duration = "0" ∨ next.currentValue = s.output.defaultValue) ∧
          s.call host clock msg rest = { s with output := next, toOutput := rest })) := by
  refine ⟨_, BinaryOutput.sameSetup_execcmd host clock msg s.output, ?_⟩
  have hsends := BinaryOutput.sends_execcmd host clock msg s.output hmsg
  simp only [call]
  generalize (s.output.execcmd host clock msg).2.notified.filter BinaryOutput.isWait = sent
    at hsends
  cases hsends with
  | set hasks => exact Or.inl ⟨hasks, rfl⟩
  | reset _ hduration hvalue => exact Or.inr (Or.inl ⟨hduration, hvalue, rfl⟩)
  | nothing _ hquiet => exact Or.inr (Or.inr ⟨hquiet, by rw [List.append_nil]; rfl⟩)

theorem getString_wait (subtype : String) (output : BinaryOutput) :
    (output.wait subtype).getString "value" = output.waitCondition :=
  MMessage.getString_add_self _ _ _ fun _ hitems => Option.some_ne_none _ hitems.symm

/-- A wait message more for the timer. -/
theorem Own.append (hown : s.Own) {rest : List MMessage} {next : BinaryOutput}
    {subtype : String} {elapsed : ℚ}
    (hsame : s.output.SameSetup next) (hsubtype : subtype = "set" ∨ subtype = "reset")
    (hduration : s.output.duration ≠ "0") (hrest : ∀ m ∈ rest, m ∈ s.toOutput)
    (helapsed : 0 ≤ elapsed) :
    Own ⟨next, s.timer, s.toTimer ++ [s.output.wait subtype], rest, elapsed⟩ := by
  constructor
  · exact helapsed
  · rw [hsame.waitCondition]
    intro m hm
    obtain hold | hnew := List.mem_append.mp hm
    · exact hown.toTimer m hold
    · obtain rfl := List.mem_singleton.mp hnew
      exact ⟨MMessage.mtype_add _ _ _, by rwa [BinaryOutput.wait, MMessage.msubtype_add],
        getString_wait subtype s.output⟩
  · rw [hsame.waitCondition]
    exact hown.entries
  · exact hown.kinds
  · exact fun m hm => hown.toOutput m (hrest m hm)
  · exact fun hzero => absurd (hsame.duration.symm.trans hzero) hduration

theorem SetFirst.append {next : OutputTimer} {sent : List MMessage} (hfirst : s.SetFirst)
    (htimer : next.timer = s.timer) (htoTimer : next.toTimer = s.toTimer ++ sent) :
    next.SetFirst := by
  rw [SetFirst, htimer, htoTimer]
  rw [SetFirst] at hfirst
  cases hentries : s.timer.condition with
  | cons first entries =>
      rw [hentries] at hfirst
      exact hfirst
  | nil =>
      rw [hentries] at hfirst
      cases hwaiting : s.toTimer with
      | nil => rw [hwaiting] at hfirst; cases hfirst
      | cons head tail => rw [hwaiting] at hfirst; exact hfirst

/-- A call keeps the output timed, if nothing is left of earlier waits when it asks for one. -/
theorem Watched.call (hwatched : s.Watched env) {clock : Env} {rest : List MMessage}
    (hmsg : msg.msubtype = s.output.name ∨ (msg.mtype = "wait" ∧ msg.msubtype = "end"))
    (hrest : ∀ m ∈ rest, m ∈ s.toOutput)
    (hclear : s.output.Asks msg → 0 < duration env s.output → s.Clear env rest) :
    (s.call host clock msg rest).Watched env := by
  obtain ⟨next, hsame, ⟨hasks, heq⟩ | ⟨hduration, hvalue, heq⟩ | ⟨hquiet, heq⟩⟩ :=
    call_cases host clock rest hmsg
  all_goals rw [heq]
  · refine ⟨hwatched.own.append hsame (Or.inl rfl) hasks.2.1 hrest (le_refl 0), fun _ hpos => ?_⟩
    have hset : (s.output.wait "set").msubtype = "set" := MMessage.msubtype_add _ _ _
    have hwait : duration env next = duration env s.output := by
      rw [duration, duration, hsame.waitCondition]
    rw [hwait] at hpos
    have hclear := hclear hasks hpos
    constructor
    · exact fun hne => absurd hclear.ends hne
    · intro tc htc hreset hrunning
      rw [hwait, zero_add]
      exact hclear.resets tc htc hreset hrunning
    · exact fun hnone => absurd hset
        (hnone _ (List.mem_append_right _ (List.mem_singleton_self _)))
    · rintro ⟨m, hm, hreset⟩
      refine (hclear.waiting ⟨m, ?_, hreset⟩).append rfl rfl
      refine (List.mem_append.mp hm).resolve_right fun hnew => ?_
      rw [List.mem_singleton.mp hnew, hset] at hreset
      exact absurd hreset (by decide)
  · refine ⟨hwatched.own.append hsame (Or.inr rfl) hduration hrest hwatched.own.elapsed, ?_⟩
    exact fun hne => absurd (hvalue.trans hsame.defaultValue.symm) hne
  · have hown := hwatched.own
    constructor
    · refine ⟨hown.elapsed, ?_, ?_, hown.kinds, fun m hm => hown.toOutput m (hrest m hm), ?_⟩
      · rw [hsame.waitCondition]
        exact hown.toTimer
      · rw [hsame.waitCondition]
        exact hown.entries
      · intro hzero
        obtain ⟨htoTimer, hentries, htoOutput⟩ := hown.quiet (hsame.duration.symm.trans hzero)
        exact ⟨htoTimer, hentries, List.eq_nil_of_subset_nil fun m hm => htoOutput ▸ hrest m hm⟩
    · intro hne hpos
      -- Without a duration there is nothing that could end a wait.
      obtain ⟨htoTimer, hentries, htoOutput⟩ := hown.quiet
        (hquiet.resolve_right fun hvalue => hne (hvalue.trans hsame.defaultValue.symm))
      have hnil : rest = [] := List.eq_nil_of_subset_nil fun m hm => htoOutput ▸ hrest m hm
      constructor
      · exact fun hrest => absurd hnil hrest
      · exact fun tc htc => absurd (hentries ▸ htc) List.not_mem_nil
      · exact fun _ tc htc => absurd (hentries ▸ htc) List.not_mem_nil
      · rintro ⟨m, hm, -⟩
        exact absurd (htoTimer ▸ hm) List.not_mem_nil

end Call

/-! ### The timer -/

section Timer

variable {s : OutputTimer}

/-- The timer starts entries for the messages it gets, and sends ends of entries it has. -/
theorem Own.replace (hown : s.Own) {timer : Timer} {toTimer toOutput : List MMessage}
    {elapsed : ℚ} (hkinds : (timer.condition.map Timer.kind).Nodup)
    (hentries : ∀ kind ∈ timer.condition.map Timer.kind,
      kind ∈ s.timer.condition.map Timer.kind ∨
        ∃ m ∈ s.toTimer, kind = (m.mtype, m.msubtype, m.getString "value"))
    (htoTimer : ∀ m ∈ toTimer, m ∈ s.toTimer)
    (htoOutput : ∀ m ∈ toOutput, m ∈ s.toOutput ∨
      ∃ tc ∈ s.timer.condition, m.mtype = tc.type ∧ m.msubtype = "end")
    (helapsed : 0 ≤ elapsed) : Own ⟨s.output, timer, toTimer, toOutput, elapsed⟩ := by
  constructor
  · exact helapsed
  · exact fun m hm => hown.toTimer m (htoTimer m hm)
  · intro tc htc
    obtain hold | ⟨m, hm, hkind⟩ := hentries (Timer.kind tc) (List.mem_map_of_mem htc)
    · obtain ⟨other, hother, hkind⟩ := List.mem_map.mp hold
      simp only [Timer.kind, Prod.mk.injEq] at hkind
      rw [← hkind.1, ← hkind.2.1, ← hkind.2.2]
      exact hown.entries other hother
    · simp only [Timer.kind, Prod.mk.injEq] at hkind
      rw [hkind.1, hkind.2.1, hkind.2.2]
      exact hown.toTimer m hm
  · exact hkinds
  · intro m hm
    obtain hold | ⟨tc, htc, htype, hend⟩ := htoOutput m hm
    · exact hown.toOutput m hold
    · exact ⟨htype.trans (hown.entries tc htc).1, hend⟩
  · intro hzero
    obtain ⟨hnoWait, hnoEntry, hnoEnd⟩ := hown.quiet hzero
    refine ⟨?_, ?_, ?_⟩
    · exact List.eq_nil_of_subset_nil fun m hm => hnoWait ▸ htoTimer m hm
    · rw [← List.map_eq_nil_iff (f := Timer.kind)]
      refine List.eq_nil_iff_forall_not_mem.mpr fun kind hkind => ?_
      obtain hold | ⟨m, hm, -⟩ := hentries kind hkind
      · exact absurd (hnoEntry ▸ hold) List.not_mem_nil
      · exact absurd (hnoWait ▸ hm) List.not_mem_nil
    · refine List.eq_nil_iff_forall_not_mem.mpr fun m hm => ?_
      obtain hold | ⟨tc, htc, -⟩ := htoOutput m hm
      · exact absurd (hnoEnd ▸ hold) List.not_mem_nil
      · exact absurd (hnoEntry ▸ htc) List.not_mem_nil

/-- The entry for a wait message of the output. -/
def entry (output : BinaryOutput) (subtype : String) : TimedCondition :=
  TimedCondition.new env "wait" subtype output.waitCondition

theorem waitTime_entry (output : BinaryOutput) (subtype : String) :
    (entry env output subtype).waitTime = duration env output := by
  rw [entry, Timer.waitTime_new, duration]

/-- What the timer does with a wait message of the output. -/
theorem receive_wait (hown : s.Own) {msg : MMessage} (hmsg : msg ∈ s.toTimer) :
    s.timer.receive env msg =
      (if 0 < duration env s.output then
        { s.timer with
          condition :=
            let started := Timer.startTimer (entry env s.output msg.msubtype) s.timer.condition
            if msg.msubtype = "reset" then
              Timer.resetTimer (entry env s.output msg.msubtype) started
            else started }
      else s.timer, []) := by
  obtain ⟨htype, hsubtype, hvalue⟩ := hown.toTimer msg hmsg
  have hpoll : ¬(msg.mtype = "trigger" ∧ msg.msubtype = "poll") := by
    rw [htype]
    exact fun hpoll => absurd hpoll.1 (by decide)
  rw [Timer.receive, if_neg hpoll, hvalue, htype, entry, duration]
  obtain hset | hreset := hsubtype
  · rw [if_pos ⟨rfl, hset⟩, hset, if_neg (by decide : ¬"set" = "reset")]
    split_ifs <;> rfl
  · rw [if_neg fun h => absurd (hreset.symm.trans h.2) (by decide), if_pos ⟨rfl, hreset⟩, hreset,
      if_pos rfl]
    split_ifs <;> rfl

theorem SetFirst.of_kinds (hfirst : s.SetFirst) {next : OutputTimer}
    (hkinds : next.timer.condition.map Timer.kind = s.timer.condition.map Timer.kind)
    (htoTimer : next.toTimer = s.toTimer) : next.SetFirst := by
  rw [SetFirst] at hfirst ⊢
  rw [htoTimer]
  cases hentries : s.timer.condition with
  | nil =>
      rw [hentries, List.map_nil, List.map_eq_nil_iff] at hkinds
      rw [hentries] at hfirst
      rw [hkinds]
      exact hfirst
  | cons first rest =>
      rw [hentries] at hkinds hfirst
      obtain ⟨other, others, hother, hkind, -⟩ := List.map_eq_cons_iff.mp hkinds
      simp only [Timer.kind, Prod.mk.injEq] at hkind
      rw [hother]
      exact hkind.2.1.trans hfirst

/-- The entry that a wait set made first stays first when the timer gets its next message. -/
theorem SetFirst.head_startTimer (hfirst : s.SetFirst) {msg : MMessage} {rest : List MMessage}
    (hwaiting : s.toTimer = msg :: rest) :
    ∃ first others, Timer.startTimer (entry env s.output msg.msubtype) s.timer.condition =
      first :: others ∧ first.subtype = "set" := by
  rw [SetFirst, hwaiting] at hfirst
  cases hentries : s.timer.condition with
  | nil =>
      rw [hentries, List.head?_cons, Option.map_some, Option.some.injEq] at hfirst
      exact ⟨_, [], rfl, hfirst⟩
  | cons first rest =>
      rw [hentries] at hfirst
      have hhead := Timer.head?_startTimer (entry env s.output msg.msubtype) first rest
      cases hstarted : Timer.startTimer (entry env s.output msg.msubtype) (first :: rest) with
      | nil => rw [hstarted] at hhead; cases hhead
      | cons other others =>
          rw [hstarted, List.head?_cons, Option.map_some, Option.some.injEq] at hhead
          simp only [Timer.kind, Prod.mk.injEq] at hhead
          exact ⟨other, others, rfl, hhead.2.1.trans hfirst⟩

/-- A wait reset is not answered at once where the first entry is that of a wait set. -/
theorem started_of_setFirst (hfirst : (∃ m ∈ s.toTimer, m.msubtype = "reset") → s.SetFirst)
    {msg : MMessage} {rest : List MMessage} (hwaiting : s.toTimer = msg :: rest) :
    (if msg.msubtype = "reset" then
        Timer.resetTimer (entry env s.output msg.msubtype)
          (Timer.startTimer (entry env s.output msg.msubtype) s.timer.condition)
      else Timer.startTimer (entry env s.output msg.msubtype) s.timer.condition) =
      Timer.startTimer (entry env s.output msg.msubtype) s.timer.condition := by
  split_ifs with hreset
  · obtain ⟨first, others, hstarted, hset⟩ := SetFirst.head_startTimer env
      (hfirst ⟨msg, hwaiting ▸ List.mem_cons_self, hreset⟩) hwaiting
    apply Timer.resetTimer_of_head_ne
    rw [hstarted, List.head?_cons, Option.map_some, ne_eq, Option.some.injEq]
    simp only [Timer.kind, entry, TimedCondition.new, Prod.mk.injEq, hset, hreset]
    exact fun h => absurd h.2.1 (by decide)
  · rfl

/-- The next message that the timer gets starts an entry that runs for the duration. -/
theorem Timed.started (hown : s.Own) (htimed : s.Timed env) {msg : MMessage}
    {rest : List MMessage} (hwaiting : s.toTimer = msg :: rest) :
    Timed env
      { s with
        timer := { s.timer with
          condition := Timer.startTimer (entry env s.output msg.msubtype) s.timer.condition }
        toTimer := rest } := by
  have hentry := waitTime_entry env s.output msg.msubtype
  constructor
  · exact htimed.ends
  · intro tc htc hreset hrunning
    obtain rfl | ⟨hold, -⟩ := Timer.mem_startTimer hown.kinds htc
    · rw [hentry]
      exact le_add_of_nonneg_left hown.elapsed
    · exact htimed.resets tc hold hreset hrunning
  · intro hnone tc htc hset hrunning
    obtain rfl | ⟨hold, hkind⟩ := Timer.mem_startTimer hown.kinds htc
    · rw [hentry]
      exact le_add_of_nonneg_left hown.elapsed
    · refine htimed.sets (fun m hm hmset => ?_) tc hold hset hrunning
      rw [hwaiting] at hm
      obtain rfl | hrest := List.mem_cons.mp hm
      · -- The message started the only entry there is for a wait set.
        obtain ⟨htype, -, hvalue⟩ := hown.entries tc hold
        apply hkind
        simp only [Timer.kind, entry, TimedCondition.new, Prod.mk.injEq]
        exact ⟨htype, hset.trans hmset.symm, hvalue⟩
      · exact hnone m hrest hmset
  · rintro ⟨m, hm, hreset⟩
    obtain ⟨first, others, hstarted, hset⟩ := SetFirst.head_startTimer env
      (htimed.waiting ⟨m, hwaiting ▸ List.mem_cons_of_mem msg hm, hreset⟩) hwaiting
    rw [SetFirst]
    simp only [hstarted]
    exact hset

theorem Watched.timerStep (hwatched : s.Watched env) {next : OutputTimer}
    (hstep : step host env s .timerStep = some next) : next.Watched env := by
  have hown := hwatched.own
  cases hwaiting : s.toTimer with
  | nil =>
      rw [step, hwaiting] at hstep
      cases hstep
  | cons msg rest =>
      have hmem : msg ∈ s.toTimer := hwaiting ▸ List.mem_cons_self
      have hrest : ∀ m ∈ rest, m ∈ s.toTimer := fun m hm => hwaiting ▸ List.mem_cons_of_mem msg hm
      rw [step, hwaiting] at hstep
      simp only [receive_wait env hown hmem, List.append_nil, Option.some.injEq] at hstep
      subst hstep
      constructor
      · refine hown.replace ?_ ?_ hrest (fun m hm => Or.inl hm) hown.elapsed
        · split_ifs
          · rw [Timer.map_kind_resetTimer]
            exact Timer.nodup_startTimer _ hown.kinds
          · exact Timer.nodup_startTimer _ hown.kinds
          · exact hown.kinds
        · intro kind hkind
          have hstarted : ∀ kind ∈ (Timer.startTimer (entry env s.output msg.msubtype)
              s.timer.condition).map Timer.kind, kind ∈ s.timer.condition.map Timer.kind ∨
                ∃ m ∈ s.toTimer, kind = (m.mtype, m.msubtype, m.getString "value") := by
            intro kind hkind
            obtain ⟨htype, -, hvalue⟩ := hown.toTimer msg hmem
            obtain rfl | hold := Timer.mem_kinds_startTimer _ _ hkind
            · exact Or.inr ⟨msg, hmem, by rw [htype, hvalue]; rfl⟩
            · exact Or.inl hold
          split_ifs at hkind
          · rw [Timer.map_kind_resetTimer] at hkind
            exact hstarted kind hkind
          · exact hstarted kind hkind
          · exact Or.inl hkind
      · intro hne hpos
        have htimed := hwatched.timed hne hpos
        have hstarted := htimed.started env hown hwaiting
        rw [← started_of_setFirst env htimed.waiting hwaiting] at hstarted
        have hduration : 0 < duration env s.output := hpos
        simp only [if_pos hduration]
        exact hstarted

/-- An accepted poll lets the entries run down and ends those whose time is over. -/
def polled (p time : ℚ) (s : OutputTimer) : OutputTimer :=
  let after := Timer.notifyEnds s.timer.outMess (s.timer.condition.map (TimedCondition.update p))
  { s with
    timer := ⟨after.2.1, after.1, time⟩
    toOutput := s.toOutput ++ after.2.2
    elapsed := s.elapsed + p }

theorem step_poll {msg : MMessage} {next : OutputTimer}
    (hstep : step host env s (.poll msg) = some next) :
    0 < msg.getDouble env "period" ∧
      (next = s ∨ next = s.polled (msg.getDouble env "period") (msg.getDouble env "time")) := by
  rw [step] at hstep
  by_cases hpoll :
      (msg.mtype = "trigger" ∧ msg.msubtype = "poll") ∧ 0 < msg.getDouble env "period"
  · rw [if_pos hpoll, Option.some.injEq] at hstep
    subst hstep
    refine ⟨hpoll.2, ?_⟩
    rw [Timer.receive, if_pos hpoll.1, Timer.poll]
    by_cases haccepts : s.timer.Accepts (msg.getDouble env "period") (msg.getDouble env "time")
    · right
      simp only [if_pos haccepts, if_pos hpoll.2]
      rfl
    · left
      simp only [if_neg haccepts, List.append_nil]
  · rw [if_neg hpoll] at hstep
    cases hstep

theorem map_kind_polled (p time : ℚ) (s : OutputTimer) :
    (s.polled p time).timer.condition.map Timer.kind = s.timer.condition.map Timer.kind := by
  rw [polled, Timer.map_kind_notifyEnds, List.map_map]
  exact List.map_congr_left fun tc _ => Timer.kind_update p tc

theorem Own.polled (hown : s.Own) {p : ℚ} (hp : 0 < p) (time : ℚ) : (s.polled p time).Own := by
  refine hown.replace ?_ ?_ (fun m hm => hm) ?_ (add_nonneg hown.elapsed hp.le)
  · exact (map_kind_polled p time s).symm ▸ hown.kinds
  · exact fun kind hkind => Or.inl (map_kind_polled p time s ▸ hkind)
  · intro m hm
    obtain hold | hend := List.mem_append.mp hm
    · exact Or.inl hold
    · obtain ⟨tc, htc, -, htype, hsubtype⟩ := Timer.mem_ends_notifyEnds hend
      obtain ⟨other, hother, rfl⟩ := List.mem_map.mp htc
      have hkind := Timer.kind_update p other
      simp only [Timer.kind, Prod.mk.injEq] at hkind
      exact Or.inr ⟨other, hother, htype.trans hkind.1, hsubtype⟩

/-- What runs after a poll ran before it, and still has time. -/
theorem running_polled {p time : ℚ} {tc : TimedCondition}
    (htc : tc ∈ (s.polled p time).timer.condition) (hrunning : tc.expired = false) :
    ∃ old ∈ s.timer.condition, old.expired = false ∧ old.subtype = tc.subtype ∧
      tc.waitTime = old.waitTime - p := by
  obtain ⟨hmem, -⟩ := Timer.running_notifyEnds htc hrunning
  obtain ⟨old, hold, rfl⟩ := List.mem_map.mp hmem
  obtain ⟨hexpired, hwait⟩ := TimedCondition.running_update hrunning
  have hkind := Timer.kind_update p old
  simp only [Timer.kind, Prod.mk.injEq] at hkind
  exact ⟨old, hold, hexpired, hkind.2.1.symm, hwait⟩

/-- A poll keeps the output timed, as long as it ends no earlier wait for a wait set that is
still on its way. -/
theorem Timed.polled (hown : s.Own) (htimed : s.Timed env) {p : ℚ} (hp : 0 < p) (time : ℚ)
    (hearlier : (∃ m ∈ s.toTimer, m.msubtype = "set") → s.elapsed + p < duration env s.output →
      ∀ tc ∈ s.timer.condition, tc.subtype = "set" → tc.expired = false → p < tc.waitTime) :
    (s.polled p time).Timed env := by
  have hgrown : duration env s.output ≤ s.elapsed → duration env s.output ≤ s.elapsed + p :=
    fun hle => hle.trans (le_add_of_nonneg_right hp.le)
  constructor
  · intro hne
    obtain ⟨m, hm⟩ := List.exists_mem_of_ne_nil _ hne
    obtain hold | hend := List.mem_append.mp hm
    · exact hgrown (htimed.ends (List.ne_nil_of_mem hold))
    · obtain ⟨tc, htc, ⟨hover, hrunning⟩, -⟩ := Timer.mem_ends_notifyEnds hend
      obtain ⟨old, hold, rfl⟩ := List.mem_map.mp htc
      obtain ⟨hexpired, hwait⟩ := TimedCondition.running_update hrunning
      rw [hwait] at hover
      have hbound : duration env s.output ≤ s.elapsed + old.waitTime →
          duration env s.output ≤ s.elapsed + p := by
        intro hle
        linarith
      obtain ⟨-, hset | hreset, -⟩ := hown.entries old hold
      · by_cases hwaiting : ∃ m ∈ s.toTimer, m.msubtype = "set"
        · by_contra hlate
          have hlong := hearlier hwaiting (not_le.mp hlate) old hold hset hexpired
          linarith
        · refine hbound (htimed.sets (fun m hm hmset => hwaiting ⟨m, hm, hmset⟩) old hold hset ?_)
          exact hexpired
      · exact hbound (htimed.resets old hold hreset hexpired)
  · intro tc htc hreset hrunning
    obtain ⟨old, hold, hexpired, hsubtype, hwait⟩ := running_polled htc hrunning
    have hle := htimed.resets old hold (hsubtype.trans hreset) hexpired
    have helapsed : (s.polled p time).elapsed = s.elapsed + p := rfl
    rw [hwait, helapsed]
    exact hle.trans (le_of_eq (by ring))
  · intro hnone tc htc hset hrunning
    obtain ⟨old, hold, hexpired, hsubtype, hwait⟩ := running_polled htc hrunning
    have hle := htimed.sets hnone old hold (hsubtype.trans hset) hexpired
    have helapsed : (s.polled p time).elapsed = s.elapsed + p := rfl
    rw [hwait, helapsed]
    exact hle.trans (le_of_eq (by ring))
  · exact fun hwaiting => (htimed.waiting hwaiting).of_kinds (map_kind_polled p time s) rfl

end Timer

/-! ## Runs -/

/-- Every step that meets the condition keeps the output watched. -/
theorem watched_step {s next : OutputTimer} {action : OutputAction} (hwatched : s.Watched env)
    (hunhurried : s.Unhurried env action) (hstep : step host env s action = some next) :
    next.Watched env := by
  cases action with
  | command clock msg =>
      rw [step] at hstep
      split_ifs at hstep with hcommand
      rw [Option.some.injEq] at hstep
      subst hstep
      exact hwatched.call host env (Or.inl hcommand.2) (fun m hm => hm) hunhurried
  | poll msg =>
      obtain ⟨hp, rfl | rfl⟩ := step_poll host env hstep
      · exact hwatched
      · refine ⟨hwatched.own.polled hp _, fun hne hpos => ?_⟩
        exact (hwatched.timed hne hpos).polled env hwatched.own hp _ (hunhurried hne)
  | timerStep => exact hwatched.timerStep host env hstep
  | outputStep clock =>
      cases hends : s.toOutput with
      | nil =>
          rw [step, hends] at hstep
          cases hstep
      | cons msg rest =>
          rw [step, hends, Option.some.injEq] at hstep
          subst hstep
          have hrest : ∀ m ∈ rest, m ∈ s.toOutput := fun m hm => hends ▸ List.mem_cons_of_mem msg hm
          refine hwatched.call host env (Or.inr ?_) hrest fun hasks hpos => ?_
          · exact hwatched.own.toOutput msg (hends ▸ List.mem_cons_self)
          · rw [Unhurried, hends] at hunhurried
            exact hunhurried msg rfl hasks hpos

/-- A wait end that a watched output gets off its default value is not early. -/
theorem Watched.notEarly {s : OutputTimer} (hwatched : s.Watched env) (action : OutputAction) :
    s.NotEarly host env action := by
  cases action with
  | command _ _ => trivial
  | poll _ => trivial
  | timerStep => trivial
  | outputStep clock =>
      intro next hstep hne _
      obtain hzero | hpos := le_or_gt (duration env s.output) 0
      · exact hzero.trans hwatched.own.elapsed
      · refine (hwatched.timed hne hpos).ends fun hnil => ?_
        rw [step, hnil] at hstep
        cases hstep

/-- In every run whose steps all meet the condition, no wait end takes the output back to its
default value before its duration is over. -/
theorem notEarly_of_unhurried (params : MParams) (n : String) (actions : List OutputAction)
    (hunhurried : Machine.Along (step host env) (Unhurried env) (start params n) actions) :
    Machine.Along (step host env) (NotEarly host env) (start params n) actions :=
  Machine.Along.imp_of_guarded (I := Watched env)
    (fun _ action hwatched _ => hwatched.notEarly host env action)
    (fun _ _ _ hwatched hunhurried hstep => watched_step host env hwatched hunhurried hstep)
    (watched_start env params n) hunhurried

/-- Ten seconds of light. -/
def bathroom : MParams where
  ty := "output"
  attributes := []
  path := some ("output",
    [⟨"name", "generic", "SO_bath"⟩, ⟨"duration", "generic", "10"⟩, ⟨"default", "generic", "OFF"⟩,
      ⟨"eventname", "generic", "SO_bath"⟩, ⟨"output", "output", "out1"⟩])
  pathh := none

def turn (value : String) : OutputAction :=
  .command firstNight ((MMessage.mk2 "cmd" "SO_bath").add "value" value)

def pollAt (time : String) : OutputAction :=
  .poll (((MMessage.mk2 "trigger" "poll").add "period" "5").add "time" time)

/-- On, and off again by the timer. -/
def once : List OutputAction :=
  [turn "ON", .timerStep, pollAt "5", pollAt "10", .outputStep firstNight]

theorem notEarly_of_unhurried_once :
    Machine.Along (step ⟨true, "OFF", ""⟩ firstNight) (NotEarly ⟨true, "OFF", ""⟩ firstNight)
      (start bathroom "SO_bath") once :=
  notEarly_of_unhurried ⟨true, "OFF", ""⟩ firstNight bathroom "SO_bath" once (by decide +kernel)

/-- On and off by commands, on again after five seconds, and two polls. -/
def twice : List OutputAction :=
  [turn "ON", .timerStep, turn "OFF", .timerStep, pollAt "5", turn "ON", .timerStep, pollAt "10",
    .outputStep firstNight]

/-- The wait that the command `OFF` started ends the second light after five seconds. -/
theorem not_notEarly_twice :
    ¬Machine.Along (step ⟨true, "OFF", ""⟩ firstNight) (NotEarly ⟨true, "OFF", ""⟩ firstNight)
      (start bathroom "SO_bath") twice := by
  decide +kernel

end OutputTimer

end Hat
