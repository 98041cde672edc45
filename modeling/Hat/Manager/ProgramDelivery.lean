import Hat.Manager.InstalledProgram
import Hat.Minilibs.SubjectSet

/-!
# Delivery of the program to its subscribers

The program engine, the subjects and the status of the agent together.  Subjects
drop every message while the agent is off, and nothing sends a dropped message
again, so a subscriber knows the program in force exactly when the notices made with
the agent off have left it as it was.
-/

namespace Hat

open Hat.Hsrv

/-- The engine and its subscribers in an agent that may be on or off. -/
structure ProgramDelivery (O : Type*) where
  engine : ProgramEngine
  status : Status
  inbox : O → List MMessage
  /-- What the engine has notified so far, with the status of the agent at the time. -/
  notices : List (Status × MMessage)
  /-- A time update has been handled since the agent was last switched on. -/
  updated : Bool

inductive DeliveryAction
  | handle (turn : ProgramEngine.Turn)
  | setStatus (status : Status)

namespace ProgramDelivery

variable {O : Type*} [DecidableEq O]

/-- Every receiver gets a copy of the message for each time it is called. -/
def deliver (set : SubjectSet O) (message : MMessage) (state : ProgramDelivery O) :
    ProgramDelivery O :=
  let receivers := (set.notify state.status message.mtype message.msubtype).2
  { state with
    inbox := fun observer =>
      state.inbox observer ++ List.replicate (receivers.count observer) message
    notices := state.notices ++ [(state.status, message)] }

def deliverAll (set : SubjectSet O) (messages : List MMessage) (state : ProgramDelivery O) :
    ProgramDelivery O :=
  messages.foldl (fun reached message => reached.deliver set message) state

def new (status : Status) (engine : ProgramEngine) : ProgramDelivery O where
  engine := engine
  status := status
  inbox := fun _ => []
  notices := []
  updated := false

/-- The engine has been started in an agent of the given status. -/
def start (set : SubjectSet O) (status : Status) (env : Env) (engine : ProgramEngine) :
    ProgramDelivery O :=
  (new status (engine.start env).1).deliverAll set (engine.start env).2.notified

/-- The engine after a message, before what it notifies is delivered. -/
def handled (state : ProgramDelivery O) (turn : ProgramEngine.Turn) : ProgramDelivery O :=
  { state with
    engine := state.engine.next turn
    updated := state.updated || (turn.2.mtype = "trigger" && turn.2.msubtype = "prgupdate") }

def next (set : SubjectSet O) (state : ProgramDelivery O) : DeliveryAction → ProgramDelivery O
  | .handle turn => (state.handled turn).deliverAll set (state.engine.notified turn)
  | .setStatus status =>
      { state with status := status, updated := state.updated && state.status = status }

def run (set : SubjectSet O) (state : ProgramDelivery O) (actions : List DeliveryAction) :
    ProgramDelivery O :=
  actions.foldl (next set) state

/-- The observers that receive program messages while the agent is on. -/
def subscribers (set : SubjectSet O) : List O := (set.notify .on "program" "prgstatus").2

/-- The message carries the program and the active list of the engine. -/
def Carries (engine : ProgramEngine) (message : MMessage) : Prop :=
  message.getString "program" = engine.program.current ∧ message.getList "active" = engine.active

/-- The last message delivered to the observer carries what is in force. -/
def Informed (state : ProgramDelivery O) (observer : O) : Prop :=
  ∃ message, (state.inbox observer).getLast? = some message ∧ Carries state.engine message

/-- The notices made with the agent on. -/
def sent (state : ProgramDelivery O) : List (Status × MMessage) :=
  state.notices.filter fun notice => notice.1 = .on

/-- The last notice made with the agent on agrees with the last notice of all. -/
def UpToDate (state : ProgramDelivery O) : Prop :=
  ∃ delivered last, state.sent.getLast? = some delivered ∧ state.notices.getLast? = some last ∧
    delivered.2.getString "program" = last.2.getString "program" ∧
    delivered.2.getList "active" = last.2.getList "active"

/-- The engine remembers what it has notified last, and a subscriber has received what
was notified with the agent on. -/
structure Tracks (set : SubjectSet O) (state : ProgramDelivery O) : Prop where
  remembered : state.notices ≠ [] → state.engine.previousProgram = state.engine.program.current
  carries : ∀ last, state.notices.getLast? = some last → Carries state.engine last.2
  delivered : ∀ observer ∈ subscribers set,
    (state.inbox observer).getLast? = state.sent.getLast?.map Prod.snd

@[simp]
theorem deliverAll_nil (set : SubjectSet O) (state : ProgramDelivery O) :
    state.deliverAll set [] = state := rfl

@[simp]
theorem deliverAll_singleton (set : SubjectSet O) (message : MMessage)
    (state : ProgramDelivery O) : state.deliverAll set [message] = state.deliver set message := rfl

theorem getLast?_append_replicate {α : Type*} (items : List α) {count : Nat} (hcount : 0 < count)
    (item : α) : (items ++ List.replicate count item).getLast? = some item := by
  rw [List.getLast?_append, List.getLast?_replicate, if_neg (Nat.pos_iff_ne_zero.mp hcount)]
  rfl

theorem delivered_deliver {set : SubjectSet O} {message : MMessage}
    {state : ProgramDelivery O} {observer : O} (hobserver : observer ∈ subscribers set)
    (hheader : message.mtype = "program" ∧ message.msubtype = "prgstatus")
    (hbefore : (state.inbox observer).getLast? = state.sent.getLast?.map Prod.snd) :
    ((state.deliver set message).inbox observer).getLast? =
      (state.deliver set message).sent.getLast?.map Prod.snd := by
  cases hstatus : state.status with
  | on =>
      have hcount : 0 < (subscribers set).count observer := List.count_pos_iff.mpr hobserver
      have hsent : (state.deliver set message).sent = state.sent ++ [(Status.on, message)] := by
        simp only [sent, deliver, hstatus, List.filter_append]
        rfl
      rw [hsent, List.getLast?_append]
      simp only [deliver, hstatus, hheader]
      exact getLast?_append_replicate _ hcount message
  | off =>
      have hsent : (state.deliver set message).sent = state.sent := by
        simp only [sent, deliver, hstatus, List.filter_append]
        exact List.append_nil _
      rw [hsent, ← hbefore]
      simp only [deliver, hstatus, SubjectSet.notify, if_true, List.count_nil,
        List.replicate_zero, List.append_nil]

/-- The state after a notification of the program and the active list in force. -/
theorem tracks_deliver {set : SubjectSet O} {state : ProgramDelivery O} {env : Env}
    {change : Bool} {current : String} {active : List String}
    (hdelivered : ∀ observer ∈ subscribers set,
      (state.inbox observer).getLast? = state.sent.getLast?.map Prod.snd)
    (hcurrent : state.engine.program.current = current) (hactive : state.engine.active = active)
    (hremembered : state.engine.previousProgram = current) :
    Tracks set (state.deliver set (ProgramEngine.prgstatus env change current active)) := by
  constructor
  · intro _
    exact hremembered.trans hcurrent.symm
  · intro last hlast
    have hname := ProgramEngine.getString_program_prgstatus env change current active
    have hlist := ProgramEngine.getList_active_prgstatus env change current active
    rw [deliver, List.getLast?_concat, Option.some.injEq] at hlast
    rw [← hlast]
    exact ⟨hname.trans hcurrent.symm, hlist.trans hactive.symm⟩
  · intro observer hobserver
    exact delivered_deliver hobserver (ProgramEngine.header_prgstatus env change current active)
      (hdelivered observer hobserver)

theorem core_eq {engine other : ProgramEngine} (h : engine.core = other.core) :
    engine.program = other.program ∧ engine.previousProgram = other.previousProgram ∧
      engine.active = other.active := by
  simpa [ProgramEngine.core] using h

/-- Without a notification after a command the program is the remembered one. -/
theorem remembered_of_not_refreshed {env : Env} {engine : ProgramEngine}
    (hnone : engine.refreshed env true = none) :
    engine.previousProgram = engine.program.current := by
  by_contra hne
  simp only [ProgramEngine.refreshed, hne, ne_eq, not_false_eq_true, and_self, if_true] at hnone
  split at hnone
  · exact absurd hnone (Option.some_ne_none _)
  · exact absurd hnone (Option.some_ne_none _)

theorem setprogram_keeps (msg : MMessage) (engine : ProgramEngine) :
    (engine.setprogram msg).2.previousProgram = engine.previousProgram ∧
      (engine.setprogram msg).2.active = engine.active := by
  simp only [ProgramEngine.setprogram]
  split
  · split <;> exact ⟨rfl, rfl⟩
  · split
    · exact ⟨rfl, rfl⟩
    · split <;> exact ⟨rfl, rfl⟩

/-- A notification that is sent carries the program and the entries that it leaves. -/
theorem notified_of_refreshed {after handled : ProgramEngine} {env : Env} {change : Bool}
    {active : List String} {notified : List MMessage}
    (hrefreshed : handled.refreshed env change = some active)
    (hnotified : notified = (handled.programNotify env change).2.2)
    (hcore : after.core = (handled.programNotify env change).2.1.core) :
    notified = [ProgramEngine.prgstatus env change after.program.current after.active] ∧
      after.previousProgram = after.program.current := by
  obtain ⟨hprogram, hprevious, hactive⟩ := core_eq hcore
  obtain ⟨hmessages, hprg, hact, hprev⟩ := ProgramEngine.programNotify_of_refreshed hrefreshed
  constructor
  · rw [hnotified, hmessages, hprogram, hprg, hactive, hact]
  · rw [hprevious, hprev, hprogram, hprg]

/-- What handling a message comes to, for a subscriber. -/
theorem notified_cases (engine : ProgramEngine) (turn : ProgramEngine.Turn) :
    (∃ change, engine.notified turn = [ProgramEngine.prgstatus turn.1 change
        (engine.next turn).program.current (engine.next turn).active] ∧
      (engine.next turn).previousProgram = (engine.next turn).program.current) ∨
    (engine.notified turn = [] ∧ (engine.next turn).active = engine.active ∧
      (engine.next turn).previousProgram = engine.previousProgram ∧
      ((engine.next turn).program = engine.program ∨
        (engine.next turn).previousProgram = (engine.next turn).program.current)) := by
  by_cases hset : ProgramEngine.IsSetprogram turn.2
  · obtain ⟨hnotified, hcore⟩ := ProgramEngine.notified_of_setprogram hset engine
    obtain ⟨hprogram, hprevious, hactive⟩ := core_eq hcore
    cases hrefreshed : (engine.setprogram turn.2).2.refreshed turn.1 true with
    | some active => exact Or.inl ⟨true, notified_of_refreshed hrefreshed hnotified hcore⟩
    | none =>
        have hsame := ProgramEngine.programNotify_of_not_refreshed hrefreshed
        rw [hsame] at hnotified hprogram hprevious hactive
        obtain ⟨hprev, hact⟩ := setprogram_keeps turn.2 engine
        refine Or.inr ⟨hnotified, hactive.trans hact, hprevious.trans hprev, Or.inr ?_⟩
        rw [hprevious, hprogram]
        exact remembered_of_not_refreshed hrefreshed
  · by_cases hupdate : ProgramEngine.IsPrgupdate turn.2
    · obtain ⟨hnotified, hcore⟩ := ProgramEngine.notified_of_prgupdate hupdate engine
      obtain ⟨hprogram, hprevious, hactive⟩ := core_eq hcore
      cases hrefreshed : engine.refreshed turn.1 false with
      | some active => exact Or.inl ⟨false, notified_of_refreshed hrefreshed hnotified hcore⟩
      | none =>
          have hsame := ProgramEngine.programNotify_of_not_refreshed hrefreshed
          rw [hsame] at hnotified hprogram hprevious hactive
          exact Or.inr ⟨hnotified, hactive, hprevious, Or.inl hprogram⟩
    · obtain ⟨hnotified, hcore⟩ := ProgramEngine.notified_of_other hupdate hset engine
      obtain ⟨hprogram, hprevious, hactive⟩ := core_eq hcore
      exact Or.inr ⟨hnotified, hactive, hprevious, Or.inl hprogram⟩

omit [DecidableEq O] in
theorem tracks_handled {set : SubjectSet O} {state : ProgramDelivery O} (h : Tracks set state)
    {turn : ProgramEngine.Turn} (hactive : (state.engine.next turn).active = state.engine.active)
    (hprevious : (state.engine.next turn).previousProgram = state.engine.previousProgram)
    (hprogram : (state.engine.next turn).program = state.engine.program ∨
      (state.engine.next turn).previousProgram = (state.engine.next turn).program.current) :
    Tracks set (state.handled turn) := by
  have hcurrent : state.notices ≠ [] →
      (state.engine.next turn).program.current = state.engine.program.current := by
    intro hsome
    rcases hprogram with hsame | hremembered
    · rw [hsame]
    · rw [← hremembered, hprevious, h.remembered hsome]
  constructor
  · intro hsome
    exact hprevious.trans ((h.remembered hsome).trans (hcurrent hsome).symm)
  · intro last hlast
    obtain ⟨hname, hlist⟩ := h.carries last hlast
    have hsome : state.notices ≠ [] := List.ne_nil_of_mem (List.mem_of_getLast? hlast)
    exact ⟨hname.trans (hcurrent hsome).symm, hlist.trans hactive.symm⟩
  · exact h.delivered

theorem tracks_next {set : SubjectSet O} {state : ProgramDelivery O} (h : Tracks set state)
    (action : DeliveryAction) : Tracks set (state.next set action) := by
  cases action with
  | setStatus status => exact ⟨h.remembered, h.carries, h.delivered⟩
  | handle turn =>
      rw [next]
      rcases notified_cases state.engine turn with
        ⟨change, hnotified, hremembered⟩ | ⟨hnotified, hactive, hprevious, hprogram⟩
      · rw [hnotified, deliverAll_singleton]
        exact tracks_deliver h.delivered rfl rfl hremembered
      · rw [hnotified, deliverAll_nil]
        exact tracks_handled h hactive hprevious hprogram

theorem tracks_start (set : SubjectSet O) (status : Status) (env : Env)
    (engine : ProgramEngine) : Tracks set (start set status env engine) := by
  obtain ⟨hnotified, hcore⟩ := ProgramEngine.start_eq env engine
  obtain ⟨hprogram, hprevious, hactive⟩ := core_eq hcore
  rw [start]
  generalize engine.start env = started at *
  cases hrefreshed : engine.refreshed env true with
  | some active =>
      obtain ⟨hmessages, hprg, hact, hprev⟩ := ProgramEngine.programNotify_of_refreshed hrefreshed
      rw [hnotified, hmessages, deliverAll_singleton]
      apply tracks_deliver
      · exact fun _ _ => rfl
      · exact congrArg Program.current (hprogram.trans hprg)
      · exact hactive.trans hact
      · exact hprevious.trans hprev
  | none =>
      have hsame := ProgramEngine.programNotify_of_not_refreshed hrefreshed
      rw [hnotified, hsame, deliverAll_nil]
      constructor
      · exact fun hsome => absurd rfl hsome
      · exact fun last hlast => absurd hlast.symm (Option.some_ne_none last)
      · exact fun _ _ => rfl

theorem tracks_run {set : SubjectSet O} {state : ProgramDelivery O} (h : Tracks set state)
    (actions : List DeliveryAction) : Tracks set (state.run set actions) := by
  induction actions generalizing state with
  | nil => exact h
  | cons action rest ih => exact ih (tracks_next h action)

omit [DecidableEq O] in
/-- As long as the last notice was made with the agent on, nothing has been missed. -/
theorem upToDate_of_getLast? {state : ProgramDelivery O} {message : MMessage}
    (hlast : state.notices.getLast? = some (.on, message)) : state.UpToDate := by
  have hsent : state.sent.getLast? = some (.on, message) := by
    obtain ⟨before, hbefore⟩ := List.getLast?_eq_some_iff.mp hlast
    rw [sent, hbefore, List.filter_append]
    exact List.getLast?_concat
  exact ⟨_, _, hsent, hlast, rfl, rfl⟩

/-- In every run, a subscriber knows the program and the active list in force exactly
when the last notice made with the agent on agrees with the last notice of all. -/
theorem informed_iff_upToDate (set : SubjectSet O) (status : Status) (env : Env)
    (startprg : String) (home : HomeDir) (actions : List DeliveryAction) {observer : O}
    (hobserver : observer ∈ subscribers set) :
    (run set (start set status env (ProgramEngine.new startprg home)) actions).Informed observer ↔
      (run set (start set status env (ProgramEngine.new startprg home)) actions).UpToDate := by
  have htracks := tracks_run (tracks_start set status env (ProgramEngine.new startprg home)) actions
  generalize run set (start set status env (ProgramEngine.new startprg home)) actions = state at *
  have hinbox := htracks.delivered observer hobserver
  constructor
  · rintro ⟨message, hlast, hname, hlist⟩
    rw [hlast, eq_comm, Option.map_eq_some_iff] at hinbox
    obtain ⟨delivered, hdelivered, rfl⟩ := hinbox
    have hmem : delivered ∈ state.notices :=
      (List.mem_filter.mp (List.mem_of_getLast? hdelivered)).1
    have hnotice := List.getLast?_eq_some_getLast (List.ne_nil_of_mem hmem)
    obtain ⟨hname', hlist'⟩ := htracks.carries _ hnotice
    exact ⟨delivered, _, hdelivered, hnotice, hname.trans hname'.symm, hlist.trans hlist'.symm⟩
  · rintro ⟨delivered, last, hdelivered, hnotice, hname, hlist⟩
    obtain ⟨hname', hlist'⟩ := htracks.carries last hnotice
    rw [hdelivered] at hinbox
    exact ⟨delivered.2, hinbox, hname.trans hname', hlist.trans hlist'⟩

/-! ## A change while the agent is off -/

/-- One subscriber of program messages. -/
def oneSubscriber : SubjectSet ℕ :=
  (SubjectSet.addObserver "program" "prgstatus" 0
    (SubjectSet.addSubject "program" "prgstatus" SortedMap.empty)).2

def setprogram (name : String) : DeliveryAction :=
  .handle (ProgramEngine.noonHalf, (MMessage.mk2 "cmd" "setprogram").add "program" name)

def update : DeliveryAction := .handle (ProgramEngine.noonHalf, ProgramEngine.prgupdate)

def manual : ProgramDelivery ℕ :=
  start oneSubscriber .on ProgramEngine.noonHalf
    (ProgramEngine.new "MANUAL" ProgramEngine.emptyHome)

theorem informed_of_setprogram :
    (manual.run oneSubscriber [setprogram "AUTO", update]).Informed 0 := by
  have hlast : (manual.run oneSubscriber [setprogram "AUTO", update]).notices.getLast? =
      some (.on, ProgramEngine.prgstatus ProgramEngine.noonHalf true "AUTO" ["ALL"]) := by
    decide +kernel
  exact (informed_iff_upToDate oneSubscriber .on ProgramEngine.noonHalf "MANUAL"
    ProgramEngine.emptyHome [setprogram "AUTO", update] (by decide +kernel)).mpr
    (upToDate_of_getLast? hlast)

/-- A change of program in an agent that is off is never told to the subscriber. -/
theorem not_informed_off :
    ¬∀ actions : List DeliveryAction,
      (manual.run oneSubscriber actions).status = .on →
      (manual.run oneSubscriber actions).updated = true →
      ∀ observer ∈ subscribers oneSubscriber,
        (manual.run oneSubscriber actions).Informed observer := by
  intro hall
  obtain ⟨message, hlast, hname, _⟩ :=
    hall [.setStatus .off, setprogram "AUTO", .setStatus .on, update] (by decide +kernel)
      (by decide +kernel) 0 (by decide +kernel)
  have hold : ((manual.run oneSubscriber
      [.setStatus .off, setprogram "AUTO", .setStatus .on, update]).inbox 0).getLast?.map
        (fun message => message.getString "program") = some "MANUAL" := by
    decide +kernel
  have hnew : (manual.run oneSubscriber
      [.setStatus .off, setprogram "AUTO", .setStatus .on, update]).engine.program.current =
        "AUTO" := by
    decide +kernel
  rw [hlast, Option.map_some, hname, hnew] at hold
  exact absurd (Option.some.inj hold) (by decide)

end ProgramDelivery

end Hat
