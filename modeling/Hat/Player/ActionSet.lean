import Hat.Core.Machine
import Hat.Minilibs.MMessage
import Hat.Minilibs.MParams

/-!
# Actions with a delay

An action is executed by a thread of its own, which sleeps and then sends the command.  The delay
is handed over in a field of the action, which the thread reads whenever it gets to it.  The
engine's thread removes the threads whose deadlines have passed and waits for each of them.
-/

namespace Hat.Player

open Hat.Hsrv

/-- The cast to `int`; out of its range the result is not specified. -/
def toInt (env : Env) (value : ℚ) : ℤ :=
  if -2147483649 < value ∧ value < 2147483648 then toLong value else env.unsetInt

/-- Times that are not valid are refused at once. -/
def nanosleep (tvSec tvNsec : ℤ) : ℚ :=
  if 0 ≤ tvSec ∧ 0 ≤ tvNsec ∧ tvNsec < 1000000000 then tvSec + tvNsec / 1000000000 else 0

def sleepTime (env : Env) (delay : String) : ℚ :=
  let waittime := a2double env delay / 10
  let tvSec := toInt env waittime
  nanosleep tvSec (toInt env (1000000000 * (waittime - tvSec)))

/-- A time in whole nanoseconds, none before zero. -/
def wholeNanos (waittime : ℚ) : ℚ :=
  if waittime < 0 then 0 else (⌊1000000000 * waittime⌋ : ℚ) / 1000000000

/-- The time that a delay stands for, unless the text has no number or the seconds do not fit. -/
def waitOf (d : String) : Option ℚ :=
  if d = "" then some 0
  else (scanDouble d.toList).bind fun value =>
    if -2147483649 < value / 10 ∧ value / 10 < 2147483648 then some (wholeNanos (value / 10))
    else none

structure ThreadEntry where
  deadline : ℚ
  th : ℕ

structure Action where
  params : MParams
  delay : String
  ths : List ThreadEntry

namespace Action

def setStatus (value : String) (action : Action) : Action :=
  { action with params := (action.params.set "status" value).save }

/-- The delay is taken over before the status is looked at. -/
def exec (env : Env) (d : String) (th : ℕ) (action : Action) : Action × Bool :=
  let action := { action with delay := d }
  if action.params.get "status" ≠ "ON" then (action, false)
  else
    let deadline := env.gettime + a2double env d / 10 + 30
    ({ action with ths := action.ths ++ [⟨deadline, th⟩] }, true)

/-- The message that a thread sends. -/
def command (action : Action) : MMessage :=
  (MMessage.mk2 "cmd" (action.params.get "cmd")).add "value" (action.params.get "value")

/-- The place of the first thread whose deadline has passed. -/
def expired (tt : ℚ) (action : Action) : Option ℕ :=
  action.ths.findIdx? fun entry => entry.deadline < tt

end Action

/-- Where a thread is in `do_work`: the message is put together, the delay is compared with the
empty text, it is read once more, and the message is sent after the sleep. -/
inductive Phase
  | created
  | built (out : MMessage)
  | looked (out : MMessage)
  | asleep (out : MMessage) (since wait : ℚ)
  | finished (out : MMessage) (since wait time : ℚ)

structure Emission where
  thread : ℕ
  command : MMessage
  time : ℚ

namespace Phase

/-- The next point of `do_work` with what the thread reads on the way. -/
def next (env : Env) (action : Action) : Phase → Option Phase
  | created => some (built action.command)
  | built out =>
      some (if action.delay ≠ "" then looked out else asleep out env.gettime 0)
  | looked out => some (asleep out env.gettime (sleepTime env action.delay))
  | asleep out since wait =>
      if since + wait ≤ env.gettime then some (finished out since wait env.gettime) else none
  | finished _ _ _ _ => none

/-- Behind the sleep the message is sent. -/
def sends (i : ℕ) (time : ℚ) : Phase → List Emission
  | asleep out _ _ => [⟨i, out, time⟩]
  | _ => []

end Phase

structure Thread where
  obj : ℕ
  phase : Phase

/-- The engine's thread waits for messages, or goes through the actions and removes threads. -/
inductive Main
  | idle
  | purging (tt : ℚ) (i : ℕ)
  deriving DecidableEq

/-- A call of `exec` that was accepted. -/
structure Request where
  obj : ℕ
  command : MMessage
  delay : String
  time : ℚ

structure Join where
  thread : ℕ
  time : ℚ

/-- The actions and the threads with what has happened so far: the accepted calls, one for each
thread, the messages sent and the threads waited for. -/
structure PlayerState where
  actions : List Action
  threads : List Thread
  main : Main
  now : ℚ
  accepted : List Request
  emitted : List Emission
  joined : List Join

inductive Act
  | exec (name d : String)
  | setStatus (i : ℕ) (value : String)
  | purge
  | join
  | run (i : ℕ)

/-- A step with what is read from the surroundings. -/
structure Move where
  env : Env
  act : Act

namespace PlayerState

def initial (params : List MParams) (now : ℚ) : PlayerState where
  actions := params.map fun p => ⟨p, "", []⟩
  threads := []
  main := .idle
  now := now
  accepted := []
  emitted := []
  joined := []

/-- The first action of a name. -/
def find (state : PlayerState) (name : String) : Option ℕ :=
  state.actions.findIdx? fun action => action.params.get "name" = name

def setAction (i : ℕ) (action : Action) (state : PlayerState) : PlayerState :=
  { state with actions := state.actions.set i action }

/-- A thread is started for a request. -/
def spawn (request : Request) (state : PlayerState) : PlayerState :=
  { state with
    threads := state.threads ++ [⟨request.obj, .created⟩]
    accepted := state.accepted ++ [request] }

def exec (env : Env) (name d : String) (state : PlayerState) : PlayerState :=
  match state.find name with
  | none => state
  | some i =>
      match state.actions[i]? with
      | none => state
      | some action =>
          let result := action.exec env d state.threads.length
          let state := state.setAction i result.1
          if result.2 then state.spawn ⟨i, action.command, d, env.gettime⟩ else state

def setStatus (i : ℕ) (value : String) (state : PlayerState) : PlayerState :=
  match state.actions[i]? with
  | none => state
  | some action => state.setAction i (action.setStatus value)

def isFinished (state : PlayerState) (i : ℕ) : Bool :=
  match state.threads[i]? with
  | some ⟨_, .finished _ _ _ _⟩ => true
  | _ => false

/-- One turn of the loops of `purge_expired`: the first thread of the action whose deadline has
passed is waited for and removed, and without one the next action follows. -/
def join (state : PlayerState) : Option PlayerState :=
  match state.main with
  | .idle => none
  | .purging tt i =>
      match state.actions[i]? with
      | none => some { state with main := .idle }
      | some action =>
          match action.expired tt with
          | none => some { state with main := .purging tt (i + 1) }
          | some j =>
              (action.ths[j]?).bind fun entry =>
                if state.isFinished entry.th then
                  some { state.setAction i { action with ths := action.ths.eraseIdx j } with
                    joined := state.joined ++ [⟨entry.th, tt⟩] }
                else none

def setPhase (i obj : ℕ) (phase : Phase) (state : PlayerState) : PlayerState :=
  { state with threads := state.threads.set i ⟨obj, phase⟩ }

/-- A thread goes on to its next point. -/
def run (env : Env) (i : ℕ) (state : PlayerState) : Option PlayerState :=
  (state.threads[i]?).bind fun thread =>
    (state.actions[thread.obj]?).bind fun action =>
      (thread.phase.next env action).map fun phase =>
        { state.setPhase i thread.obj phase with
          emitted := state.emitted ++ thread.phase.sends i env.gettime }

/-- The engine's thread does one thing at a time. -/
def perform (env : Env) (state : PlayerState) : Act → Option PlayerState
  | .exec name d => if state.main = .idle then some (state.exec env name d) else none
  | .setStatus i value => if state.main = .idle then some (state.setStatus i value) else none
  | .purge =>
      if state.main = .idle then some { state with main := .purging env.gettime 0 } else none
  | .join => state.join
  | .run i => state.run env i

/-- Time does not go back. -/
def step (state : PlayerState) (move : Move) : Option PlayerState :=
  if move.env.gettime < state.now then none
  else perform move.env { state with now := move.env.gettime } move.act

end PlayerState

end Hat.Player
