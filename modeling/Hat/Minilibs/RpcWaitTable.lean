import Hat.Minilibs.MMessage
import Hat.Minilibs.MMessageQueue
import Mathlib.Logic.Function.Basic

/-!
# The table of waiting remote calls

A call is registered under a fresh tag, an answer is filed in the queue of the entry
that has its tag, and a thread that waits for a tag receives from that queue and then
removes the entry.  The table has one lock and every queue its own; the model makes a
step of every section under the lock of the table, of every turn of the loop over the
timeouts, and of every step inside a queue.
-/

namespace Hat

open Function Hat.Hsrv

variable {Tid : Type*}

structure RpcEntry (Tid : Type*) where
  tag : String
  waitingQueue : Monitor.State (List MMessage) MMessage MMessage Tid
  rtime : ℚ

/-- What a thread is doing in the table, or the result that its last call has had. -/
inductive RpcCaller
  | idle
  | registered (message : MMessage) (tag : String)
  | signalling (message : MMessage) (entry : ℕ)
  | signalled (found : Bool)
  | checking (ctime : ℚ) (i : ℕ)
  | complaining (ctime : ℚ) (i : ℕ) (message : MMessage) (entry : ℕ)
  | checked
  | receiving (tag : String) (entry : ℕ)
  | clearing (tag : String) (entry : ℕ) (answer : Option MMessage)
  | answered (tag : String) (found : Bool) (answer : Option MMessage)
  /-- The end of the pending vector has been dereferenced. -/
  | overrun
  deriving DecidableEq

namespace RpcCaller

/-- The message that is being sent, and the entry it is sent to. -/
def sends : RpcCaller → Option (MMessage × ℕ)
  | signalling message entry => some (message, entry)
  | complaining _ _ message entry => some (message, entry)
  | _ => none

def receives : RpcCaller → Option ℕ
  | receiving _ entry => some entry
  | _ => none

/-- The points at which a thread holds the lock of the table. -/
def locks : RpcCaller → Bool
  | signalling _ _ => true
  | checking _ _ => true
  | complaining _ _ _ _ => true
  | _ => false

/-- The entry that a thread with an answer has still to clear. -/
def clears : RpcCaller → Option ℕ
  | clearing _ entry _ => some entry
  | _ => none

def isDone : RpcCaller → Bool
  | registered _ _ => true
  | signalled _ => true
  | checked => true
  | answered _ _ _ => true
  | _ => false

/-- The steps of `send` and `receive` that the thread may take in an entry's queue. -/
def Uses (caller : RpcCaller) (entry : ℕ) : Monitor.Move Tid MMessage MMessage → Prop
  | .enter message => caller.sends = some (message, entry)
  | .put _ => caller.sends.map Prod.snd = some entry
  | .trim => caller.sends.map Prod.snd = some entry
  | .notify _ => caller.sends.map Prod.snd = some entry
  | .leave => caller.sends.map Prod.snd = some entry
  | .request => caller.receives = some entry
  | .test => caller.receives = some entry
  | .stir => caller.receives = some entry
  | .wake => caller.receives = some entry
  | .take => caller.receives = some entry
  | .finish _ => caller.receives = some entry

/-- Where a step in a queue leads; only the last one of a call leads on. -/
def after (caller : RpcCaller) : Monitor.Move Tid MMessage MMessage → RpcCaller
  | .leave =>
      match caller with
      | complaining ctime i _ _ => checking ctime (i + 1)
      | _ => signalled true
  | .finish answer =>
      match caller with
      | receiving tag entry => clearing tag entry answer
      | other => other
  | _ => caller

end RpcCaller

/-- A pointer to an entry is the number of its registration; entries are never freed. -/
structure RpcWaitTable (Tid : Type*) where
  heap : ℕ → RpcEntry Tid
  allocated : ℕ
  pending : List ℕ
  tagSequence : ℤ
  tag : String
  mutexLock : Option Tid
  caller : Tid → RpcCaller

inductive RpcAction (Tid : Type*)
  | callRegister (message : MMessage) (now : ℚ)
  | signal (message : MMessage)
  | checkTimeOut (ctime : ℚ)
  | checkNext (ctime : ℚ) (i : ℕ)
  | queue (entry : ℕ) (move : Monitor.Move Tid MMessage MMessage)
  | wait (tag : String)
  | clearEntry (tag : String) (entry : ℕ) (answer : Option MMessage)
  | finish

namespace RpcAction

def registers : RpcAction Tid → Bool
  | callRegister _ _ => true
  | _ => false

/-- The entry in whose queue a thread comes back from waiting. -/
def wakesIn : RpcAction Tid → Option ℕ
  | queue entry .wake => some entry
  | _ => none

/-- The entry from whose queue a thread takes a message. -/
def takesFrom : RpcAction Tid → Option ℕ
  | queue entry .take => some entry
  | _ => none

end RpcAction

namespace RpcWaitTable

def rpcTimeout : ℚ := 20

def maxtag : ℤ := 1000000

/-- The queue of an entry, without a bound on its length. -/
def protocol : Monitor.Protocol (List MMessage) MMessage MMessage :=
  MMessageQueue.protocol MMessage.priority 0

def new : RpcWaitTable Tid where
  heap := fun _ => ⟨"", Monitor.start [], 0⟩
  allocated := 0
  pending := []
  tagSequence := 0
  tag := "RPC_" ++ int2a 0
  mutexLock := none
  caller := fun _ => .idle

def mkComplain (tag : String) : MMessage :=
  ((MMessage.mk2 "rpc" "timeout").add "answer_tag" tag).add "value" "timed_out"

def nextSequence (sequence : ℤ) : ℤ := if sequence + 1 > maxtag then 0 else sequence + 1

/-- The first pending entry with the tag. -/
def getEntry (tag : String) (table : RpcWaitTable Tid) : Option ℕ :=
  table.pending.find? fun entry => (table.heap entry).tag = tag

/-- The pending entries without the given one; where it is not among them the search
ends by dereferencing the end of the vector. -/
def clearEntry (entry : ℕ) (pending : List ℕ) : Option (List ℕ) :=
  if entry ∈ pending then some (pending.erase entry) else none

def Enabled (table : RpcWaitTable Tid) (thread : Tid) : RpcAction Tid → Prop
  | .callRegister _ _ => table.caller thread = .idle ∧ table.mutexLock = none
  | .signal _ => table.caller thread = .idle ∧ table.mutexLock = none
  | .checkTimeOut _ => table.caller thread = .idle ∧ table.mutexLock = none
  | .checkNext ctime i => table.caller thread = .checking ctime i
  | .queue entry move => (table.caller thread).Uses entry move ∧
      (table.heap entry).waitingQueue.Enabled thread move
  | .wait _ => table.caller thread = .idle ∧ table.mutexLock = none
  | .clearEntry tag entry answer =>
      table.caller thread = .clearing tag entry answer ∧ table.mutexLock = none
  | .finish => (table.caller thread).isDone

variable [DecidableEq Tid]

def goto (table : RpcWaitTable Tid) (thread : Tid) (caller : RpcCaller) : RpcWaitTable Tid :=
  { table with caller := update table.caller thread caller }

/-- A new pending entry; the tag of the table is the next one to be given out. -/
def register (now : ℚ) (table : RpcWaitTable Tid) : RpcWaitTable Tid :=
  { table with
    heap := update table.heap table.allocated ⟨table.tag, Monitor.start [], now⟩
    allocated := table.allocated + 1
    pending := table.pending ++ [table.allocated]
    tagSequence := nextSequence table.tagSequence
    tag := "RPC_" ++ int2a (nextSequence table.tagSequence) }

def next (table : RpcWaitTable Tid) (thread : Tid) : RpcAction Tid → RpcWaitTable Tid
  | .callRegister message now =>
      (table.register now).goto thread (.registered (message.add "tag" table.tag) table.tag)
  | .signal message =>
      match table.getEntry (message.getString "answer_tag") with
      | some entry =>
          { table with mutexLock := some thread }.goto thread (.signalling message entry)
      | none => table.goto thread (.signalled false)
  | .checkTimeOut ctime =>
      { table with mutexLock := some thread }.goto thread (.checking ctime 0)
  | .checkNext ctime i =>
      match table.pending[i]? with
      | some entry =>
          if (table.heap entry).rtime + rpcTimeout < ctime then
            table.goto thread (.complaining ctime i (mkComplain (table.heap entry).tag) entry)
          else table.goto thread (.checking ctime (i + 1))
      | none => { table with mutexLock := none }.goto thread .checked
  | .queue entry move =>
      let queue := (table.heap entry).waitingQueue.next protocol thread move
      let caller := (table.caller thread).after move
      { table with
        heap := update table.heap entry { table.heap entry with waitingQueue := queue }
        mutexLock := if (table.caller thread).locks && !caller.locks then none
          else table.mutexLock }.goto thread caller
  | .wait tag =>
      match table.getEntry tag with
      | some entry => table.goto thread (.receiving tag entry)
      | none => table.goto thread (.answered tag false (some (MMessage.mk2 "error" "no_entry")))
  | .clearEntry tag entry answer =>
      match clearEntry entry table.pending with
      | some pending => { table with pending := pending }.goto thread (.answered tag true answer)
      | none => table.goto thread .overrun
  | .finish => table.goto thread .idle

instance (caller : RpcCaller) (entry : ℕ) :
    (move : Monitor.Move Tid MMessage MMessage) → Decidable (caller.Uses entry move)
  | .enter _ => inferInstanceAs (Decidable (_ = _))
  | .put _ => inferInstanceAs (Decidable (_ = _))
  | .trim => inferInstanceAs (Decidable (_ = _))
  | .notify _ => inferInstanceAs (Decidable (_ = _))
  | .leave => inferInstanceAs (Decidable (_ = _))
  | .request => inferInstanceAs (Decidable (_ = _))
  | .test => inferInstanceAs (Decidable (_ = _))
  | .stir => inferInstanceAs (Decidable (_ = _))
  | .wake => inferInstanceAs (Decidable (_ = _))
  | .take => inferInstanceAs (Decidable (_ = _))
  | .finish _ => inferInstanceAs (Decidable (_ = _))

instance (table : RpcWaitTable Tid) (thread : Tid) :
    (action : RpcAction Tid) → Decidable (table.Enabled thread action)
  | .callRegister _ _ => inferInstanceAs (Decidable (_ ∧ _))
  | .signal _ => inferInstanceAs (Decidable (_ ∧ _))
  | .checkTimeOut _ => inferInstanceAs (Decidable (_ ∧ _))
  | .checkNext _ _ => inferInstanceAs (Decidable (_ = _))
  | .queue _ _ => inferInstanceAs (Decidable (_ ∧ _))
  | .wait _ => inferInstanceAs (Decidable (_ ∧ _))
  | .clearEntry _ _ _ => inferInstanceAs (Decidable (_ ∧ _))
  | .finish => inferInstanceAs (Decidable (_ = _))

def step (table : RpcWaitTable Tid) (action : Tid × RpcAction Tid) : Option (RpcWaitTable Tid) :=
  if table.Enabled action.1 action.2 then some (table.next action.1 action.2) else none

theorem step_eq_some {table following : RpcWaitTable Tid} {action : Tid × RpcAction Tid} :
    table.step action = some following ↔
      table.Enabled action.1 action.2 ∧ table.next action.1 action.2 = following := by
  rw [step]
  split
  · rename_i henabled
    rw [Option.some.injEq, and_iff_right henabled]
  · rename_i hrefused
    simp [hrefused]

end RpcWaitTable

end Hat
