import Hat.Core.Monitor
import Mathlib.Data.Int.Notation
import Mathlib.Data.List.Basic

/-!
# Priority queues between threads

`MMessageQueue` and `MsgQueue` have the same code over two libraries of threads.  A
queue is a monitor whose data is ready when it is not empty.  The receiver waits under
an `if`, so it does not look at the queue again after it has been woken; the module
determines the runs in which it never reads an empty queue.
-/

namespace Hat

variable {Q Tid : Type*}

namespace PriorityQueue

/-- The loop that both operations use to select an element. -/
def scan (better : Q → Q → Bool) (queue : List Q) : ℕ :=
  (List.range queue.length).foldl (fun best i =>
    match queue[i]?, queue[best]? with
    | some candidate, some chosen => if better candidate chosen then i else best
    | _, _ => best) 0

/-- At most one element is dropped, the first of the lowest priority. -/
def purge (priority : Q → ℤ) (maxlength : ℕ) (queue : List Q) : List Q :=
  if maxlength = 0 ∨ queue.length ≤ maxlength then queue
  else queue.eraseIdx (scan (fun candidate chosen => priority candidate < priority chosen) queue)

/-- What `receive` reads and erases once it stops waiting, the first element of the
highest priority; there is none to read in an empty queue. -/
def select (priority : Q → ℤ) (queue : List Q) : Option (Q × List Q) :=
  let r := scan (fun candidate chosen => priority candidate > priority chosen) queue
  queue[r]?.map fun v => (v, queue.eraseIdx r)

def protocol (priority : Q → ℤ) (maxlength : ℕ) : Monitor.Protocol (List Q) Q Q where
  ready := fun queue => queue.length ≠ 0
  put := fun m queue => queue ++ [m]
  trim := purge priority maxlength
  take := select priority

theorem scan_lt (better : Q → Q → Bool) {queue : List Q} (hready : queue.length ≠ 0) :
    scan better queue < queue.length := by
  have hall : ∀ indices : List ℕ, (∀ i ∈ indices, i < queue.length) → ∀ best < queue.length,
      indices.foldl (fun best i =>
        match queue[i]?, queue[best]? with
        | some candidate, some chosen => if better candidate chosen then i else best
        | _, _ => best) best < queue.length := by
    intro indices
    induction indices with
    | nil => exact fun _ best hbest => hbest
    | cons i rest ih =>
        intro hindices best hbest
        rw [List.foldl_cons]
        apply ih (fun j hj => hindices j (List.mem_cons_of_mem i hj))
        split
        · split
          · exact hindices i List.mem_cons_self
          · exact hbest
        · exact hbest
  exact hall _ (fun i => List.mem_range.mp) 0 (Nat.pos_of_ne_zero hready)

theorem select_of_ready (priority : Q → ℤ) {queue : List Q} (hready : queue.length ≠ 0) :
    ∃ v ∈ queue, ∃ r, select priority queue = some (v, queue.eraseIdx r) := by
  have hlt := scan_lt (fun candidate chosen => priority candidate > priority chosen) hready
  simp only [select]
  generalize scan (fun candidate chosen => priority candidate > priority chosen) queue = r at *
  exact ⟨queue[r], List.getElem_mem hlt, r, by rw [List.getElem?_eq_getElem hlt, Option.map_some]⟩

theorem mem_of_mem_purge {priority : Q → ℤ} {maxlength : ℕ} {queue : List Q} {m : Q}
    (hmem : m ∈ purge priority maxlength queue) : m ∈ queue := by
  rw [purge] at hmem
  split at hmem
  · exact hmem
  · exact List.mem_of_mem_eraseIdx hmem

/-- What holds of every message sent holds of every message received. -/
theorem preserves_forall (priority : Q → ℤ) (maxlength : ℕ) (P : Q → Prop) :
    Monitor.State.Preserves (protocol priority maxlength) (fun queue => ∀ m ∈ queue, P m) P P := by
  constructor
  · intro m queue hm hqueue other hother
    rcases List.mem_append.mp hother with hold | hnew
    · exact hqueue other hold
    · rw [List.mem_singleton.mp hnew]
      exact hm
  · intro queue hqueue m hm
    exact hqueue m (mem_of_mem_purge hm)
  · intro queue hqueue hready
    obtain ⟨v, hv, r, hselect⟩ := select_of_ready priority (of_decide_eq_true hready)
    exact ⟨v, _, hselect, hqueue v hv, fun m hm => hqueue m (List.mem_of_mem_eraseIdx hm)⟩

end PriorityQueue

def MMessageQueue.protocol (priority : Q → ℤ) (maxlength : ℕ) : Monitor.Protocol (List Q) Q Q :=
  PriorityQueue.protocol priority maxlength

def MsgQueue.protocol (priority : Q → ℤ) (maxlength : ℕ) : Monitor.Protocol (List Q) Q Q :=
  PriorityQueue.protocol priority maxlength

namespace PriorityQueue

/-- Every thread that is about to read and erase an element finds one. -/
def ReadsNonempty (state : Monitor.State (List Q) Q Q Tid) : Prop :=
  ∀ thread, state.point thread = .taking → state.data ≠ []

/-- A thread that comes back from waiting on the condition finds an element. -/
def WakesNonempty (state : Monitor.State (List Q) Q Q Tid)
    (action : Tid × Monitor.Move Tid Q Q) : Prop :=
  state.Enabled action.1 action.2 → action.2 = .wake → state.data ≠ []

theorem ready_iff (priority : Q → ℤ) (maxlength : ℕ) (queue : List Q) :
    (protocol priority maxlength).ready queue = true ↔ queue ≠ [] := by
  simp [protocol]

variable [DecidableEq Q] [DecidableEq Tid]

theorem readsNonempty_iff_protocol (priority : Q → ℤ) (maxlength : ℕ) (queue : List Q)
    (actions : List (Tid × Monitor.Move Tid Q Q)) :
    Machine.Always (Monitor.State.step (protocol priority maxlength)) ReadsNonempty
        (Monitor.start queue) actions ↔
      Machine.Along (Monitor.State.step (protocol priority maxlength)) WakesNonempty
        (Monitor.start queue) actions := by
  have hreads : (ReadsNonempty : Monitor.State (List Q) Q Q Tid → Prop) =
      Monitor.State.TakesReady (protocol priority maxlength) := by
    funext state
    simp only [ReadsNonempty, Monitor.State.TakesReady, ready_iff]
  have hwakes : (WakesNonempty : Monitor.State (List Q) Q Q Tid → _) =
      Monitor.State.WakesReady (protocol priority maxlength) := by
    funext state action
    simp only [WakesNonempty, Monitor.State.WakesReady, ready_iff]
  rw [hreads, hwakes]
  exact Monitor.State.takesReady_iff_wakesReady queue actions

/-- In any interleaving of any number of threads, neither queue is read while empty
exactly when every thread that comes back from waiting finds an element. -/
theorem readsNonempty_iff (priority : Q → ℤ) (maxlength : ℕ) (queue : List Q)
    (actions : List (Tid × Monitor.Move Tid Q Q)) :
    (Machine.Always (Monitor.State.step (MMessageQueue.protocol priority maxlength)) ReadsNonempty
        (Monitor.start queue) actions ↔
      Machine.Along (Monitor.State.step (MMessageQueue.protocol priority maxlength)) WakesNonempty
        (Monitor.start queue) actions) ∧
    (Machine.Always (Monitor.State.step (MsgQueue.protocol priority maxlength)) ReadsNonempty
        (Monitor.start queue) actions ↔
      Machine.Along (Monitor.State.step (MsgQueue.protocol priority maxlength)) WakesNonempty
        (Monitor.start queue) actions) :=
  ⟨readsNonempty_iff_protocol priority maxlength queue actions,
    readsNonempty_iff_protocol priority maxlength queue actions⟩

/-- Thread 0 waits, thread 1 sends and wakes it, and thread 2 receives the message
before thread 0 has the lock again. -/
def stolenWakeup : List (ℕ × Monitor.Move ℕ ℤ ℤ) :=
  [(0, .request), (0, .test), (1, .enter 5), (1, .put 5), (1, .trim), (1, .notify (some 0)),
    (1, .leave), (2, .request), (2, .test), (2, .take), (2, .finish (some 5)), (0, .wake)]

theorem not_readsNonempty_stolenWakeup :
    ¬Machine.Always (Monitor.State.step (MMessageQueue.protocol id 0)) ReadsNonempty
        (Monitor.start []) stolenWakeup ∧
      ¬Machine.Always (Monitor.State.step (MsgQueue.protocol id 0)) ReadsNonempty
        (Monitor.start []) stolenWakeup := by
  have hfinal : (Machine.exec (Monitor.State.step (protocol id 0)) (Monitor.start [])
      stolenWakeup).map (fun state => (state.point 0, state.data)) = some (.taking, []) := by
    decide +kernel
  obtain ⟨final, hexec, hpoint⟩ := Option.map_eq_some_iff.mp hfinal
  obtain ⟨htaking, hempty⟩ := Prod.mk.inj hpoint
  have hnot : ¬Machine.Always (Monitor.State.step (protocol id 0)) ReadsNonempty
      (Monitor.start []) stolenWakeup := by
    intro hreads
    exact hreads.last hexec 0 htaking hempty
  exact ⟨hnot, hnot⟩

end PriorityQueue

end Hat
