import Hat.Minilibs.RpcWaitTable
import Mathlib

/-!
# Steps of the table of waiting calls

What one step changes in the table, and what all steps keep: the tags follow the numbers
of the registrations, the thread that is inside holds the lock, and the queue of an entry
carries answers to its tag.
-/

namespace Hat

open Function Hat.Hsrv

variable {Tid : Type*}

namespace RpcWaitTable

/-- The tag that the registration of the given number has given out. -/
def tagOf (number : ℕ) : String := "RPC_" ++ int2a (number % 1000001 : ℕ)

theorem int2a_injective : Injective int2a := fun _ _ h => Int.repr_injective h

theorem tagOf_inj {first second : ℕ} (h : tagOf first = tagOf second) :
    first % 1000001 = second % 1000001 := by
  have hdigits : int2a (first % 1000001 : ℕ) = int2a (second % 1000001 : ℕ) := by
    simpa [tagOf] using h
  exact Int.ofNat_inj.mp (int2a_injective hdigits)

/-- The numbers, the tags and the pending entries agree, and no pending entry has seen
more registrations than there are tags. -/
structure Numbered (table : RpcWaitTable Tid) : Prop where
  sequence : table.tagSequence = (table.allocated % 1000001 : ℕ)
  tag : table.tag = tagOf table.allocated
  tags : ∀ p < table.allocated, (table.heap p).tag = tagOf p
  live : ∀ p ∈ table.pending, p < table.allocated
  recent : ∀ p ∈ table.pending, table.allocated - p ≤ 1000001
  nodup : table.pending.Nodup

/-- Fewer than 1000001 registrations happen while an entry is pending. -/
def FewRegistrations (table : RpcWaitTable Tid) (action : Tid × RpcAction Tid) : Prop :=
  action.2.registers = true → ∀ p ∈ table.pending, table.allocated - p < 1000001

theorem numbered_new : Numbered (new : RpcWaitTable Tid) := by
  constructor
  · rfl
  · rfl
  · exact fun p hp => absurd hp (Nat.not_lt_zero p)
  · exact fun p hp => absurd hp List.not_mem_nil
  · exact fun p hp => absurd hp List.not_mem_nil
  · exact List.nodup_nil

theorem nextSequence_mod (number : ℕ) :
    nextSequence (number % 1000001 : ℕ) = ((number + 1) % 1000001 : ℕ) := by
  rw [nextSequence, maxtag]
  split <;> omega

theorem Numbered.register {table : RpcWaitTable Tid} (h : Numbered table)
    (hfew : ∀ p ∈ table.pending, table.allocated - p < 1000001) (now : ℚ) :
    Numbered (table.register now) := by
  have hsequence : nextSequence table.tagSequence = ((table.allocated + 1) % 1000001 : ℕ) := by
    rw [h.sequence, nextSequence_mod]
  have hmem : ∀ p ∈ (table.register now).pending, p ∈ table.pending ∨ p = table.allocated := by
    intro p hp
    rcases List.mem_append.mp hp with hold | hnew
    · exact Or.inl hold
    · exact Or.inr (List.mem_singleton.mp hnew)
  constructor
  · exact hsequence
  · exact congrArg (fun sequence => "RPC_" ++ int2a sequence) hsequence
  · intro p hp
    by_cases hnew : p = table.allocated
    · subst hnew
      simp only [RpcWaitTable.register, update_self]
      exact h.tag
    · simp only [RpcWaitTable.register, update_of_ne hnew]
      exact h.tags p (Nat.lt_of_le_of_ne (Nat.le_of_lt_succ hp) hnew)
  · intro p hp
    rcases hmem p hp with hold | rfl
    · exact Nat.lt_succ_of_lt (h.live p hold)
    · exact Nat.lt_succ_self _
  · intro p hp
    simp only [RpcWaitTable.register]
    rcases hmem p hp with hold | rfl
    · have := hfew p hold
      omega
    · omega
  · simp only [RpcWaitTable.register, ← List.concat_eq_append]
    apply List.Nodup.concat _ h.nodup
    intro hp
    exact Nat.lt_irrefl _ (h.live _ hp)

/-- Numbering looks at nothing that the other steps change, except that pending
entries may be cleared. -/
theorem Numbered.of_sublist {table other : RpcWaitTable Tid} (h : Numbered table)
    (hsequence : other.tagSequence = table.tagSequence) (htag : other.tag = table.tag)
    (hallocated : other.allocated = table.allocated)
    (htags : ∀ p, (other.heap p).tag = (table.heap p).tag)
    (hpending : other.pending.Sublist table.pending) : Numbered other := by
  constructor
  · rw [hsequence, hallocated, h.sequence]
  · rw [htag, hallocated, h.tag]
  · intro p hp
    rw [htags, h.tags p (hallocated ▸ hp)]
  · intro p hp
    rw [hallocated]
    exact h.live p (hpending.subset hp)
  · intro p hp
    rw [hallocated]
    exact h.recent p (hpending.subset hp)
  · exact hpending.nodup h.nodup

theorem Numbered.eq_of_tag {table : RpcWaitTable Tid} (h : Numbered table) {p q : ℕ}
    (hp : p ∈ table.pending) (hq : q ∈ table.pending)
    (htag : (table.heap p).tag = (table.heap q).tag) : p = q := by
  rw [h.tags p (h.live p hp), h.tags q (h.live q hq)] at htag
  have hmod := tagOf_inj htag
  have hlive := And.intro (h.live p hp) (h.live q hq)
  have hrecent := And.intro (h.recent p hp) (h.recent q hq)
  omega

theorem Numbered.nodup_tags {table : RpcWaitTable Tid} (h : Numbered table) :
    (table.pending.map fun p => (table.heap p).tag).Nodup :=
  List.Nodup.map_on (fun _ hp _ hq htag => h.eq_of_tag hp hq htag) h.nodup

variable [DecidableEq Tid]

/-! ## What a step changes -/

@[simp]
theorem heap_goto (table : RpcWaitTable Tid) (thread : Tid) (caller : RpcCaller) :
    (table.goto thread caller).heap = table.heap := rfl

@[simp]
theorem caller_goto_self (table : RpcWaitTable Tid) (thread : Tid) (caller : RpcCaller) :
    (table.goto thread caller).caller thread = caller := update_self _ _ _

theorem caller_goto_of_ne (table : RpcWaitTable Tid) {thread other : Tid} (hne : other ≠ thread)
    (caller : RpcCaller) : (table.goto thread caller).caller other = table.caller other :=
  update_of_ne hne _ _

/-- A thread only changes what it is doing itself. -/
theorem caller_next_of_ne (table : RpcWaitTable Tid) {thread other : Tid} (hne : other ≠ thread)
    (action : RpcAction Tid) : (table.next thread action).caller other = table.caller other := by
  cases action with
  | signal message =>
      simp only [next]
      split <;> exact caller_goto_of_ne _ hne _
  | checkNext ctime i =>
      simp only [next]
      split
      · split <;> exact caller_goto_of_ne _ hne _
      · exact caller_goto_of_ne _ hne _
  | wait tag =>
      simp only [next]
      split <;> exact caller_goto_of_ne _ hne _
  | clearEntry tag entry answer =>
      simp only [next]
      split <;> exact caller_goto_of_ne _ hne _
  | _ => exact caller_goto_of_ne _ hne _

/-- What the thread that takes a step does next, and who then holds the lock of the
table. -/
inductive Turn (table : RpcWaitTable Tid) (thread : Tid) :
    RpcAction Tid → RpcCaller → Option Tid → Prop
  | register {message now} :
      Turn table thread (.callRegister message now)
        (.registered (message.add "tag" table.tag) table.tag) table.mutexLock
  | found {message entry} (hentry : table.getEntry (message.getString "answer_tag") = some entry) :
      Turn table thread (.signal message) (.signalling message entry) (some thread)
  | lost {message} : Turn table thread (.signal message) (.signalled false) table.mutexLock
  | check {ctime} : Turn table thread (.checkTimeOut ctime) (.checking ctime 0) (some thread)
  | complain {ctime i entry} (hentry : entry ∈ table.pending) :
      Turn table thread (.checkNext ctime i)
        (.complaining ctime i (mkComplain (table.heap entry).tag) entry) table.mutexLock
  | skip {ctime i} :
      Turn table thread (.checkNext ctime i) (.checking ctime (i + 1)) table.mutexLock
  | stop {ctime i} : Turn table thread (.checkNext ctime i) .checked none
  | queue {entry move} :
      Turn table thread (.queue entry move) ((table.caller thread).after move)
        (if (table.caller thread).locks && !((table.caller thread).after move).locks then none
          else table.mutexLock)
  | wait {tag entry} (hentry : table.getEntry tag = some entry) :
      Turn table thread (.wait tag) (.receiving tag entry) table.mutexLock
  | missing {tag answer} :
      Turn table thread (.wait tag) (.answered tag false answer) table.mutexLock
  | clear {tag entry answer} (hentry : entry ∈ table.pending) :
      Turn table thread (.clearEntry tag entry answer) (.answered tag true answer)
        table.mutexLock
  | overrun {tag entry answer} (hentry : entry ∉ table.pending) :
      Turn table thread (.clearEntry tag entry answer) .overrun table.mutexLock
  | finish : Turn table thread .finish .idle table.mutexLock

theorem turn_next (table : RpcWaitTable Tid) (thread : Tid) (action : RpcAction Tid) :
    Turn table thread action ((table.next thread action).caller thread)
      (table.next thread action).mutexLock := by
  cases action with
  | signal message =>
      simp only [next]
      split
      · rename_i entry hentry
        rw [caller_goto_self]
        exact .found hentry
      · rw [caller_goto_self]
        exact .lost
  | checkNext ctime i =>
      simp only [next]
      split
      · rename_i entry hentry
        split
        · rw [caller_goto_self]
          exact .complain (List.mem_of_getElem? hentry)
        · rw [caller_goto_self]
          exact .skip
      · rw [caller_goto_self]
        exact .stop
  | wait tag =>
      simp only [next]
      split
      · rename_i entry hentry
        rw [caller_goto_self]
        exact .wait hentry
      · rw [caller_goto_self]
        exact .missing
  | clearEntry tag entry answer =>
      simp only [next, clearEntry]
      by_cases hmem : entry ∈ table.pending
      · rw [if_pos hmem]
        simp only [caller_goto_self]
        exact .clear hmem
      · rw [if_neg hmem]
        simp only [caller_goto_self]
        exact .overrun hmem
  | callRegister message now =>
      simp only [next, caller_goto_self]
      exact .register
  | checkTimeOut ctime =>
      simp only [next, caller_goto_self]
      exact .check
  | queue entry move =>
      simp only [next, caller_goto_self]
      exact .queue
  | finish =>
      simp only [next, caller_goto_self]
      exact .finish

/-- The entries and the numbers are the same. -/
structure SameRegistry (before after : RpcWaitTable Tid) : Prop where
  heap : after.heap = before.heap
  allocated : after.allocated = before.allocated
  pending : after.pending = before.pending
  sequence : after.tagSequence = before.tagSequence
  tag : after.tag = before.tag

/-- Only a registration, a step in a queue and the clearing of a pending entry change the
entries or the numbers. -/
theorem registry_next (table : RpcWaitTable Tid) (thread : Tid) (action : RpcAction Tid) :
    (∃ message now, action = .callRegister message now) ∨
    (∃ entry move, action = .queue entry move) ∨
    (∃ tag entry answer, action = .clearEntry tag entry answer ∧ entry ∈ table.pending) ∨
    SameRegistry table (table.next thread action) := by
  cases action with
  | callRegister message now => exact .inl ⟨message, now, rfl⟩
  | queue entry move => exact .inr (.inl ⟨entry, move, rfl⟩)
  | clearEntry tag entry answer =>
      by_cases hmem : entry ∈ table.pending
      · exact .inr (.inr (.inl ⟨tag, entry, answer, rfl, hmem⟩))
      · simp only [next, clearEntry, if_neg hmem]
        exact .inr (.inr (.inr ⟨rfl, rfl, rfl, rfl, rfl⟩))
  | signal message =>
      simp only [next]
      split <;> exact .inr (.inr (.inr ⟨rfl, rfl, rfl, rfl, rfl⟩))
  | checkNext ctime i =>
      simp only [next]
      split
      · split <;> exact .inr (.inr (.inr ⟨rfl, rfl, rfl, rfl, rfl⟩))
      · exact .inr (.inr (.inr ⟨rfl, rfl, rfl, rfl, rfl⟩))
  | wait tag =>
      simp only [next]
      split <;> exact .inr (.inr (.inr ⟨rfl, rfl, rfl, rfl, rfl⟩))
  | checkTimeOut ctime => exact .inr (.inr (.inr ⟨rfl, rfl, rfl, rfl, rfl⟩))
  | finish => exact .inr (.inr (.inr ⟨rfl, rfl, rfl, rfl, rfl⟩))

/-- The clearing of a pending entry. -/
theorem next_clearEntry (table : RpcWaitTable Tid) (thread : Tid) (tag : String) {entry : ℕ}
    (answer : Option MMessage) (hmem : entry ∈ table.pending) :
    table.next thread (.clearEntry tag entry answer) =
      { table with pending := table.pending.erase entry }.goto thread
        (.answered tag true answer) := by
  simp only [next, clearEntry, if_pos hmem]

/-- An entry changes when it is registered and by the steps in its queue. -/
theorem heap_next (table : RpcWaitTable Tid) (thread : Tid) (action : RpcAction Tid) (p : ℕ) :
    (table.next thread action).heap p = table.heap p ∨
    (p = table.allocated ∧ ∃ now,
      (table.next thread action).heap p = ⟨table.tag, Monitor.start [], now⟩) ∨
    (∃ move, action = .queue p move ∧ (table.next thread action).heap p =
      { table.heap p with
        waitingQueue := (table.heap p).waitingQueue.next protocol thread move }) := by
  rcases registry_next table thread action with
    ⟨message, now, rfl⟩ | ⟨entry, move, rfl⟩ | ⟨tag, entry, answer, rfl, hmem⟩ | hsame
  · by_cases hp : p = table.allocated
    · subst hp
      exact .inr (.inl ⟨rfl, now, update_self _ _ _⟩)
    · exact .inl (update_of_ne hp _ _)
  · by_cases hp : p = entry
    · subst hp
      exact .inr (.inr ⟨move, rfl, update_self _ _ _⟩)
    · exact .inl (update_of_ne hp _ _)
  · rw [next_clearEntry table thread tag answer hmem]
    exact .inl rfl
  · rw [hsame.heap]
    exact .inl rfl

/-- The pending entries change when an entry is registered and when it is cleared. -/
theorem pending_next (table : RpcWaitTable Tid) (thread : Tid) (action : RpcAction Tid) :
    (table.next thread action).pending = table.pending ∨
    (∃ message now, action = .callRegister message now ∧
      (table.next thread action).pending = table.pending ++ [table.allocated]) ∨
    (∃ tag entry answer, action = .clearEntry tag entry answer ∧
      (table.next thread action).pending = table.pending.erase entry) := by
  rcases registry_next table thread action with
    ⟨message, now, rfl⟩ | ⟨entry, move, rfl⟩ | ⟨tag, entry, answer, rfl, hmem⟩ | hsame
  · exact .inr (.inl ⟨message, now, rfl, rfl⟩)
  · exact .inl rfl
  · rw [next_clearEntry table thread tag answer hmem]
    exact .inr (.inr ⟨tag, entry, answer, rfl, rfl⟩)
  · exact .inl hsame.pending

theorem allocated_le_next (table : RpcWaitTable Tid) (thread : Tid) (action : RpcAction Tid) :
    table.allocated ≤ (table.next thread action).allocated := by
  rcases registry_next table thread action with
    ⟨message, now, rfl⟩ | ⟨entry, move, rfl⟩ | ⟨tag, entry, answer, rfl, hmem⟩ | hsame
  · exact Nat.le_succ table.allocated
  · exact le_refl table.allocated
  · rw [next_clearEntry table thread tag answer hmem]
    exact le_refl table.allocated
  · exact hsame.allocated.ge

theorem numbered_next {table : RpcWaitTable Tid} (h : Numbered table) {thread : Tid}
    {action : RpcAction Tid} (hfew : FewRegistrations table (thread, action)) :
    Numbered (table.next thread action) := by
  rcases registry_next table thread action with
    ⟨message, now, rfl⟩ | ⟨entry, move, rfl⟩ | ⟨tag, entry, answer, rfl, hmem⟩ | hsame
  · have hregistered := h.register (hfew rfl) now
    exact hregistered.of_sublist rfl rfl rfl (fun _ => rfl) (List.Sublist.refl _)
  · refine h.of_sublist rfl rfl rfl (fun p => ?_) (List.Sublist.refl _)
    by_cases hp : p = entry
    · subst hp
      simp [next]
    · simp [next, update_of_ne hp]
  · rw [next_clearEntry table thread tag answer hmem]
    exact h.of_sublist rfl rfl rfl (fun _ => rfl) List.erase_sublist
  · apply h.of_sublist hsame.sequence hsame.tag hsame.allocated
    · intro p
      rw [hsame.heap]
    · rw [hsame.pending]

def Locked (table : RpcWaitTable Tid) : Prop :=
  ∀ thread, (table.caller thread).locks = true ↔ table.mutexLock = some thread

omit [DecidableEq Tid] in
theorem locks_of_after {caller : RpcCaller} {move : Monitor.Move Tid MMessage MMessage}
    (h : (caller.after move).locks = true) : caller.locks = true := by
  cases move with
  | leave => cases caller <;> first | rfl | exact absurd h Bool.false_ne_true
  | finish answer => cases caller <;> first | rfl | exact absurd h Bool.false_ne_true
  | _ => exact h

omit [DecidableEq Tid] in
theorem lock_of_turn {table : RpcWaitTable Tid} (h : Locked table) {thread : Tid}
    {action : RpcAction Tid} (henabled : table.Enabled thread action) {result : RpcCaller}
    {lock : Option Tid} (hturn : Turn table thread action result lock) :
    (lock = (if result.locks then some thread else none) ∧
      (table.mutexLock = none ∨ table.mutexLock = some thread)) ∨
    (lock = table.mutexLock ∧ result.locks = (table.caller thread).locks) := by
  cases hturn with
  | found hentry => exact Or.inl ⟨rfl, Or.inl henabled.2⟩
  | check => exact Or.inl ⟨rfl, Or.inl henabled.2⟩
  | stop =>
      have howner := (h thread).mp (congrArg RpcCaller.locks henabled)
      exact Or.inl ⟨rfl, Or.inr howner⟩
  | register => exact Or.inr ⟨rfl, (congrArg RpcCaller.locks henabled.1).symm⟩
  | lost => exact Or.inr ⟨rfl, (congrArg RpcCaller.locks henabled.1).symm⟩
  | complain hentry => exact Or.inr ⟨rfl, (congrArg RpcCaller.locks henabled).symm⟩
  | skip => exact Or.inr ⟨rfl, (congrArg RpcCaller.locks henabled).symm⟩
  | wait hentry => exact Or.inr ⟨rfl, (congrArg RpcCaller.locks henabled.1).symm⟩
  | missing => exact Or.inr ⟨rfl, (congrArg RpcCaller.locks henabled.1).symm⟩
  | clear hentry => exact Or.inr ⟨rfl, (congrArg RpcCaller.locks henabled.1).symm⟩
  | overrun hentry => exact Or.inr ⟨rfl, (congrArg RpcCaller.locks henabled.1).symm⟩
  | finish =>
      have hdone : (table.caller thread).isDone = true := henabled
      refine Or.inr ⟨rfl, ?_⟩
      cases hcaller : table.caller thread <;> rw [hcaller] at hdone <;>
        first | rfl | exact absurd hdone Bool.false_ne_true
  | @queue entry move =>
      cases hlocks : (table.caller thread).locks with
      | false =>
          cases hafter : ((table.caller thread).after move).locks with
          | false => exact Or.inr ⟨rfl, rfl⟩
          | true => exact absurd (hlocks.symm.trans (locks_of_after hafter)) (by decide)
      | true =>
          cases hafter : ((table.caller thread).after move).locks with
          | false => exact Or.inl ⟨rfl, Or.inr ((h thread).mp hlocks)⟩
          | true => exact Or.inr ⟨rfl, rfl⟩

theorem locked_next {table : RpcWaitTable Tid} (h : Locked table) {thread : Tid}
    {action : RpcAction Tid} (henabled : table.Enabled thread action) :
    Locked (table.next thread action) := by
  intro other
  rcases lock_of_turn h henabled (turn_next table thread action) with
    ⟨hlock, howner⟩ | ⟨hlock, hlocks⟩
  · rw [hlock]
    by_cases hother : other = thread
    · rw [hother]
      split <;> simp_all
    · rw [caller_next_of_ne table hother, h other]
      constructor
      · intro hsome
        rcases howner with hnone | hthread
        · exact absurd (hsome.symm.trans hnone) (Option.some_ne_none other)
        · exact absurd (Option.some.inj (hsome.symm.trans hthread)) hother
      · intro hsome
        split at hsome
        · exact absurd (Option.some.inj hsome).symm hother
        · exact absurd hsome.symm (Option.some_ne_none other)
  · rw [hlock]
    by_cases hother : other = thread
    · rw [hother, hlocks]
      exact h thread
    · rw [caller_next_of_ne table hother]
      exact h other

/-- The message answers the call with the tag. -/
def Bears (tag : String) (message : MMessage) : Prop := message.getString "answer_tag" = tag

structure QueueSound (entry : RpcEntry Tid) : Prop where
  exclusive : entry.waitingQueue.Exclusive
  takesReady : Monitor.State.TakesReady protocol entry.waitingQueue
  carries : Monitor.State.Carries (fun queue => ∀ message ∈ queue, Bears entry.tag message)
    (Bears entry.tag) (Bears entry.tag) entry.waitingQueue

omit [DecidableEq Tid] in
theorem queueSound_start (tag : String) (now : ℚ) :
    QueueSound (⟨tag, Monitor.start [], now⟩ : RpcEntry Tid) := by
  constructor
  · exact Monitor.State.exclusive_start []
  · exact Monitor.State.takesReady_start []
  · exact Monitor.State.carries_start fun message hmem => absurd hmem List.not_mem_nil

theorem queueSound_next {entry : RpcEntry Tid} (h : QueueSound entry) {thread : Tid}
    {move : Monitor.Move Tid MMessage MMessage}
    (henabled : entry.waitingQueue.Enabled thread move)
    (hentered : ∀ message, move = .enter message → Bears entry.tag message)
    (hwake : move = .wake → entry.waitingQueue.data ≠ []) :
    QueueSound { entry with
      waitingQueue := entry.waitingQueue.next protocol thread move } := by
  constructor
  · exact Monitor.State.exclusive_next h.exclusive henabled
  · apply (Monitor.State.takesReady_next_iff h.exclusive h.takesReady henabled).mpr
    intro hmove
    exact (PriorityQueue.ready_iff MMessage.priority 0 _).mpr (hwake hmove)
  · exact Monitor.State.carries_next (PriorityQueue.preserves_forall MMessage.priority 0 _)
      h.carries h.takesReady henabled hentered

end RpcWaitTable

end Hat
