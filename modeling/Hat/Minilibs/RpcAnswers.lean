import Hat.Minilibs.RpcTurns

/-!
# Every waiting call gets its own answer

In every interleaving of the operations the pending tags differ, a message goes to the entry
that it answers, a call gets an answer to its own tag and no search runs over the end of the
pending entries, as long as a thread that comes back from waiting finds a message and every
entry answers at most one waiting thread.
-/

namespace Hat

open Function Hat.Hsrv

variable {Tid : Type*}

namespace RpcWaitTable

variable [DecidableEq Tid]

/-- The thread is inside `send` or `receive` on the queue of the entry. -/
def At (caller : RpcCaller) (entry : ℕ) : Prop :=
  caller.sends.map Prod.snd = some entry ∨ caller.receives = some entry

theorem At.unique {caller : RpcCaller} {first second : ℕ} (hfirst : At caller first)
    (hsecond : At caller second) : first = second := by
  cases caller <;> simp_all [At, RpcCaller.sends, RpcCaller.receives]

omit [DecidableEq Tid] in
theorem at_of_uses {caller : RpcCaller} {entry : ℕ}
    {move : Monitor.Move Tid MMessage MMessage} (h : caller.Uses entry move) :
    At caller entry := by
  cases move with
  | enter message => exact Or.inl (congrArg (Option.map Prod.snd) h)
  | put message => exact Or.inl h
  | trim => exact Or.inl h
  | notify woken => exact Or.inl h
  | leave => exact Or.inl h
  | _ => exact Or.inr h

omit [DecidableEq Tid] in
/-- A thread that takes a step outside the queues is inside none of them. -/
theorem not_at_of_enabled {table : RpcWaitTable Tid} {thread : Tid} {action : RpcAction Tid}
    (henabled : table.Enabled thread action) (hqueue : ∀ entry move, action ≠ .queue entry move)
    (entry : ℕ) : ¬At (table.caller thread) entry := by
  have hnone : (table.caller thread).sends = none ∧ (table.caller thread).receives = none := by
    cases action with
    | queue entry move => exact absurd rfl (hqueue entry move)
    | checkNext ctime i =>
        rw [show table.caller thread = _ from henabled]
        exact ⟨rfl, rfl⟩
    | finish =>
        have hdone : (table.caller thread).isDone = true := henabled
        cases hcaller : table.caller thread <;> rw [hcaller] at hdone <;>
          first | exact ⟨rfl, rfl⟩ | exact absurd hdone Bool.false_ne_true
    | _ =>
        rw [henabled.1]
        exact ⟨rfl, rfl⟩
  rintro (hsends | hreceives)
  · rw [hnone.1] at hsends
    exact absurd hsends.symm (Option.some_ne_none entry)
  · rw [hnone.2] at hreceives
    exact absurd hreceives.symm (Option.some_ne_none entry)

omit [DecidableEq Tid] in
/-- Inside a queue a thread stays where it is until it leaves the queue. -/
theorem at_after {caller : RpcCaller} {move : Monitor.Move Tid MMessage MMessage}
    (hleave : move ≠ .leave) (hfinish : ∀ answer, move ≠ .finish answer) :
    caller.after move = caller := by
  cases move with
  | leave => exact absurd rfl hleave
  | finish answer => exact absurd rfl (hfinish answer)
  | _ => rfl

/-- The thread has received a message of the entry, and has not cleared the entry yet. -/
def Served (table : RpcWaitTable Tid) (entry : ℕ) (thread : Tid) : Prop :=
  (table.caller thread).clears = some entry ∨
    ((table.heap entry).waitingQueue.point thread).isReturning = true

theorem clears_iff {caller : RpcCaller} {entry : ℕ} :
    caller.clears = some entry ↔ ∃ tag answer, caller = .clearing tag entry answer := by
  cases caller <;> simp [RpcCaller.clears, eq_comm]

omit [DecidableEq Tid] in
theorem served_iff {table : RpcWaitTable Tid} {entry : ℕ} {thread : Tid} :
    table.Served entry thread ↔
      (∃ tag answer, table.caller thread = .clearing tag entry answer) ∨
        ∃ answer, (table.heap entry).waitingQueue.point thread = .returning answer := by
  rw [Served, clears_iff, Monitor.Point.isReturning_iff]

/-- A thread that comes back from waiting finds a message, and a thread that takes a
message from an entry is the first one to do so. -/
def AnsweredOnce (table : RpcWaitTable Tid) (action : Tid × RpcAction Tid) : Prop :=
  table.Enabled action.1 action.2 →
    (∀ entry ∈ action.2.wakesIn, (table.heap entry).waitingQueue.data ≠ []) ∧
    (∀ entry ∈ action.2.takesFrom, entry ∈ table.pending ∧ ∀ other, ¬table.Served entry other)

def IsAnswer (tag : String) (answer : Option MMessage) : Prop :=
  ∃ message, answer = some message ∧ Bears tag message

structure Consistent (table : RpcWaitTable Tid) : Prop where
  numbered : Numbered table
  locked : Locked table
  queues : ∀ p, QueueSound (table.heap p)
  sends : ∀ thread message p, (table.caller thread).sends = some (message, p) →
    p ∈ table.pending ∧ Bears (table.heap p).tag message
  receives : ∀ thread tag p, table.caller thread = .receiving tag p →
    p < table.allocated ∧ (table.heap p).tag = tag
  clears : ∀ thread tag p answer, table.caller thread = .clearing tag p answer →
    IsAnswer tag answer
  answers : ∀ thread tag answer, table.caller thread = .answered tag true answer →
    IsAnswer tag answer
  inBounds : ∀ thread, table.caller thread ≠ .overrun
  placed : ∀ p thread, (table.heap p).waitingQueue.point thread ≠ .outside →
    At (table.caller thread) p
  served : ∀ p thread, table.Served p thread →
    p ∈ table.pending ∧ ∀ other, table.Served p other → other = thread

omit [DecidableEq Tid] in
theorem consistent_new : Consistent (new : RpcWaitTable Tid) where
  numbered := numbered_new
  locked := fun thread => iff_of_false Bool.false_ne_true (Option.some_ne_none thread).symm
  queues := fun _ => queueSound_start "" 0
  sends := fun _ _ _ h => absurd h.symm (Option.some_ne_none _)
  receives := by rintro thread tag p ⟨⟩
  clears := by rintro thread tag p answer ⟨⟩
  answers := by rintro thread tag answer ⟨⟩
  inBounds := by rintro thread ⟨⟩
  placed := fun _ _ h => absurd rfl h
  served := fun p thread hserved => hserved.elim
    (fun hclears => absurd hclears.symm (Option.some_ne_none p))
    fun hreturning => absurd hreturning Bool.false_ne_true

omit [DecidableEq Tid] in
theorem getEntry_spec {table : RpcWaitTable Tid} {tag : String} {p : ℕ}
    (h : table.getEntry tag = some p) : p ∈ table.pending ∧ (table.heap p).tag = tag := by
  have hfound := List.find?_some (p := fun entry => decide ((table.heap entry).tag = tag)) h
  exact ⟨List.mem_of_find?_eq_some h, of_decide_eq_true hfound⟩

theorem bears_mkComplain (tag : String) : Bears tag (mkComplain tag) := by
  rw [Bears, mkComplain, MMessage.getString_add_of_ne _ _ (by decide)]
  exact MMessage.getString_add_self _ _ _ fun items => by rintro ⟨⟩

theorem tag_next {table : RpcWaitTable Tid} (thread : Tid) (action : RpcAction Tid) {p : ℕ}
    (hp : p < table.allocated) :
    ((table.next thread action).heap p).tag = (table.heap p).tag := by
  rcases heap_next table thread action p with hsame | ⟨rfl, _⟩ | ⟨move, _, hmove⟩
  · rw [hsame]
  · exact absurd hp (Nat.lt_irrefl _)
  · rw [hmove]

theorem mem_pending_next {table : RpcWaitTable Tid} {thread : Tid} {action : RpcAction Tid}
    {p : ℕ} (hp : p ∈ table.pending)
    (hkept : ∀ tag answer, action ≠ .clearEntry tag p answer) :
    p ∈ (table.next thread action).pending := by
  rcases pending_next table thread action with
    hsame | ⟨message, now, _, hpending⟩ | ⟨tag, entry, answer, haction, hpending⟩
  · rw [hsame]
    exact hp
  · rw [hpending]
    exact List.mem_append_left _ hp
  · rw [hpending]
    refine (List.mem_erase_of_ne ?_).mpr hp
    rintro rfl
    exact hkept tag answer haction

/-! ## One step -/

theorem locks_of_sends {caller : RpcCaller} {message : MMessage} {p : ℕ}
    (h : caller.sends = some (message, p)) : caller.locks = true := by
  cases caller <;> first | rfl | exact absurd h.symm (Option.some_ne_none _)

omit [DecidableEq Tid] in
theorem after_cases (caller : RpcCaller) (move : Monitor.Move Tid MMessage MMessage) :
    caller.after move = caller ∨
    (move = .leave ∧ (caller.after move = .signalled true ∨
      ∃ ctime i, caller.after move = .checking ctime i)) ∨
    ∃ tag p answer, move = .finish answer ∧ caller = .receiving tag p ∧
      caller.after move = .clearing tag p answer := by
  cases move with
  | leave =>
      refine Or.inr (Or.inl ⟨rfl, ?_⟩)
      cases caller <;> first | exact Or.inl rfl | exact Or.inr ⟨_, _, rfl⟩
  | finish answer =>
      cases caller <;> first | exact Or.inl rfl | exact Or.inr (Or.inr ⟨_, _, _, rfl, rfl, rfl⟩)
  | _ => exact Or.inl rfl

/-- A thread goes on doing what it did, or leaves a queue with or without a message, or takes
its turn outside the queues. -/
theorem caller_next_cases {table : RpcWaitTable Tid} {thread other : Tid}
    {action : RpcAction Tid} {result : RpcCaller}
    (h : (table.next thread action).caller other = result) :
    table.caller other = result ∨
    other = thread ∧
      ((result = .signalled true ∨ ∃ ctime i, result = .checking ctime i) ∨
      (∃ entry tag p answer, action = .queue entry (.finish answer) ∧
        table.caller other = .receiving tag p ∧ result = .clearing tag p answer) ∨
      ∃ caller lock, caller = result ∧ (∀ entry move, action ≠ .queue entry move) ∧
        Turn table other action caller lock) := by
  by_cases hother : other = thread
  · subst hother
    by_cases hqueue : ∃ entry move, action = .queue entry move
    · obtain ⟨entry, move, rfl⟩ := hqueue
      have hcaller : (table.next other (.queue entry move)).caller other =
          (table.caller other).after move := caller_goto_self _ _ _
      rcases after_cases (table.caller other) move with
        hsame | ⟨_, hafter⟩ | ⟨tag, p, answer, rfl, hreceiving, hafter⟩
      · exact .inl (hsame.symm.trans (hcaller.symm.trans h))
      · rw [← hcaller, h] at hafter
        exact .inr ⟨rfl, .inl hafter⟩
      · rw [← hcaller, h] at hafter
        exact .inr ⟨rfl, .inr (.inl ⟨entry, tag, p, answer, rfl, hreceiving, hafter⟩)⟩
    · have hnone : ∀ entry move, action ≠ .queue entry move := fun entry move haction =>
        hqueue ⟨entry, move, haction⟩
      exact .inr ⟨rfl, .inr (.inr ⟨_, _, h, hnone, turn_next table other action⟩)⟩
  · rw [caller_next_of_ne table hother] at h
    exact .inl h

/-- What leads to a result that is not how a thread leaves a queue. -/
theorem turn_of_result {table : RpcWaitTable Tid} {thread other : Tid} {action : RpcAction Tid}
    {result : RpcCaller} (h : (table.next thread action).caller other = result)
    (hshape : result ≠ .signalled true ∧ (∀ ctime i, result ≠ .checking ctime i) ∧
      ∀ tag p answer, result ≠ .clearing tag p answer) :
    table.caller other = result ∨
    other = thread ∧ ∃ caller lock, caller = result ∧ (∀ entry move, action ≠ .queue entry move) ∧
      Turn table other action caller lock := by
  rcases caller_next_cases h with
    hbefore | ⟨hother, (hleft | ⟨ctime, i, hleft⟩) | ⟨_, tag, p, answer, _, _, hleft⟩ | hturn⟩
  · exact .inl hbefore
  · exact absurd hleft hshape.1
  · exact absurd hleft (hshape.2.1 ctime i)
  · exact absurd hleft (hshape.2.2 tag p answer)
  · exact .inr ⟨hother, hturn⟩

theorem Consistent.sends_next {table : RpcWaitTable Tid} (h : Consistent table) {thread : Tid}
    {action : RpcAction Tid} (henabled : table.Enabled thread action) (other : Tid)
    (message : MMessage) (p : ℕ)
    (hsends : ((table.next thread action).caller other).sends = some (message, p)) :
    p ∈ (table.next thread action).pending ∧
      Bears ((table.next thread action).heap p).tag message := by
  have hkept : p ∈ table.pending ∧ Bears (table.heap p).tag message ∧
      ∀ tag answer, action ≠ .clearEntry tag p answer := by
    generalize hresult : (table.next thread action).caller other = result at hsends
    rcases caller_next_cases hresult with
      hbefore | ⟨rfl, (rfl | ⟨_, _, rfl⟩) | ⟨_, _, _, _, _, _, rfl⟩ | ⟨_, _, rfl, hqueue, hturn⟩⟩
    · rw [← hbefore] at hsends
      obtain ⟨hmem, hbears⟩ := h.sends other message p hsends
      refine ⟨hmem, hbears, ?_⟩
      rintro tag answer rfl
      have howner := (h.locked other).mp (locks_of_sends hsends)
      exact Option.some_ne_none other (howner.symm.trans henabled.2)
    · exact absurd hsends.symm (Option.some_ne_none _)
    · exact absurd hsends.symm (Option.some_ne_none _)
    · exact absurd hsends.symm (Option.some_ne_none _)
    · cases hturn with
      | queue => exact absurd rfl (hqueue _ _)
      | found hentry =>
          obtain ⟨rfl, rfl⟩ := Prod.mk.inj (Option.some.inj hsends)
          obtain ⟨hmem, htag⟩ := getEntry_spec hentry
          exact ⟨hmem, htag.symm, fun _ _ => by rintro ⟨⟩⟩
      | complain hentry =>
          obtain ⟨rfl, rfl⟩ := Prod.mk.inj (Option.some.inj hsends)
          exact ⟨hentry, bears_mkComplain _, fun _ _ => by rintro ⟨⟩⟩
      | _ => exact absurd hsends.symm (Option.some_ne_none _)
  obtain ⟨hmem, hbears, haction⟩ := hkept
  rw [tag_next thread action (h.numbered.live p hmem)]
  exact ⟨mem_pending_next hmem haction, hbears⟩

theorem Consistent.receives_next {table : RpcWaitTable Tid} (h : Consistent table) (thread : Tid)
    (action : RpcAction Tid) (other : Tid) (tag : String) (p : ℕ)
    (hreceives : (table.next thread action).caller other = .receiving tag p) :
    p < (table.next thread action).allocated ∧
      ((table.next thread action).heap p).tag = tag := by
  have hbefore : p < table.allocated ∧ (table.heap p).tag = tag := by
    rcases turn_of_result hreceives (by simp) with
      hbefore | ⟨rfl, _, _, hresult, hqueue, hturn⟩
    · exact h.receives other tag p hbefore
    · cases hturn with
      | queue => exact absurd rfl (hqueue _ _)
      | wait hentry =>
          obtain ⟨rfl, rfl⟩ := RpcCaller.receiving.inj hresult
          obtain ⟨hmem, htag⟩ := getEntry_spec hentry
          exact ⟨h.numbered.live _ hmem, htag⟩
      | _ => exact absurd hresult (by rintro ⟨⟩)
  rw [tag_next thread action hbefore.1]
  exact ⟨Nat.lt_of_lt_of_le hbefore.1 (allocated_le_next table thread action), hbefore.2⟩

theorem Consistent.queues_next {table : RpcWaitTable Tid} (h : Consistent table) {thread : Tid}
    {action : RpcAction Tid} (henabled : table.Enabled thread action)
    (honce : AnsweredOnce table (thread, action)) (p : ℕ) :
    QueueSound ((table.next thread action).heap p) := by
  rcases heap_next table thread action p with hsame | ⟨_, now, hnew⟩ | ⟨move, rfl, hmove⟩
  · rw [hsame]
    exact h.queues p
  · rw [hnew]
    exact queueSound_start table.tag now
  · rw [hmove]
    apply queueSound_next (h.queues p) henabled.2
    · rintro message rfl
      exact (h.sends thread message p henabled.1).2
    · rintro rfl
      exact (honce henabled).1 p rfl

/-- A thread gets to clearing by the last step of its receiving. -/
theorem clearing_next {table : RpcWaitTable Tid} {thread other : Tid}
    {action : RpcAction Tid} (henabled : table.Enabled thread action) {tag : String} {p : ℕ}
    {answer : Option MMessage}
    (hclearing : (table.next thread action).caller other = .clearing tag p answer) :
    table.caller other = .clearing tag p answer ∨
      (table.caller other = .receiving tag p ∧
        (table.heap p).waitingQueue.point other = .returning answer) := by
  rcases caller_next_cases hclearing with
    hbefore | ⟨rfl, (hleft | ⟨_, _, hleft⟩) | ⟨entry, _, _, _, rfl, hcaller, hresult⟩ |
      ⟨_, _, hresult, hqueue, hturn⟩⟩
  · exact .inl hbefore
  · exact absurd hleft (by rintro ⟨⟩)
  · exact absurd hleft (by rintro ⟨⟩)
  · obtain ⟨rfl, rfl, rfl⟩ := RpcCaller.clearing.inj hresult
    have hentry : entry = p := by
      have huses : (table.caller other).receives = some entry := henabled.1
      rw [hcaller] at huses
      exact (Option.some.inj huses).symm
    rw [hentry] at henabled
    exact .inr ⟨hcaller, henabled.2⟩
  · cases hturn with
    | queue => exact absurd rfl (hqueue _ _)
    | _ => exact absurd hresult (by rintro ⟨⟩)

theorem Consistent.clears_next {table : RpcWaitTable Tid} (h : Consistent table) {thread : Tid}
    {action : RpcAction Tid} (henabled : table.Enabled thread action) (other : Tid)
    (tag : String) (p : ℕ) (answer : Option MMessage)
    (hclearing : (table.next thread action).caller other = .clearing tag p answer) :
    IsAnswer tag answer := by
  rcases clearing_next henabled hclearing with hbefore | ⟨hcaller, hpoint⟩
  · exact h.clears other tag p answer hbefore
  · obtain ⟨message, hanswer, hbears⟩ := (h.queues p).carries.results other answer hpoint
    rw [(h.receives other tag p hcaller).2] at hbears
    exact ⟨message, hanswer, hbears⟩

theorem Consistent.answers_next {table : RpcWaitTable Tid} (h : Consistent table) {thread : Tid}
    {action : RpcAction Tid} (henabled : table.Enabled thread action) (other : Tid)
    (tag : String) (answer : Option MMessage)
    (hanswered : (table.next thread action).caller other = .answered tag true answer) :
    IsAnswer tag answer := by
  rcases turn_of_result hanswered (by simp) with
    hbefore | ⟨rfl, _, _, hresult, hqueue, hturn⟩
  · exact h.answers other tag answer hbefore
  · cases hturn with
    | queue => exact absurd rfl (hqueue _ _)
    | clear hentry =>
        obtain ⟨rfl, -, rfl⟩ := RpcCaller.answered.inj hresult
        exact h.clears other _ _ _ henabled.1
    | missing => exact absurd (RpcCaller.answered.inj hresult).2.1 Bool.false_ne_true
    | _ => exact absurd hresult (by rintro ⟨⟩)

theorem Consistent.inBounds_next {table : RpcWaitTable Tid} (h : Consistent table)
    {thread : Tid} {action : RpcAction Tid} (henabled : table.Enabled thread action)
    (other : Tid) : (table.next thread action).caller other ≠ .overrun := by
  intro hoverrun
  rcases turn_of_result hoverrun (by simp) with
    hbefore | ⟨rfl, _, _, hresult, hqueue, hturn⟩
  · exact h.inBounds other hbefore
  · cases hturn with
    | queue => exact absurd rfl (hqueue _ _)
    | overrun hentry =>
        exact hentry (h.served _ other (served_iff.mpr (.inl ⟨_, _, henabled.1⟩))).1
    | _ => exact absurd hresult (by rintro ⟨⟩)

/-- The last step of a call on a queue leaves the queue. -/
theorem point_next_outside {entry : RpcEntry Tid} {thread : Tid}
    {move : Monitor.Move Tid MMessage MMessage}
    (hlast : move = .leave ∨ ∃ answer, move = .finish answer) :
    (entry.waitingQueue.next protocol thread move).point thread = .outside := by
  rcases hlast with rfl | ⟨answer, rfl⟩ <;> exact update_self _ _ _

theorem Consistent.placed_next {table : RpcWaitTable Tid} (h : Consistent table) {thread : Tid}
    {action : RpcAction Tid} (henabled : table.Enabled thread action) (p : ℕ) (other : Tid)
    (hpoint : ((table.next thread action).heap p).waitingQueue.point other ≠ .outside) :
    At ((table.next thread action).caller other) p := by
  by_cases hother : other = thread
  · subst hother
    by_cases hqueue : ∃ entry move, action = .queue entry move
    · obtain ⟨entry, move, rfl⟩ := hqueue
      have hat := at_of_uses henabled.1
      have hentry : p = entry := by
        by_contra hne
        have hsame : (table.next other (.queue entry move)).heap p = table.heap p :=
          update_of_ne hne _ _
        rw [hsame] at hpoint
        exact hne ((h.placed p other hpoint).unique hat)
      subst hentry
      have hmoved : ((table.next other (.queue p move)).heap p).waitingQueue =
          (table.heap p).waitingQueue.next protocol other move := by
        simp only [next, heap_goto, update_self]
      rw [hmoved] at hpoint
      have hafter : (table.caller other).after move = table.caller other := by
        apply at_after
        · rintro rfl
          exact hpoint (point_next_outside (Or.inl rfl))
        · rintro answer rfl
          exact hpoint (point_next_outside (Or.inr ⟨answer, rfl⟩))
      have hcaller : (table.next other (.queue p move)).caller other = table.caller other := by
        rw [← hafter]
        exact caller_goto_self _ _ _
      rw [hcaller]
      exact hat
    · have hnone : ∀ entry move, action ≠ .queue entry move := fun entry move haction =>
        hqueue ⟨entry, move, haction⟩
      rcases heap_next table other action p with hsame | ⟨_, now, hnew⟩ | ⟨move, hmove, _⟩
      · rw [hsame] at hpoint
        exact absurd (h.placed p other hpoint) (not_at_of_enabled henabled hnone p)
      · rw [hnew] at hpoint
        exact absurd rfl hpoint
      · exact absurd hmove (hnone p move)
  · rw [caller_next_of_ne table hother]
    apply h.placed
    rcases heap_next table thread action p with hsame | ⟨_, now, hnew⟩ | ⟨move, _, hmove⟩
    · rwa [hsame] at hpoint
    · rw [hnew] at hpoint
      exact absurd rfl hpoint
    · rw [hmove] at hpoint
      rwa [Monitor.State.point_next_of_ne _ hother] at hpoint

/-- A thread is served by the step that takes a message. -/
theorem served_next {table : RpcWaitTable Tid} {thread other : Tid} {action : RpcAction Tid}
    (henabled : table.Enabled thread action) {p : ℕ}
    (hserved : (table.next thread action).Served p other) :
    table.Served p other ∨ (action = .queue p .take ∧ other = thread) := by
  rw [served_iff] at hserved ⊢
  rcases hserved with ⟨tag, answer, hclearing⟩ | ⟨answer, hreturning⟩
  · rcases clearing_next henabled hclearing with hbefore | ⟨_, hpoint⟩
    · exact Or.inl (Or.inl ⟨tag, answer, hbefore⟩)
    · exact Or.inl (Or.inr ⟨answer, hpoint⟩)
  · rcases heap_next table thread action p with hsame | ⟨_, now, hnew⟩ | ⟨move, rfl, hmove⟩
    · rw [hsame] at hreturning
      exact Or.inl (Or.inr ⟨answer, hreturning⟩)
    · rw [hnew] at hreturning
      exact absurd hreturning (by rintro ⟨⟩)
    · rw [hmove] at hreturning
      by_cases hother : other = thread
      · subst hother
        obtain ⟨rfl, -⟩ := Monitor.State.returning_next henabled.2 hreturning
        exact Or.inr ⟨rfl, rfl⟩
      · rw [Monitor.State.point_next_of_ne _ hother] at hreturning
        exact Or.inl (Or.inr ⟨answer, hreturning⟩)

/-- A thread that has cleared the entry is no longer served. -/
theorem Consistent.not_served_clear {table : RpcWaitTable Tid} (h : Consistent table)
    {thread : Tid} {tag : String} {p : ℕ} {answer : Option MMessage}
    (henabled : table.Enabled thread (.clearEntry tag p answer)) :
    ¬(table.next thread (.clearEntry tag p answer)).Served p thread := by
  rw [served_iff]
  rintro (⟨tag', answer', hclearing⟩ | ⟨answer', hreturning⟩)
  · have hturn := turn_next table thread (.clearEntry tag p answer)
    rw [hclearing] at hturn
    generalize (table.next thread (.clearEntry tag p answer)).mutexLock = lock at hturn
    cases hturn
  · have hsame : (table.next thread (.clearEntry tag p answer)).heap p = table.heap p := by
      simp only [next]
      split <;> rfl
    rw [hsame] at hreturning
    have hat := h.placed p thread (by rw [hreturning]; rintro ⟨⟩)
    rw [henabled.1] at hat
    rcases hat with hat | hat <;> exact absurd hat.symm (Option.some_ne_none p)

theorem Consistent.served_unique_next {table : RpcWaitTable Tid} (h : Consistent table)
    {thread : Tid} {action : RpcAction Tid} (henabled : table.Enabled thread action)
    (honce : AnsweredOnce table (thread, action)) (p : ℕ) (other : Tid)
    (hserved : (table.next thread action).Served p other) :
    p ∈ (table.next thread action).pending ∧
      ∀ third, (table.next thread action).Served p third → third = other := by
  by_cases htake : action = .queue p .take
  · subst htake
    obtain ⟨hmem, hnobody⟩ := (honce henabled).2 p rfl
    have honly : ∀ third, (table.next thread (.queue p .take)).Served p third →
        third = thread := by
      intro third hthird
      rcases served_next henabled hthird with hbefore | ⟨_, hthread⟩
      · exact absurd hbefore (hnobody third)
      · exact hthread
    refine ⟨mem_pending_next hmem (by rintro tag answer ⟨⟩), ?_⟩
    intro third hthird
    rw [honly third hthird, honly other hserved]
  · have hbefore : ∀ third, (table.next thread action).Served p third →
        table.Served p third := by
      intro third hthird
      rcases served_next henabled hthird with hthird | ⟨haction, _⟩
      · exact hthird
      · exact absurd haction htake
    obtain ⟨hmem, honly⟩ := h.served p other (hbefore other hserved)
    refine ⟨mem_pending_next hmem ?_, fun third hthird => honly third (hbefore third hthird)⟩
    rintro tag answer rfl
    have hthread : thread = other :=
      honly thread (served_iff.mpr (Or.inl ⟨tag, answer, henabled.1⟩))
    rw [← hthread] at hserved
    exact h.not_served_clear henabled hserved

/-- A step that answers once and does not run out of tags keeps the table consistent. -/
theorem Consistent.next {table : RpcWaitTable Tid} (h : Consistent table) {thread : Tid}
    {action : RpcAction Tid} (henabled : table.Enabled thread action)
    (hfew : FewRegistrations table (thread, action))
    (honce : AnsweredOnce table (thread, action)) : Consistent (table.next thread action) where
  numbered := numbered_next h.numbered hfew
  locked := locked_next h.locked henabled
  queues := h.queues_next henabled honce
  sends := h.sends_next henabled
  receives := h.receives_next thread action
  clears := h.clears_next henabled
  answers := h.answers_next henabled
  inBounds := h.inBounds_next henabled
  placed := h.placed_next henabled
  served := h.served_unique_next henabled honce

/-! ## Runs -/

/-- The pending tags differ, a message is sent to the entry that it answers, a call that waited
for a registered tag has an answer to it, and no search has run over the end. -/
structure AnswersCorrectly (table : RpcWaitTable Tid) : Prop where
  distinct : (table.pending.map fun p => (table.heap p).tag).Nodup
  delivers : ∀ thread message p, (table.caller thread).sends = some (message, p) →
    Bears (table.heap p).tag message
  returns : ∀ thread tag answer, table.caller thread = .answered tag true answer →
    IsAnswer tag answer
  inBounds : ∀ thread, table.caller thread ≠ .overrun

omit [DecidableEq Tid] in
theorem Consistent.answersCorrectly {table : RpcWaitTable Tid} (h : Consistent table) :
    AnswersCorrectly table where
  distinct := h.numbered.nodup_tags
  delivers := fun thread message p hsends => (h.sends thread message p hsends).2
  returns := h.answers
  inBounds := h.inBounds

/-- In every interleaving with few registrations and in which every entry answers once, the
table answers correctly throughout. -/
theorem answersCorrectly_of_answeredOnce (actions : List (Tid × RpcAction Tid))
    (hfew : Machine.Along step FewRegistrations (new : RpcWaitTable Tid) actions)
    (honce : Machine.Along step AnsweredOnce (new : RpcWaitTable Tid) actions) :
    Machine.Always step AnswersCorrectly (new : RpcWaitTable Tid) actions := by
  have hboth := Machine.Along.and hfew honce
  apply Machine.Always.mono fun table h => Consistent.answersCorrectly h
  apply Machine.always_of_along ?_ consistent_new hboth
  intro table action following h hguards hstep
  obtain ⟨henabled, rfl⟩ := step_eq_some.mp hstep
  exact h.next henabled hguards.1 hguards.2

instance (table : RpcWaitTable Tid) (action : Tid × RpcAction Tid) :
    Decidable (FewRegistrations table action) :=
  inferInstanceAs (Decidable (_ → _))

instance (table : RpcWaitTable Tid) (entry : ℕ) (thread : Tid) :
    Decidable (table.Served entry thread) :=
  inferInstanceAs (Decidable (_ ∨ _))

instance [Fintype Tid] (table : RpcWaitTable Tid) (action : Tid × RpcAction Tid) :
    Decidable (AnsweredOnce table action) :=
  inferInstanceAs (Decidable (_ → _ ∧ _))

def answer (tag : String) : MMessage := (MMessage.mk2 "rpc" "answer").add "answer_tag" tag

/-- The steps of a `receive` that finds the given message. -/
def received {Tid : Type*} (thread : Tid) (entry : ℕ) (message : MMessage) :
    List (Tid × RpcAction Tid) :=
  [(thread, .queue entry .request), (thread, .queue entry .test), (thread, .queue entry .take),
    (thread, .queue entry (.finish (some message)))]

/-- The steps of a `signal` that wakes nobody. -/
def signalled {Tid : Type*} (thread : Tid) (entry : ℕ) (message : MMessage) :
    List (Tid × RpcAction Tid) :=
  [(thread, .signal message), (thread, .queue entry (.enter message)),
    (thread, .queue entry (.put message)), (thread, .queue entry .trim),
    (thread, .queue entry (.notify none)), (thread, .queue entry .leave), (thread, .finish)]

/-- One thread registers a call and waits for its answer, and another one signals it. -/
def oneCall : List (Fin 2 × RpcAction (Fin 2)) :=
  [(0, .callRegister (MMessage.mk2 "rpc" "call") 0), (0, .finish), (0, .wait "RPC_0")] ++
    signalled 1 0 (answer "RPC_0") ++ received 0 0 (answer "RPC_0") ++
    [(0, .clearEntry "RPC_0" 0 (some (answer "RPC_0")))]

theorem answersCorrectly_oneCall :
    Machine.Along step FewRegistrations (new : RpcWaitTable (Fin 2)) oneCall ∧
      Machine.Along step AnsweredOnce (new : RpcWaitTable (Fin 2)) oneCall ∧
      Machine.Always step AnswersCorrectly (new : RpcWaitTable (Fin 2)) oneCall := by
  have hfew : Machine.Along step FewRegistrations (new : RpcWaitTable (Fin 2)) oneCall := by
    decide +kernel
  have honce : Machine.Along step AnsweredOnce (new : RpcWaitTable (Fin 2)) oneCall := by
    decide +kernel
  exact ⟨hfew, honce, answersCorrectly_of_answeredOnce oneCall hfew honce⟩

/-- Two threads wait for the same tag, and two answers come for it. -/
def twoWaits : List (Fin 2 × RpcAction (Fin 2)) :=
  [(0, .callRegister (MMessage.mk2 "rpc" "call") 0), (0, .finish)] ++
    signalled 1 0 (answer "RPC_0") ++ signalled 1 0 (answer "RPC_0") ++
    [(0, .wait "RPC_0"), (1, .wait "RPC_0")] ++
    received 0 0 (answer "RPC_0") ++ received 1 0 (answer "RPC_0") ++
    [(0, .clearEntry "RPC_0" 0 (some (answer "RPC_0"))),
      (1, .clearEntry "RPC_0" 0 (some (answer "RPC_0")))]

/-- The second thread searches for an entry that the first one has cleared. -/
theorem not_answersCorrectly_twoWaits :
    Machine.Along step FewRegistrations (new : RpcWaitTable (Fin 2)) twoWaits ∧
      ¬Machine.Always step AnswersCorrectly (new : RpcWaitTable (Fin 2)) twoWaits := by
  have hfew : Machine.Along step FewRegistrations (new : RpcWaitTable (Fin 2)) twoWaits := by
    decide +kernel
  have hfinal : (Machine.exec step (new : RpcWaitTable (Fin 2)) twoWaits).map
      (fun table => table.caller 1) = some .overrun := by
    decide +kernel
  obtain ⟨final, hexec, hoverrun⟩ := Option.map_eq_some_iff.mp hfinal
  exact ⟨hfew, fun halways => (halways.last hexec).inBounds 1 hoverrun⟩

end RpcWaitTable

end Hat
