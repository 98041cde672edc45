import Hat.Minilibs.MMessageQueue
import Mathlib.Algebra.Order.Group.Int
import Mathlib.Data.List.Perm.Basic

/-!
# The discipline of a priority queue

Sends and receives follow each other, and a receiver that finds nothing waits for the
next send, which wakes it.  The messages are numbered in the order in which they are
sent.  The numbers stay in increasing order within the queue through every eviction and
every removal, so the first message of a priority is the one that was sent first.
-/

namespace Hat.PriorityQueue

variable {Q : Type*}

/-- The loop over the first `n` positions. -/
def scanTo (better : Q → Q → Bool) (queue : List Q) (n : ℕ) : ℕ :=
  (List.range n).foldl (fun best i =>
    match queue[i]?, queue[best]? with
    | some candidate, some chosen => if better candidate chosen then i else best
    | _, _ => best) 0

theorem scanTo_succ (better : Q → Q → Bool) {queue : List Q} {n : ℕ} {candidate chosen : Q}
    (hcandidate : queue[n]? = some candidate)
    (hchosen : queue[scanTo better queue n]? = some chosen) :
    scanTo better queue (n + 1) =
      if better candidate chosen then n else scanTo better queue n := by
  have hstep : scanTo better queue (n + 1) =
      match queue[n]?, queue[scanTo better queue n]? with
      | some candidate, some chosen =>
          if better candidate chosen then n else scanTo better queue n
      | _, _ => scanTo better queue n := by
    rw [scanTo, List.range_succ, List.foldl_append, ← scanTo]
    rfl
  rw [hstep, hcandidate, hchosen]

section

variable {better : Q → Q → Bool} {rank : Q → ℤ}
  (hbetter : ∀ candidate chosen, better candidate chosen = true ↔ rank chosen < rank candidate)
include hbetter

/-- Of the positions seen, the loop selects the first of the highest rank. -/
theorem scanTo_spec {queue : List Q} (hready : queue.length ≠ 0) {n : ℕ} (hn : n ≤ queue.length) :
    ∃ chosen, queue[scanTo better queue n]? = some chosen ∧
      (∀ i < n, ∀ other, queue[i]? = some other → rank other ≤ rank chosen) ∧
      ∀ i < scanTo better queue n, ∀ other, queue[i]? = some other →
        rank other < rank chosen := by
  induction n with
  | zero =>
      refine ⟨queue.get ⟨0, Nat.pos_of_ne_zero hready⟩, ?_, ?_, ?_⟩
      · exact List.getElem?_eq_getElem (Nat.pos_of_ne_zero hready)
      · exact fun i hi => absurd hi (Nat.not_lt_zero i)
      · exact fun i hi => absurd hi (Nat.not_lt_zero i)
  | succ n ih =>
      obtain ⟨chosen, hchosen, hhighest, hfirst⟩ := ih (Nat.le_of_succ_le hn)
      obtain ⟨candidate, hcandidate⟩ : ∃ candidate, queue[n]? = some candidate :=
        ⟨queue.get ⟨n, hn⟩, List.getElem?_eq_getElem hn⟩
      rw [scanTo_succ better hcandidate hchosen]
      by_cases hlt : rank chosen < rank candidate
      · rw [if_pos ((hbetter _ _).mpr hlt)]
        have hless : ∀ i < n, ∀ other, queue[i]? = some other →
            rank other < rank candidate := by
          intro i hi other hother
          exact lt_of_le_of_lt (hhighest i hi other hother) hlt
        refine ⟨candidate, hcandidate, fun i hi other hother => ?_, hless⟩
        rcases Nat.lt_succ_iff_lt_or_eq.mp hi with hbefore | rfl
        · exact (hless i hbefore other hother).le
        · rw [hcandidate, Option.some.injEq] at hother
          exact hother ▸ le_refl _
      · rw [if_neg fun h => hlt ((hbetter _ _).mp h)]
        refine ⟨chosen, hchosen, fun i hi other hother => ?_, hfirst⟩
        rcases Nat.lt_succ_iff_lt_or_eq.mp hi with hbefore | rfl
        · exact hhighest i hbefore other hother
        · rw [hcandidate, Option.some.injEq] at hother
          exact hother ▸ not_lt.mp hlt

/-- The selected element splits the queue: what stands before it has a lower rank, what
stands behind it no higher one. -/
theorem exists_split_of_scan {queue : List Q} (hready : queue.length ≠ 0) :
    ∃ front chosen back, queue = front ++ chosen :: back ∧
      queue[scan better queue]? = some chosen ∧
      queue.eraseIdx (scan better queue) = front ++ back ∧
      (∀ other ∈ front, rank other < rank chosen) ∧
      ∀ other ∈ back, rank other ≤ rank chosen := by
  obtain ⟨chosen, hchosen, hhighest, hfirst⟩ := scanTo_spec hbetter hready (le_refl _)
  have hscan : scanTo better queue queue.length = scan better queue := rfl
  rw [hscan] at hchosen hfirst
  obtain ⟨hlt, hget⟩ := List.getElem?_eq_some_iff.mp hchosen
  refine ⟨queue.take (scan better queue), chosen, queue.drop (scan better queue + 1), ?_, hchosen,
    List.eraseIdx_eq_take_drop_succ queue _, ?_, ?_⟩
  · rw [← hget, List.getElem_cons_drop, List.take_append_drop]
  · intro other hother
    obtain ⟨i, hi, hget⟩ := List.mem_take_iff_getElem.mp hother
    exact hfirst i (by omega) other (List.getElem?_eq_some_iff.mpr ⟨by omega, hget⟩)
  · intro other hother
    obtain ⟨i, hi⟩ := List.mem_iff_getElem?.mp (List.mem_of_mem_drop hother)
    have hbound := (List.getElem?_eq_some_iff.mp hi).1
    exact hhighest i hbound other hi

end

/-- The messages before the selected one are of lower priorities. -/
theorem exists_split_of_select {priority : Q → ℤ} {queue rest : List Q} {chosen : Q}
    (hselect : select priority queue = some (chosen, rest)) :
    ∃ front back, queue = front ++ chosen :: back ∧ rest = front ++ back ∧
      ∀ other ∈ front, priority other < priority chosen := by
  obtain ⟨found, hget, heq⟩ := Option.map_eq_some_iff.mp hselect
  obtain ⟨rfl, rfl⟩ := Prod.mk.inj heq
  have hready : queue.length ≠ 0 := by
    intro hlength
    rw [List.length_eq_zero_iff.mp hlength] at hget
    exact absurd hget.symm (Option.some_ne_none found)
  have hbetter : ∀ candidate chosen : Q,
      decide (priority candidate > priority chosen) = true ↔ priority candidate > priority chosen :=
    fun _ _ => decide_eq_true_iff
  obtain ⟨front, first, back, hsplit, hfirst, herase, hfront, -⟩ :=
    exists_split_of_scan hbetter hready
  cases hget.symm.trans hfirst
  exact ⟨front, back, hsplit, herase, hfront⟩

/-- Messages of one priority are selected in the order in which they stand. -/
theorem filter_of_select {priority : Q → ℤ} {queue rest : List Q} {chosen : Q} {p : Q → Bool}
    (hselect : select priority queue = some (chosen, rest))
    (hsame : ∀ m ∈ queue, ∀ other ∈ queue, p m = true → p other = true →
      priority m = priority other) :
    queue.filter p = if p chosen then chosen :: rest.filter p else rest.filter p := by
  obtain ⟨front, back, rfl, rfl, hfront⟩ := exists_split_of_select hselect
  cases hchosen : p chosen with
  | false => rw [List.filter_append, List.filter_cons_of_neg (by rw [hchosen]; decide),
      if_neg Bool.false_ne_true, List.filter_append]
  | true =>
      have hnone : front.filter p = [] := by
        apply List.filter_eq_nil_iff.mpr
        intro other hother hp
        have hequal := hsame other (List.mem_append_left _ hother) chosen
          (List.mem_append_right _ List.mem_cons_self) hp hchosen
        exact absurd hequal (ne_of_lt (hfront other hother))
      rw [List.filter_append, List.filter_cons_of_pos hchosen, if_pos rfl, List.filter_append,
        hnone, List.nil_append, List.nil_append]

theorem mem_of_select {priority : Q → ℤ} {queue rest : List Q} {chosen : Q}
    (hselect : select priority queue = some (chosen, rest)) :
    chosen ∈ queue ∧ rest ⊆ queue := by
  obtain ⟨front, back, rfl, rfl, -⟩ := exists_split_of_select hselect
  refine ⟨List.mem_append_right _ List.mem_cons_self, ?_⟩
  exact (List.Sublist.append_left (List.sublist_cons_self chosen back) front).subset

/-! ## Numbered messages -/

/-- Of the highest rank, and the first sent among those. -/
def Foremost (rank : Q → ℤ) (queue : List (ℕ × Q)) (message : ℕ × Q) : Prop :=
  ∀ other ∈ queue, rank other.2 ≤ rank message.2 ∧
    (rank other.2 = rank message.2 → message.1 ≤ other.1)

/-- The messages stand in the order in which they were sent. -/
def InOrder (queue : List (ℕ × Q)) : Prop :=
  queue.Pairwise fun earlier later => earlier.1 < later.1

/-- In a queue in the order of sending, the selected message is the foremost. -/
theorem foremost_of_split {rank : Q → ℤ} {front back : List (ℕ × Q)} {chosen : ℕ × Q}
    (horder : InOrder (front ++ chosen :: back))
    (hfront : ∀ other ∈ front, rank other.2 < rank chosen.2)
    (hback : ∀ other ∈ back, rank other.2 ≤ rank chosen.2) :
    Foremost rank (front ++ chosen :: back) chosen := by
  intro other hother
  rcases List.mem_append.mp hother with hbefore | hrest
  · exact ⟨(hfront other hbefore).le, fun heq => absurd heq (hfront other hbefore).ne⟩
  · rcases List.mem_cons.mp hrest with rfl | hafter
    · exact ⟨le_refl _, fun _ => le_refl _⟩
    · have hlater := List.rel_of_pairwise_cons (List.pairwise_append.mp horder).2.1 hafter
      exact ⟨hback other hafter, fun _ => hlater.le⟩

/-- One message is gone; the others stand as before. -/
def RemovedFrom (before after : List (ℕ × Q)) (message : ℕ × Q) : Prop :=
  ∃ front back, before = front ++ message :: back ∧ after = front ++ back

theorem RemovedFrom.sublist {before after : List (ℕ × Q)} {message : ℕ × Q}
    (h : RemovedFrom before after message) : after.Sublist before := by
  obtain ⟨front, back, rfl, rfl⟩ := h
  exact (List.sublist_cons_self message back).append_left front

theorem RemovedFrom.perm {before after : List (ℕ × Q)} {message : ℕ × Q}
    (h : RemovedFrom before after message) : before.Perm (message :: after) := by
  obtain ⟨front, back, rfl, rfl⟩ := h
  exact List.perm_middle

theorem RemovedFrom.length {before after : List (ℕ × Q)} {message : ℕ × Q}
    (h : RemovedFrom before after message) : before.length = after.length + 1 :=
  h.perm.length_eq

section

variable (priority : Q → ℤ) (maxlength : ℕ)

def ofNumbered (message : ℕ × Q) : ℤ := priority message.2

theorem select_foremost {queue : List (ℕ × Q)} (horder : InOrder queue) (hready : queue ≠ []) :
    ∃ message rest, select (ofNumbered priority) queue = some (message, rest) ∧
      Foremost priority queue message ∧ RemovedFrom queue rest message := by
  have hlength : queue.length ≠ 0 := fun h => hready (List.length_eq_zero_iff.mp h)
  have hbetter : ∀ candidate chosen : ℕ × Q,
      decide (ofNumbered priority candidate > ofNumbered priority chosen) = true ↔
        ofNumbered priority chosen < ofNumbered priority candidate :=
    fun _ _ => decide_eq_true_iff
  obtain ⟨front, message, back, hsplit, hget, herase, hfront, hback⟩ :=
    exists_split_of_scan hbetter hlength
  refine ⟨message, front ++ back, ?_, ?_, front, back, hsplit, rfl⟩
  · rw [select, hget, herase]
    rfl
  · rw [hsplit] at horder ⊢
    exact foremost_of_split horder hfront hback

theorem purge_of_le {queue : List (ℕ × Q)} (h : maxlength = 0 ∨ queue.length ≤ maxlength) :
    purge (ofNumbered priority) maxlength queue = queue := by
  rw [purge, if_pos h]

theorem purge_foremost {queue : List (ℕ × Q)} (horder : InOrder queue)
    (h : ¬(maxlength = 0 ∨ queue.length ≤ maxlength)) :
    ∃ dropped, Foremost (fun m => -priority m) queue dropped ∧
      RemovedFrom queue (purge (ofNumbered priority) maxlength queue) dropped := by
  have hlength : queue.length ≠ 0 := by
    rw [not_or, not_le] at h
    exact Nat.ne_of_gt (Nat.lt_of_le_of_lt (Nat.zero_le maxlength) h.2)
  have hbetter : ∀ candidate chosen : ℕ × Q,
      decide (ofNumbered priority candidate < ofNumbered priority chosen) = true ↔
        -ofNumbered priority chosen < -ofNumbered priority candidate := by
    intro candidate chosen
    rw [decide_eq_true_iff, Int.neg_lt_neg_iff]
  obtain ⟨front, dropped, back, hsplit, -, herase, hfront, hback⟩ :=
    exists_split_of_scan hbetter hlength
  refine ⟨dropped, ?_, front, back, hsplit, ?_⟩
  · rw [hsplit] at horder ⊢
    exact foremost_of_split horder hfront hback
  · rw [purge, if_neg h, herase]

end

section

variable {R : Type*}

theorem scan_map (f : Q → R) (better : R → R → Bool) (queue : List Q) :
    scan better (queue.map f) = scan (fun candidate chosen => better (f candidate) (f chosen))
      queue := by
  simp only [scan, List.length_map, List.getElem?_map]
  congr 1
  funext best i
  cases queue[i]? <;> cases queue[best]? <;> rfl

theorem select_map (f : Q → R) (priority : R → ℤ) (queue : List Q) :
    select priority (queue.map f) =
      (select (fun m => priority (f m)) queue).map fun taken => (f taken.1, taken.2.map f) := by
  simp only [select, scan_map, List.getElem?_map, Option.map_map, List.eraseIdx_map]
  rfl

theorem purge_map (f : Q → R) (priority : R → ℤ) (maxlength : ℕ) (queue : List Q) :
    purge priority maxlength (queue.map f) =
      (purge (fun m => priority (f m)) maxlength queue).map f := by
  simp only [purge, scan_map, List.length_map, List.eraseIdx_map]
  split <;> rfl

end

end Hat.PriorityQueue

namespace Hat.MMessageQueue

open PriorityQueue

variable {Q : Type*}

inductive Call (Q : Type*)
  | send (m : Q)
  | receive

/-- What happens to the queue, with its contents before and after. -/
inductive Event (Q : Type*)
  | sent (message : ℕ × Q) (before after : List (ℕ × Q))
  | returned (message : ℕ × Q) (before after : List (ℕ × Q))

namespace Event

def before : Event Q → List (ℕ × Q)
  | sent _ before _ => before
  | returned _ before _ => before

def after : Event Q → List (ℕ × Q)
  | sent _ _ after => after
  | returned _ _ after => after

def sent? : Event Q → Option (ℕ × Q)
  | sent message _ _ => some message
  | returned _ _ _ => none

def returned? : Event Q → Option (ℕ × Q)
  | sent _ _ _ => none
  | returned message _ _ => some message

end Event

structure Traffic (Q : Type*) where
  /-- The queue, each message with its number. -/
  queue : List (ℕ × Q)
  /-- The calls of `receive` that wait. -/
  waiting : ℕ
  sent : List (ℕ × Q)
  received : List (ℕ × Q)
  events : List (Event Q)

def Traffic.start : Traffic Q := ⟨[], 0, [], [], []⟩

variable (priority : Q → ℤ) (maxlength : ℕ)

/-- The queue of numbered messages; it looks at their priorities only. -/
def numbered : Monitor.Protocol (List (ℕ × Q)) (ℕ × Q) (ℕ × Q) :=
  MMessageQueue.protocol (ofNumbered priority) maxlength

namespace Traffic

def give (traffic : Traffic Q) (taken : (ℕ × Q) × List (ℕ × Q)) : Traffic Q :=
  { traffic with
    queue := taken.2
    received := traffic.received ++ [taken.1]
    events := traffic.events ++ [.returned taken.1 traffic.queue taken.2] }

theorem length_received_give (traffic : Traffic Q) (taken : (ℕ × Q) × List (ℕ × Q)) :
    (traffic.give taken).received.length = traffic.received.length + 1 := List.length_append

def put (traffic : Traffic Q) (m : Q) : Traffic Q :=
  let message := (traffic.sent.length, m)
  let queue := (numbered priority maxlength).trim
    ((numbered priority maxlength).put message traffic.queue)
  { traffic with
    queue := queue
    sent := traffic.sent ++ [message]
    events := traffic.events ++ [.sent message traffic.queue queue] }

/-- A receive that does not wait any longer; there is no next state where it reads an
empty queue. -/
def deliver (traffic : Traffic Q) : Option (Traffic Q) :=
  ((numbered priority maxlength).take traffic.queue).map traffic.give

/-- A send notifies one of the calls that wait. -/
def step (traffic : Traffic Q) : Call Q → Option (Traffic Q)
  | .send m =>
      if traffic.waiting = 0 then some (put priority maxlength traffic m)
      else deliver priority maxlength
        (put priority maxlength { traffic with waiting := traffic.waiting - 1 } m)
  | .receive =>
      if (numbered priority maxlength).ready traffic.queue then deliver priority maxlength traffic
      else some { traffic with waiting := traffic.waiting + 1 }

end Traffic

/-! ## The discipline -/

/-- The event is what the queue of the bare messages does. -/
def Performed : Event Q → Prop
  | .sent message before after =>
      after.map Prod.snd = (protocol priority maxlength).trim
        ((protocol priority maxlength).put message.2 (before.map Prod.snd))
  | .returned message before after =>
      (protocol priority maxlength).take (before.map Prod.snd) =
        some (message.2, after.map Prod.snd)

/-- A bounded queue stays within its bound; a send that overflows it drops one message, the
earliest of the lowest priority, and a receive returns the earliest of the highest one. -/
def Disciplined : Event Q → Prop
  | .sent message before after =>
      (0 < maxlength → after.length ≤ maxlength) ∧
        if maxlength = 0 ∨ before.length < maxlength then after = before ++ [message]
        else ∃ dropped, Foremost (fun m => -priority m) (before ++ [message]) dropped ∧
          RemovedFrom (before ++ [message]) after dropped
  | .returned message before after =>
      Foremost priority before message ∧ RemovedFrom before after message

/-- Each event begins with the queue that the one before it has left. -/
def Chained : List (ℕ × Q) → List (Event Q) → List (ℕ × Q) → Prop
  | first, [], last => first = last
  | first, event :: rest, last => event.before = first ∧ Chained event.after rest last

theorem Chained.concat {first last : List (ℕ × Q)} {events : List (Event Q)}
    (h : Chained first events last) {event : Event Q} (hevent : event.before = last) :
    Chained first (events ++ [event]) event.after := by
  induction events generalizing first with
  | nil =>
      obtain rfl : first = last := h
      exact ⟨hevent, rfl⟩
  | cons earlier rest ih => exact ⟨h.1, ih h.2⟩

/-- What holds of the traffic between two operations on the queue. -/
structure Kept (traffic : Traffic Q) : Prop where
  inOrder : InOrder traffic.queue
  below : ∀ message ∈ traffic.queue, message.1 < traffic.sent.length
  bounded : 0 < maxlength → traffic.queue.length ≤ maxlength
  events : ∀ event ∈ traffic.events,
    Performed priority maxlength event ∧ Disciplined priority maxlength event
  chained : Chained [] traffic.events traffic.queue
  sent : traffic.events.filterMap Event.sent? = traffic.sent
  received : traffic.events.filterMap Event.returned? = traffic.received
  complete : maxlength = 0 → (traffic.received ++ traffic.queue).Perm traffic.sent

theorem kept_start : Kept priority maxlength (Traffic.start : Traffic Q) where
  inOrder := List.Pairwise.nil
  below := fun _ hmem => absurd hmem List.not_mem_nil
  bounded := fun _ => Nat.zero_le maxlength
  events := fun _ hmem => absurd hmem List.not_mem_nil
  chained := rfl
  sent := rfl
  received := rfl
  complete := fun _ => List.Perm.refl []

variable {priority maxlength}

/-- A receive from a queue that is not empty returns the foremost message. -/
theorem Kept.deliver {traffic : Traffic Q} (h : Kept priority maxlength traffic)
    (hready : traffic.queue ≠ []) :
    ∃ message rest, traffic.deliver priority maxlength = some (traffic.give (message, rest)) ∧
      Kept priority maxlength (traffic.give (message, rest)) ∧
      Foremost priority traffic.queue message ∧ RemovedFrom traffic.queue rest message := by
  obtain ⟨message, rest, hselect, hforemost, hremoved⟩ :=
    select_foremost priority h.inOrder hready
  have htake : (numbered priority maxlength).take traffic.queue = some (message, rest) := hselect
  refine ⟨message, rest, ?_, ?_, hforemost, hremoved⟩
  · rw [Traffic.deliver, htake, Option.map_some]
  constructor
  · exact h.inOrder.sublist hremoved.sublist
  · exact fun other hother => h.below other (hremoved.sublist.subset hother)
  · exact fun hpos => le_trans hremoved.sublist.length_le (h.bounded hpos)
  · intro event hevent
    rcases List.mem_append.mp hevent with hold | hnew
    · exact h.events event hold
    · rw [List.mem_singleton.mp hnew]
      refine ⟨?_, hforemost, hremoved⟩
      have hmapped := select_map Prod.snd priority traffic.queue
      calc select priority (traffic.queue.map Prod.snd)
          = (select (ofNumbered priority) traffic.queue).map
              fun taken => (taken.1.2, taken.2.map Prod.snd) := hmapped
        _ = some (message.2, rest.map Prod.snd) := by rw [hselect, Option.map_some]
  · exact h.chained.concat rfl
  · rw [Traffic.give, List.filterMap_append, h.sent]
    exact List.append_nil _
  · rw [Traffic.give, List.filterMap_append, h.received]
    rfl
  · intro hunbounded
    have hperm : (traffic.received ++ traffic.queue).Perm
        ((traffic.received ++ [message]) ++ rest) := by
      rw [List.append_assoc]
      exact hremoved.perm.append_left traffic.received
    exact hperm.symm.trans (h.complete hunbounded)

theorem purge_sublist (priority : Q → ℤ) (maxlength : ℕ) (queue : List (ℕ × Q)) :
    (purge (ofNumbered priority) maxlength queue).Sublist queue := by
  rw [purge]
  split
  · exact List.Sublist.refl queue
  · exact List.eraseIdx_sublist queue _

theorem purge_ne_nil {queue : List (ℕ × Q)} (hqueue : queue ≠ []) :
    purge (ofNumbered priority) maxlength queue ≠ [] := by
  rw [purge]
  split
  · exact hqueue
  · rename_i hlong
    rw [not_or, not_le] at hlong
    apply List.ne_nil_of_length_pos
    have hlength := List.le_length_eraseIdx queue (scan (fun candidate chosen =>
      ofNumbered priority candidate < ofNumbered priority chosen) queue)
    omega

theorem Kept.inOrder_put {traffic : Traffic Q} (h : Kept priority maxlength traffic) (m : Q) :
    InOrder (traffic.queue ++ [(traffic.sent.length, m)]) := by
  refine List.pairwise_append.mpr ⟨h.inOrder, List.pairwise_singleton _ _, ?_⟩
  intro earlier hearlier later hlater
  rw [List.mem_singleton.mp hlater]
  exact h.below earlier hearlier

/-- What a send leaves in the queue. -/
theorem Kept.disciplined_put {traffic : Traffic Q} (h : Kept priority maxlength traffic) (m : Q) :
    Disciplined priority maxlength (.sent (traffic.sent.length, m) traffic.queue
      (purge (ofNumbered priority) maxlength (traffic.queue ++ [(traffic.sent.length, m)]))) := by
  have hroom : maxlength = 0 ∨ traffic.queue.length < maxlength ↔
      maxlength = 0 ∨ (traffic.queue ++ [(traffic.sent.length, m)]).length ≤ maxlength := by
    rw [List.length_append, List.length_singleton]
    exact Iff.rfl
  by_cases hfits : maxlength = 0 ∨
      (traffic.queue ++ [(traffic.sent.length, m)]).length ≤ maxlength
  · refine ⟨fun hpos => ?_, ?_⟩
    · rw [purge_of_le priority maxlength hfits]
      exact hfits.resolve_left hpos.ne'
    · rw [if_pos (hroom.mpr hfits), purge_of_le priority maxlength hfits]
  · obtain ⟨dropped, hforemost, hremoved⟩ :=
      purge_foremost priority maxlength (h.inOrder_put m) hfits
    refine ⟨fun hpos => ?_, ?_⟩
    · have hlength := hremoved.length
      rw [List.length_append, List.length_singleton] at hlength
      have hbefore := h.bounded hpos
      omega
    · rw [if_neg fun hroomy => hfits (hroom.mp hroomy)]
      exact ⟨dropped, hforemost, hremoved⟩

theorem Kept.put {traffic : Traffic Q} (h : Kept priority maxlength traffic) (m : Q) :
    Kept priority maxlength (traffic.put priority maxlength m) := by
  have hsublist := purge_sublist priority maxlength
    (traffic.queue ++ [(traffic.sent.length, m)])
  have hdisciplined := h.disciplined_put m
  constructor
  · exact (h.inOrder_put m).sublist hsublist
  · intro message hmessage
    rw [Traffic.put, List.length_append, List.length_singleton]
    rcases List.mem_append.mp (hsublist.subset hmessage) with hold | hnew
    · exact Nat.lt_succ_of_lt (h.below message hold)
    · rw [List.mem_singleton.mp hnew]
      exact Nat.lt_succ_self _
  · exact hdisciplined.1
  · intro event hevent
    rcases List.mem_append.mp hevent with hold | hnew
    · exact h.events event hold
    · rw [List.mem_singleton.mp hnew]
      refine ⟨?_, hdisciplined⟩
      have hmapped := purge_map Prod.snd priority maxlength
        (traffic.queue ++ [(traffic.sent.length, m)])
      rw [List.map_append, List.map_singleton] at hmapped
      exact hmapped.symm
  · exact h.chained.concat rfl
  · rw [Traffic.put, List.filterMap_append, h.sent]
    rfl
  · rw [Traffic.put, List.filterMap_append, h.received]
    exact List.append_nil _
  · intro hunbounded
    have hqueue : (traffic.put priority maxlength m).queue =
        traffic.queue ++ [(traffic.sent.length, m)] :=
      purge_of_le priority maxlength (Or.inl hunbounded)
    have hcomplete := (h.complete hunbounded).append_right [(traffic.sent.length, m)]
    rw [List.append_assoc, ← hqueue] at hcomplete
    exact hcomplete

/-- Receives wait only while the queue is empty. -/
def Idle (traffic : Traffic Q) : Prop := traffic.waiting ≠ 0 → traffic.queue = []

namespace Call

def message? : Call Q → Option Q
  | send m => some m
  | receive => none

def isReceive : Call Q → Bool
  | send _ => false
  | receive => true

end Call

/-- No call leads to a read of an empty queue, and each keeps the invariant.  A receive returns or
waits, and a send wakes one that waits. -/
theorem Kept.step {traffic : Traffic Q} (h : Kept priority maxlength traffic)
    (hidle : Idle traffic) (call : Call Q) :
    ∃ next, traffic.step priority maxlength call = some next ∧ Kept priority maxlength next ∧
      Idle next ∧
      next.sent = traffic.sent ++
        (call.message?.toList.zipIdx traffic.sent.length).map Prod.swap ∧
      next.received.length + next.waiting =
        traffic.received.length + traffic.waiting + [call].countP Call.isReceive := by
  cases call with
  | send m =>
      simp only [Traffic.step]
      by_cases hwaiting : traffic.waiting = 0
      · rw [if_pos hwaiting]
        exact ⟨_, rfl, h.put m, fun hne => absurd hwaiting hne, rfl, rfl⟩
      · rw [if_neg hwaiting]
        have hwoken : Kept priority maxlength { traffic with waiting := traffic.waiting - 1 } :=
          ⟨h.inOrder, h.below, h.bounded, h.events, h.chained, h.sent, h.received, h.complete⟩
        have hready : (Traffic.put priority maxlength
            { traffic with waiting := traffic.waiting - 1 } m).queue ≠ [] :=
          purge_ne_nil (List.append_ne_nil_of_right_ne_nil _ (List.cons_ne_nil _ _))
        obtain ⟨message, rest, hnext, hkept, -, hremoved⟩ := (hwoken.put m).deliver hready
        refine ⟨_, hnext, hkept, fun _ => ?_, rfl, ?_⟩
        · -- The woken receive takes the one message that was just sent.
          have hone : (Traffic.put priority maxlength
              { traffic with waiting := traffic.waiting - 1 } m).queue.length ≤ 1 := by
            have hempty : traffic.queue.length = 0 := List.length_eq_zero_iff.mpr (hidle hwaiting)
            have hshorter := (purge_sublist priority maxlength
              (traffic.queue ++ [(traffic.sent.length, m)])).length_le
            rw [List.length_append, hempty] at hshorter
            exact hshorter
          have hlength := hremoved.length
          have hrest : rest.length = 0 := by omega
          exact List.length_eq_zero_iff.mp hrest
        · rw [Traffic.length_received_give]
          change traffic.received.length + 1 + (traffic.waiting - 1) = _ + 0
          omega
  | receive =>
      simp only [Traffic.step]
      split
      · rename_i hready
        have hne : traffic.queue ≠ [] := (ready_iff (ofNumbered priority) maxlength _).mp hready
        obtain ⟨message, rest, hnext, hkept, -, -⟩ := h.deliver hne
        refine ⟨_, hnext, hkept, fun hnonzero => absurd (hidle hnonzero) hne, ?_, ?_⟩
        · exact (List.append_nil _).symm
        · rw [Traffic.length_received_give]
          exact Nat.add_right_comm _ 1 _
      · rename_i hready
        have hempty : traffic.queue = [] := by
          by_contra hne
          exact hready ((ready_iff (ofNumbered priority) maxlength _).mpr hne)
        exact ⟨_, rfl, ⟨h.inOrder, h.below, h.bounded, h.events, h.chained, h.sent, h.received,
          h.complete⟩, fun _ => hempty, (List.append_nil _).symm, rfl⟩

theorem exec_disciplined (calls : List (Call Q)) {traffic : Traffic Q}
    (h : Kept priority maxlength traffic) (hidle : Idle traffic) :
    ∃ final, Machine.exec (Traffic.step priority maxlength) traffic calls = some final ∧
      Kept priority maxlength final ∧ Idle final ∧
      final.sent = traffic.sent ++
        ((calls.filterMap Call.message?).zipIdx traffic.sent.length).map Prod.swap ∧
      final.received.length + final.waiting =
        traffic.received.length + traffic.waiting + calls.countP Call.isReceive := by
  induction calls generalizing traffic with
  | nil => exact ⟨traffic, rfl, h, hidle, (List.append_nil _).symm, rfl⟩
  | cons call rest ih =>
      obtain ⟨next, hnext, hkept, hnextIdle, hsent, hcount⟩ := h.step hidle call
      obtain ⟨final, hfinal, hfinalKept, hfinalIdle, hfinalSent, hfinalCount⟩ :=
        ih hkept hnextIdle
      refine ⟨final, Machine.exec_cons_eq_some.mpr ⟨next, hnext, hfinal⟩, hfinalKept, hfinalIdle,
        ?_, ?_⟩
      · rw [hfinalSent, hsent]
        cases call with
        | send m => simp [Call.message?, List.zipIdx_cons]
        | receive =>
            rw [List.filterMap_cons_none rfl]
            simp [Call.message?]
      · rw [hfinalCount, hcount, Nat.add_assoc, ← List.countP_append, List.singleton_append]

/-- What a sequence of calls has come to, with everything that happened to the queue on the way.
A receive that has not returned waits, and none waits while there is a message. -/
structure Orderly (priority : Q → ℤ) (maxlength : ℕ) (calls : List (Call Q))
    (final : Traffic Q) : Prop where
  chained : Chained [] final.events final.queue
  disciplined : ∀ event ∈ final.events,
    Performed priority maxlength event ∧ Disciplined priority maxlength event
  sent : final.events.filterMap Event.sent? = (calls.filterMap Call.message?).zipIdx.map Prod.swap
  received : final.events.filterMap Event.returned? = final.received
  answered : final.received.length + final.waiting = calls.countP Call.isReceive
  idle : final.waiting ≠ 0 → final.queue = []
  ready : final.queue ≠ [] → ∃ message next,
    final.step priority maxlength .receive = some next ∧
      next.received = final.received ++ [message] ∧ Foremost priority final.queue message ∧
      RemovedFrom final.queue next.queue message
  complete : maxlength = 0 →
    (final.received ++ final.queue).Perm (final.events.filterMap Event.sent?)

/-- Over every sequence of sends and receives, no receive reads an empty queue, the queue
keeps its bound, a send drops a message only to keep it, and then the earliest of the lowest
priority, a receive returns the earliest of the highest priority as soon as there is a message,
and without a bound every message sent has been received once or is in the queue. -/
theorem queue_discipline (priority : Q → ℤ) (maxlength : ℕ) (calls : List (Call Q)) :
    ∃ final, Machine.exec (Traffic.step priority maxlength) Traffic.start calls = some final ∧
      Orderly priority maxlength calls final := by
  obtain ⟨final, hexec, hkept, hidle, hsent, hcount⟩ :=
    exec_disciplined calls (kept_start priority maxlength) fun hwaiting => absurd rfl hwaiting
  have hcalls : final.events.filterMap Event.sent? =
      (calls.filterMap Call.message?).zipIdx.map Prod.swap := hkept.sent.trans hsent
  refine ⟨final, hexec, hkept.chained, hkept.events, hcalls, hkept.received, ?_, hidle, ?_, ?_⟩
  · rw [hcount]
    exact Nat.zero_add _
  · intro hready
    obtain ⟨message, rest, hnext, -, hforemost, hremoved⟩ := hkept.deliver hready
    refine ⟨message, final.give (message, rest), ?_, rfl, hforemost, hremoved⟩
    exact (if_pos ((ready_iff (ofNumbered priority) maxlength _).mpr hready)).trans hnext
  · rw [hkept.sent]
    exact hkept.complete

/-- A receive waits for the first of three sends, and the next one takes the later message of
the higher priority. -/
theorem queue_discipline_three :
    ∃ final, Machine.exec (Traffic.step (fun m : ℤ => m) 0) Traffic.start
        [.receive, .send 1, .send 1, .send 2, .receive] = some final ∧
      Orderly (fun m : ℤ => m) 0 [.receive, .send 1, .send 1, .send 2, .receive] final ∧
      final.received = [(0, 1), (2, 2)] := by
  obtain ⟨final, hexec, horderly⟩ := queue_discipline (fun m : ℤ => m) 0
    [.receive, .send 1, .send 1, .send 2, .receive]
  have hreceived : (Machine.exec (Traffic.step (fun m : ℤ => m) 0) Traffic.start
      [.receive, .send 1, .send 1, .send 2, .receive]).map Traffic.received =
        some [(0, 1), (2, 2)] := by
    decide +kernel
  rw [hexec, Option.map_some, Option.some.injEq] at hreceived
  exact ⟨final, hexec, horderly, hreceived⟩

end Hat.MMessageQueue
