import Hat.Core.DelayLine
import Hat.Manager.EventCounter

/-!
# The queue of delayed messages

The queue keeps the place and the deadline of the message that is due first.  Both are found
anew whenever a message comes in or goes out, so the place is always one of the queue.
-/

namespace Hat

open Hat.Hsrv

namespace DelayQueue

theorem deadlineUpdate_eq (env : Env) (queue : DelayQueue) :
    deadlineUpdate env queue =
      { queue with
        nextDeadline := (firstMin (MMessage.getDouble env "time") queue.messages).1
        nextMessage := (firstMin (MMessage.getDouble env "time") queue.messages).2 } := by
  rw [deadlineUpdate, firstMin]
  congr 3
  all_goals
    funext best entry
    cases best.1 <;> rfl

/-- The place of the next message lies in the queue. -/
def Indexed (queue : DelayQueue) : Prop :=
  queue.messages ≠ [] → queue.nextMessage < queue.messages.length

theorem indexed_deadlineUpdate (env : Env) (queue : DelayQueue) :
    (deadlineUpdate env queue).Indexed := by
  rw [deadlineUpdate_eq]
  intro hne
  obtain ⟨_, -, hfirst⟩ := isFirstMin_firstMin (MMessage.getDouble env "time") hne
  exact hfirst.lt_length

/-- A message is due: there is one, and the deadline that the queue keeps has passed. -/
def isDue (env : Env) (queue : DelayQueue) : Bool :=
  !queue.messages.isEmpty && queue.hasPassed env

theorem messageGet_of_not_isDue {env : Env} {queue : DelayQueue} (h : queue.isDue env = false) :
    queue.messageGet env = (none, queue) := by
  rw [isDue, Bool.and_eq_false_iff] at h
  rw [messageGet]
  rcases h with hempty | hpassed
  · rw [if_pos (by simpa using hempty)]
  · rw [hpassed]
    simp

theorem messageGet_of_isDue {env : Env} {queue : DelayQueue} (hindexed : queue.Indexed)
    (h : queue.isDue env = true) :
    ∃ message, queue.messages[queue.nextMessage]? = some message ∧
      queue.messageGet env = (some (message.addDouble "time" env.gettime),
        deadlineUpdate env
          { queue with messages := queue.messages.eraseIdx queue.nextMessage }) := by
  rw [isDue, Bool.and_eq_true] at h
  have hne : queue.messages ≠ [] := by simpa using h.1
  have hmessage := List.getElem?_eq_getElem (hindexed hne)
  refine ⟨_, hmessage, ?_⟩
  rw [messageGet, if_neg hne, if_pos h.2, hmessage]

theorem isSome_messageGet (env : Env) {queue : DelayQueue} (hindexed : queue.Indexed) :
    (queue.messageGet env).1.isSome = queue.isDue env := by
  cases hdue : queue.isDue env with
  | false => rw [messageGet_of_not_isDue hdue]; rfl
  | true =>
      obtain ⟨message, -, hget⟩ := messageGet_of_isDue hindexed hdue
      rw [hget]
      rfl

theorem Indexed.messageGet {env : Env} {queue : DelayQueue} (hindexed : queue.Indexed) :
    (queue.messageGet env).2.Indexed := by
  cases hdue : queue.isDue env with
  | false => rw [messageGet_of_not_isDue hdue]; exact hindexed
  | true =>
      obtain ⟨message, -, hget⟩ := messageGet_of_isDue hindexed hdue
      rw [hget]
      exact indexed_deadlineUpdate env _

theorem Indexed.messageAppend {env : Env} {queue : DelayQueue} (hindexed : queue.Indexed)
    (message : MMessage) : (queue.messageAppend env message).2.2.Indexed := by
  rw [DelayQueue.messageAppend]
  split_ifs
  · exact hindexed
  · exact indexed_deadlineUpdate env _

end DelayQueue

end Hat
