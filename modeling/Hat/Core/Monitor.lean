import Hat.Core.Machine
import Mathlib.Logic.Function.Basic

/-!
# Monitors with one condition variable

Any number of threads share data under a lock.  A producer puts an item, trims the
data and notifies one waiting thread; a consumer that finds the data not ready waits
and, once woken, goes on without testing again.  A thread may also wake up on its own.
The module proves mutual exclusion, and that every consumer that is about to take
finds the data ready exactly when every woken consumer does.
-/

namespace Hat.Monitor

open Function

variable {D I R Tid : Type*}

/-- What producers and consumers do with the shared data. -/
structure Protocol (D I R : Type*) where
  ready : D → Bool
  put : I → D → D
  trim : D → D
  /-- What is taken and what remains; `none` where taking is undefined. -/
  take : D → Option (R × D)

/-- Where a thread stands. -/
inductive Point (I R : Type*)
  | outside
  | putting (item : I)
  | trimming
  | notifying
  | leaving
  | testing
  | waiting
  | taking
  | returning (result : Option R)
  deriving DecidableEq

/-- The points at which a thread holds the lock. -/
def Point.inside : Point I R → Bool
  | .outside => false
  | .waiting => false
  | _ => true

def Point.isReturning : Point I R → Bool
  | .returning _ => true
  | _ => false

theorem Point.isReturning_iff {point : Point I R} :
    point.isReturning = true ↔ ∃ result, point = .returning result := by
  cases point <;> simp [isReturning]

inductive Move (Tid I R : Type*)
  | enter (item : I)
  | put (item : I)
  | trim
  | notify (woken : Option Tid)
  | leave
  | request
  | test
  | stir
  | wake
  | take
  | finish (result : Option R)

structure State (D I R Tid : Type*) where
  data : D
  owner : Option Tid
  /-- The threads in the wait set of the condition variable. -/
  waiters : List Tid
  point : Tid → Point I R

def start (data : D) : State D I R Tid := ⟨data, none, [], fun _ => .outside⟩

namespace State

variable (protocol : Protocol D I R)

/-- The moves that a thread can make.  A notification wakes a waiter if there is one. -/
def Enabled (state : State D I R Tid) (thread : Tid) : Move Tid I R → Prop
  | .enter _ => state.point thread = .outside ∧ state.owner = none
  | .put item => state.point thread = .putting item
  | .trim => state.point thread = .trimming
  | .notify none => state.point thread = .notifying ∧ state.waiters = []
  | .notify (some woken) => state.point thread = .notifying ∧ woken ∈ state.waiters
  | .leave => state.point thread = .leaving
  | .request => state.point thread = .outside ∧ state.owner = none
  | .test => state.point thread = .testing
  | .stir => state.point thread = .waiting ∧ thread ∈ state.waiters
  | .wake => state.point thread = .waiting ∧ thread ∉ state.waiters ∧ state.owner = none
  | .take => state.point thread = .taking
  | .finish result => state.point thread = .returning result

variable [DecidableEq Tid]

def goto (state : State D I R Tid) (thread : Tid) (point : Point I R) : State D I R Tid :=
  { state with point := update state.point thread point }

def next (state : State D I R Tid) (thread : Tid) : Move Tid I R → State D I R Tid
  | .enter item => { state with owner := some thread }.goto thread (.putting item)
  | .put item => { state with data := protocol.put item state.data }.goto thread .trimming
  | .trim => { state with data := protocol.trim state.data }.goto thread .notifying
  | .notify none => state.goto thread .leaving
  | .notify (some woken) =>
      { state with waiters := state.waiters.erase woken }.goto thread .leaving
  | .leave => { state with owner := none }.goto thread .outside
  | .request => { state with owner := some thread }.goto thread .testing
  | .test =>
      if protocol.ready state.data then state.goto thread .taking
      else { state with
        owner := none
        waiters := state.waiters ++ [thread] }.goto thread .waiting
  | .stir => { state with waiters := state.waiters.erase thread }
  | .wake => { state with owner := some thread }.goto thread .taking
  | .take =>
      let taken := protocol.take state.data
      { state with data := (taken.map Prod.snd).getD state.data }.goto thread
        (.returning (taken.map Prod.fst))
  | .finish _ => { state with owner := none }.goto thread .outside

instance [DecidableEq I] [DecidableEq R] (state : State D I R Tid) (thread : Tid) :
    (move : Move Tid I R) → Decidable (state.Enabled thread move)
  | .enter _ => inferInstanceAs (Decidable (_ ∧ _))
  | .put _ => inferInstanceAs (Decidable (_ = _))
  | .trim => inferInstanceAs (Decidable (_ = _))
  | .notify none => inferInstanceAs (Decidable (_ ∧ _))
  | .notify (some _) => inferInstanceAs (Decidable (_ ∧ _))
  | .leave => inferInstanceAs (Decidable (_ = _))
  | .request => inferInstanceAs (Decidable (_ ∧ _))
  | .test => inferInstanceAs (Decidable (_ = _))
  | .stir => inferInstanceAs (Decidable (_ ∧ _))
  | .wake => inferInstanceAs (Decidable (_ ∧ _ ∧ _))
  | .take => inferInstanceAs (Decidable (_ = _))
  | .finish _ => inferInstanceAs (Decidable (_ = _))

/-- A step of one thread. -/
def step [DecidableEq I] [DecidableEq R] (state : State D I R Tid)
    (action : Tid × Move Tid I R) : Option (State D I R Tid) :=
  if state.Enabled action.1 action.2 then some (state.next protocol action.1 action.2) else none

variable {protocol}

theorem step_eq_some [DecidableEq I] [DecidableEq R] {state following : State D I R Tid}
    {action : Tid × Move Tid I R} :
    state.step protocol action = some following ↔
      state.Enabled action.1 action.2 ∧ state.next protocol action.1 action.2 = following := by
  rw [step]
  split
  · rename_i henabled
    rw [Option.some.injEq, and_iff_right henabled]
  · rename_i hrefused
    simp [hrefused]

/-- A thread stands at a point under the lock exactly when it owns the lock. -/
def Exclusive (state : State D I R Tid) : Prop :=
  ∀ thread, (state.point thread).inside = true ↔ state.owner = some thread

omit [DecidableEq Tid] in
theorem exclusive_start (data : D) : Exclusive (start data : State D I R Tid) := by
  intro thread
  exact iff_of_false Bool.false_ne_true (Option.some_ne_none thread).symm

/-- A thread only moves itself. -/
theorem point_next_of_ne (state : State D I R Tid) {thread other : Tid} (hne : other ≠ thread)
    (move : Move Tid I R) : (state.next protocol thread move).point other = state.point other := by
  cases move with
  | notify woken => cases woken <;> exact update_of_ne hne _ _
  | stir => rfl
  | test =>
      simp only [next]
      split <;> exact update_of_ne hne _ _
  | _ => exact update_of_ne hne _ _

omit [DecidableEq Tid] in
/-- The lock belongs to the thread that moves, or to nobody, except when a waiter stirs. -/
theorem owner_of_enabled {state : State D I R Tid} (h : Exclusive state) {thread : Tid}
    {move : Move Tid I R} (henabled : state.Enabled thread move) (hmove : move ≠ .stir) :
    state.owner = none ∨ state.owner = some thread := by
  have hinside : (state.point thread).inside = true →
      state.owner = none ∨ state.owner = some thread := by
    intro hpoint
    exact Or.inr ((h thread).mp hpoint)
  cases move with
  | enter item => exact Or.inl henabled.2
  | request => exact Or.inl henabled.2
  | wake => exact Or.inl henabled.2.2
  | stir => exact absurd rfl hmove
  | notify woken => cases woken <;> exact hinside (congrArg Point.inside henabled.1)
  | _ => exact hinside (congrArg Point.inside henabled)

omit [DecidableEq Tid] in
/-- Another thread that stands under the lock can only see a waiter stir. -/
theorem eq_stir_of_inside {state : State D I R Tid} (h : Exclusive state) {thread other : Tid}
    (hne : other ≠ thread) (hinside : (state.point other).inside = true) {move : Move Tid I R}
    (henabled : state.Enabled thread move) : move = .stir := by
  by_contra hmove
  have howner := (h other).mp hinside
  rcases owner_of_enabled h henabled hmove with hnone | hsome
  · exact Option.some_ne_none other (howner.symm.trans hnone)
  · exact hne (Option.some.inj (howner.symm.trans hsome))

/-- After a move the lock belongs to the thread, if it stands under it, or to nobody. -/
theorem owner_next {state : State D I R Tid} (h : Exclusive state) {thread : Tid}
    {move : Move Tid I R} (henabled : state.Enabled thread move) (hmove : move ≠ .stir) :
    (state.next protocol thread move).owner =
      if ((state.next protocol thread move).point thread).inside then some thread else none := by
  have howner : (state.point thread).inside = true → state.owner = some thread := (h thread).mp
  cases move with
  | stir => exact absurd rfl hmove
  | notify woken =>
      have hsome := howner (by cases woken <;> exact congrArg Point.inside henabled.1)
      cases woken <;> simpa [next, goto, Point.inside] using hsome
  | test =>
      have hsome := howner (congrArg Point.inside henabled)
      simp only [next]
      split
      · simpa [goto, Point.inside] using hsome
      · simp [goto, Point.inside]
  | take => simpa [next, goto, Point.inside] using howner (congrArg Point.inside henabled)
  | put item => simpa [next, goto, Point.inside] using howner (congrArg Point.inside henabled)
  | trim => simpa [next, goto, Point.inside] using howner (congrArg Point.inside henabled)
  | _ => simp [next, goto, Point.inside]

theorem exclusive_next {state : State D I R Tid} (h : Exclusive state) {thread : Tid}
    {move : Move Tid I R} (henabled : state.Enabled thread move) :
    Exclusive (state.next protocol thread move) := by
  by_cases hmove : move = .stir
  · rw [hmove]
    exact h
  · intro other
    rw [owner_next h henabled hmove]
    by_cases hother : other = thread
    · rw [hother]
      split <;> simp_all
    · rw [point_next_of_ne state hother]
      constructor
      · intro hinside
        exact absurd (eq_stir_of_inside h hother hinside henabled) hmove
      · intro howner
        split at howner
        · exact absurd (Option.some.inj howner).symm hother
        · exact absurd howner.symm (Option.some_ne_none other)

/-- Every thread that is about to take finds the data ready. -/
def TakesReady (protocol : Protocol D I R) (state : State D I R Tid) : Prop :=
  ∀ thread, state.point thread = .taking → protocol.ready state.data = true

/-- A waiter that comes back from waiting finds the data ready. -/
def WakesReady (protocol : Protocol D I R) (state : State D I R Tid)
    (action : Tid × Move Tid I R) : Prop :=
  state.Enabled action.1 action.2 → action.2 = .wake → protocol.ready state.data = true

omit [DecidableEq Tid] in
theorem takesReady_start (data : D) :
    TakesReady protocol (start data : State D I R Tid) := by
  intro thread hpoint
  exact absurd hpoint (by rintro ⟨⟩)

/-- Only a test and a wake-up lead to taking. -/
theorem taking_next {state : State D I R Tid} {thread : Tid} {move : Move Tid I R}
    (henabled : state.Enabled thread move)
    (htaking : (state.next protocol thread move).point thread = .taking) :
    (state.next protocol thread move).data = state.data ∧
      (move = .wake ∨ protocol.ready state.data = true) := by
  cases move with
  | wake => exact ⟨rfl, Or.inl rfl⟩
  | stir => exact absurd (henabled.1.symm.trans htaking) (by rintro ⟨⟩)
  | notify woken => cases woken <;> simp [next, goto] at htaking
  | test =>
      by_cases hready : protocol.ready state.data = true
      · simp [next, goto, hready]
      · simp [next, goto, hready] at htaking
  | _ => simp [next, goto] at htaking

theorem takesReady_next_iff {state : State D I R Tid} (h : Exclusive state)
    (htakes : TakesReady protocol state) {thread : Tid} {move : Move Tid I R}
    (henabled : state.Enabled thread move) :
    TakesReady protocol (state.next protocol thread move) ↔
      (move = .wake → protocol.ready state.data = true) := by
  constructor
  · rintro hnext rfl
    exact hnext thread (update_self _ _ _)
  · intro hwake other htaking
    by_cases hother : other = thread
    · subst hother
      obtain ⟨hdata, hcase⟩ := taking_next henabled htaking
      rw [hdata]
      exact hcase.elim hwake id
    · rw [point_next_of_ne state hother] at htaking
      have hstir := eq_stir_of_inside h hother (congrArg Point.inside htaking) henabled
      rw [hstir]
      exact htakes other htaking

/-- Throughout a run, whoever is about to take finds the data ready exactly when every
thread that comes back from waiting does. -/
theorem takesReady_iff_wakesReady [DecidableEq I] [DecidableEq R] (data : D)
    (actions : List (Tid × Move Tid I R)) :
    Machine.Always (step protocol) (TakesReady protocol) (start data) actions ↔
      Machine.Along (step protocol) (WakesReady protocol) (start data) actions := by
  apply Machine.always_iff_along (I := Exclusive)
  · intro state action following h hstep
    obtain ⟨henabled, rfl⟩ := step_eq_some.mp hstep
    exact exclusive_next h henabled
  · intro state action h htakes
    constructor
    · intro hnext henabled
      have hfollowing := hnext _ (step_eq_some.mpr ⟨henabled, rfl⟩)
      exact (takesReady_next_iff h htakes henabled).mp hfollowing
    · intro hwake following hstep
      obtain ⟨henabled, rfl⟩ := step_eq_some.mp hstep
      exact (takesReady_next_iff h htakes henabled).mpr (hwake henabled)
  · exact exclusive_start data
  · exact takesReady_start data

/-! ## What the data carries -/

/-- Properties of the data, of the items put and of the results taken that the protocol
keeps. -/
structure Preserves (protocol : Protocol D I R) (J : D → Prop) (K : I → Prop) (L : R → Prop) :
    Prop where
  put : ∀ item data, K item → J data → J (protocol.put item data)
  trim : ∀ data, J data → J (protocol.trim data)
  take : ∀ data, J data → protocol.ready data = true →
    ∃ result rest, protocol.take data = some (result, rest) ∧ L result ∧ J rest

structure Carries (J : D → Prop) (K : I → Prop) (L : R → Prop) (state : State D I R Tid) :
    Prop where
  data : J state.data
  items : ∀ thread item, state.point thread = .putting item → K item
  results : ∀ thread result, state.point thread = .returning result →
    ∃ taken, result = some taken ∧ L taken

variable {J : D → Prop} {K : I → Prop} {L : R → Prop}

omit [DecidableEq Tid] in
theorem carries_start {data : D} (hdata : J data) :
    Carries J K L (start data : State D I R Tid) := by
  constructor
  · exact hdata
  · intro thread item hpoint
    exact absurd hpoint (by rintro ⟨⟩)
  · intro thread result hpoint
    exact absurd hpoint (by rintro ⟨⟩)

theorem data_next (hpreserves : Preserves protocol J K L) {state : State D I R Tid}
    (h : Carries J K L state) (htakes : TakesReady protocol state) {thread : Tid}
    {move : Move Tid I R} (henabled : state.Enabled thread move) :
    J (state.next protocol thread move).data := by
  cases move with
  | put item => exact hpreserves.put item state.data (h.items thread item henabled) h.data
  | trim => exact hpreserves.trim state.data h.data
  | notify woken => cases woken <;> exact h.data
  | test =>
      simp only [next]
      split <;> exact h.data
  | take =>
      obtain ⟨result, rest, htake, _, hrest⟩ :=
        hpreserves.take state.data h.data (htakes thread henabled)
      simpa [next, goto, htake] using hrest
  | _ => exact h.data

/-- A thread puts only what it has entered with. -/
theorem putting_next {state : State D I R Tid} {thread : Tid} {move : Move Tid I R}
    (henabled : state.Enabled thread move) {item : I}
    (hputting : (state.next protocol thread move).point thread = .putting item) :
    move = .enter item := by
  cases move with
  | enter entered => simpa [next, goto] using hputting
  | stir => exact absurd (henabled.1.symm.trans hputting) (by rintro ⟨⟩)
  | notify woken => cases woken <;> simp [next, goto] at hputting
  | test =>
      simp only [next] at hputting
      split at hputting <;> simp [goto] at hputting
  | _ => simp [next, goto] at hputting

/-- A thread returns only what it has just taken. -/
theorem returning_next {state : State D I R Tid} {thread : Tid} {move : Move Tid I R}
    (henabled : state.Enabled thread move) {result : Option R}
    (hreturning : (state.next protocol thread move).point thread = .returning result) :
    move = .take ∧ result = (protocol.take state.data).map Prod.fst := by
  cases move with
  | take =>
      refine ⟨rfl, ?_⟩
      simpa [next, goto, eq_comm] using hreturning
  | stir => exact absurd (henabled.1.symm.trans hreturning) (by rintro ⟨⟩)
  | notify woken => cases woken <;> simp [next, goto] at hreturning
  | test =>
      simp only [next] at hreturning
      split at hreturning <;> simp [goto] at hreturning
  | _ => simp [next, goto] at hreturning

theorem carries_next (hpreserves : Preserves protocol J K L) {state : State D I R Tid}
    (h : Carries J K L state) (htakes : TakesReady protocol state) {thread : Tid}
    {move : Move Tid I R} (henabled : state.Enabled thread move)
    (hentered : ∀ item, move = .enter item → K item) :
    Carries J K L (state.next protocol thread move) := by
  constructor
  · exact data_next hpreserves h htakes henabled
  · intro other item hputting
    by_cases hother : other = thread
    · subst hother
      exact hentered item (putting_next henabled hputting)
    · rw [point_next_of_ne state hother] at hputting
      exact h.items other item hputting
  · intro other result hreturning
    by_cases hother : other = thread
    · subst hother
      obtain ⟨rfl, rfl⟩ := returning_next henabled hreturning
      obtain ⟨taken, rest, htake, htaken, _⟩ :=
        hpreserves.take state.data h.data (htakes other henabled)
      exact ⟨taken, by rw [htake, Option.map_some], htaken⟩
    · rw [point_next_of_ne state hother] at hreturning
      exact h.results other result hreturning

end State

end Hat.Monitor
