import Mathlib.Data.Nat.Notation
import Mathlib.Data.Option.Basic

/-!
# While loops

A turn of a loop either leaves it, goes on with a new state, or fails.  A loop is run with a
number of turns that it may take, and gives its last state if it is left within them.
-/

namespace Hat.WhileLoop

variable {σ τ : Type*}

inductive Turn (σ : Type*)
  | exit
  | next (state : σ)
  | fault
  deriving DecidableEq

def Turn.map (f : σ → τ) : Turn σ → Turn τ
  | exit => exit
  | next state => next (f state)
  | fault => fault

def run (turn : σ → Turn σ) : ℕ → σ → Option σ
  | 0, state =>
      match turn state with
      | .exit => some state
      | .next _ => none
      | .fault => none
  | n + 1, state =>
      match turn state with
      | .exit => some state
      | .next after => run turn n after
      | .fault => none

variable {turn : σ → Turn σ} {state after last : σ}

theorem run_of_exit (hexit : turn state = .exit) (n : ℕ) : run turn n state = some state := by
  cases n <;> rw [run, hexit]

theorem run_of_fault (hfault : turn state = .fault) (n : ℕ) : run turn n state = none := by
  cases n <;> rw [run, hfault]

theorem run_succ_of_next (hnext : turn state = .next after) (n : ℕ) :
    run turn (n + 1) state = run turn n after := by
  rw [run, hnext]

/-- A loop is left at once, or goes on with one turn less. -/
theorem run_cases {n : ℕ} (hrun : run turn n state = some last) :
    (turn state = .exit ∧ last = state) ∨
      ∃ after m, turn state = .next after ∧ n = m + 1 ∧ run turn m after = some last := by
  cases hturn : turn state with
  | exit =>
      rw [run_of_exit hturn, Option.some.injEq] at hrun
      exact Or.inl ⟨rfl, hrun.symm⟩
  | next after =>
      cases n with
      | zero =>
          rw [run, hturn] at hrun
          exact absurd hrun (Option.some_ne_none _).symm
      | succ m =>
          rw [run_succ_of_next hturn] at hrun
          exact Or.inr ⟨after, m, rfl, rfl, hrun⟩
  | fault =>
      rw [run_of_fault hturn] at hrun
      exact absurd hrun (Option.some_ne_none _).symm

/-- A loop ends in a state in which it is left. -/
theorem exit_of_run {n : ℕ} (hrun : run turn n state = some last) : turn last = .exit := by
  induction n generalizing state with
  | zero =>
      rcases run_cases hrun with ⟨hexit, rfl⟩ | ⟨after, m, -, hm, -⟩
      · exact hexit
      · exact absurd hm (Nat.succ_ne_zero m).symm
  | succ n ih =>
      rcases run_cases hrun with ⟨hexit, rfl⟩ | ⟨after, m, -, hm, hrest⟩
      · exact hexit
      · exact ih (Nat.succ.inj hm ▸ hrest)

/-- A loop that is left within some turns is left within more of them. -/
theorem run_mono {n m : ℕ} (hrun : run turn n state = some last) (hle : n ≤ m) :
    run turn m state = some last := by
  induction n generalizing state m with
  | zero =>
      rcases run_cases hrun with ⟨hexit, rfl⟩ | ⟨after, k, -, hk, -⟩
      · exact run_of_exit hexit m
      · exact absurd hk (Nat.succ_ne_zero k).symm
  | succ n ih =>
      rcases run_cases hrun with ⟨hexit, rfl⟩ | ⟨after, k, hnext, hk, hrest⟩
      · exact run_of_exit hexit m
      · obtain rfl := Nat.succ.inj hk
        obtain ⟨m, rfl⟩ : ∃ k, m = k + 1 := ⟨m - 1, by omega⟩
        rw [run_succ_of_next hnext, ih hrest (Nat.le_of_succ_le_succ hle)]

/-- What each of several loops can do in some number of turns, all can do in one number. -/
theorem exists_forall_mem {β : Type*} {P : ℕ → β → Prop}
    (hmono : ∀ n m b, n ≤ m → P n b → P m b) {items : List β}
    (hitems : ∀ item ∈ items, ∃ n, P n item) : ∃ n, ∀ item ∈ items, P n item := by
  induction items with
  | nil => exact ⟨0, fun item hitem => absurd hitem List.not_mem_nil⟩
  | cons item rest ih =>
      obtain ⟨⟨n, hn⟩, hrest⟩ := List.forall_mem_cons.mp hitems
      obtain ⟨m, hm⟩ := ih hrest
      refine ⟨max n m, List.forall_mem_cons.mpr ⟨hmono _ _ _ (Nat.le_max_left n m) hn, ?_⟩⟩
      exact fun other hother => hmono _ _ _ (Nat.le_max_right n m) (hm other hother)

/-- A loop that can always go on never ends. -/
theorem run_eq_none {I : σ → Prop}
    (hnext : ∀ state, I state → ∃ after, turn state = .next after ∧ I after) (hstate : I state)
    (n : ℕ) : run turn n state = none := by
  induction n generalizing state with
  | zero =>
      obtain ⟨after, hafter, -⟩ := hnext state hstate
      rw [run, hafter]
  | succ n ih =>
      obtain ⟨after, hafter, hI⟩ := hnext state hstate
      rw [run_succ_of_next hafter, ih hI]

/-- Two loops that correspond turn by turn correspond as a whole. -/
theorem map_run {other : τ → Turn τ} {f : σ → τ}
    (hturn : ∀ state, (turn state).map f = other (f state)) (n : ℕ) (state : σ) :
    (run turn n state).map f = run other n (f state) := by
  induction n generalizing state with
  | zero =>
      have hstate := hturn state
      cases hcase : turn state with
      | exit =>
          rw [hcase] at hstate
          rw [run_of_exit hcase, run_of_exit hstate.symm, Option.map_some]
      | next after =>
          rw [hcase] at hstate
          rw [run, run, hcase, ← hstate]
          rfl
      | fault =>
          rw [hcase] at hstate
          rw [run_of_fault hcase, run_of_fault hstate.symm, Option.map_none]
  | succ n ih =>
      have hstate := hturn state
      cases hcase : turn state with
      | exit =>
          rw [hcase] at hstate
          rw [run_of_exit hcase, run_of_exit hstate.symm, Option.map_some]
      | next after =>
          rw [hcase] at hstate
          rw [run_succ_of_next hcase, run_succ_of_next hstate.symm]
          exact ih after
      | fault =>
          rw [hcase] at hstate
          rw [run_of_fault hcase, run_of_fault hstate.symm, Option.map_none]

end Hat.WhileLoop
