import Mathlib.Data.List.Basic
import Mathlib.Order.Basic

/-!
# Runs of partial step functions

A component is given by a step function that either refuses an action or yields
the next state.  This module defines its runs, the requirement that every action
of a run meets a condition on the state it is taken from, and the induction rules
used for whole runs: one for invariants, and one for exact guards, where a property
of every step, or of every state, is equivalent to a condition on every step.
-/

namespace Hat.Machine

variable {σ α : Type*} {step : σ → α → Option σ}

/-- The state after a list of actions, if none of them is refused. -/
def exec (step : σ → α → Option σ) : σ → List α → Option σ
  | state, [] => some state
  | state, action :: rest =>
      (step state action).bind fun next => exec step next rest

/-- `P` holds of every action that is tried, in the state it is tried from. -/
def Along (step : σ → α → Option σ) (P : σ → α → Prop) : σ → List α → Prop
  | _, [] => True
  | state, action :: rest =>
      P state action ∧ ∀ next, step state action = some next → Along step P next rest

/-- `Q` holds of every state of the run, the first and the last included. -/
def Always (step : σ → α → Option σ) (Q : σ → Prop) : σ → List α → Prop
  | state, [] => Q state
  | state, action :: rest =>
      Q state ∧ ∀ next, step state action = some next → Always step Q next rest

/-- A step function that refuses no action. -/
def total (next : σ → α → σ) : σ → α → Option σ :=
  fun state action => some (next state action)

@[simp]
theorem exec_nil (state : σ) : exec step state [] = some state := rfl

theorem exec_cons (state : σ) (action : α) (rest : List α) :
    exec step state (action :: rest) =
      (step state action).bind fun next => exec step next rest := rfl

theorem exec_cons_eq_some {state final : σ} {action : α} {rest : List α} :
    exec step state (action :: rest) = some final ↔
      ∃ next, step state action = some next ∧ exec step next rest = some final := by
  rw [exec_cons, Option.bind_eq_some_iff]

/-- What holds of the first state and is kept by every step holds of the last
state of a run. -/
theorem exec_invariant {I : σ → Prop}
    (hstep : ∀ state action next, I state → step state action = some next → I next)
    {state final : σ} {actions : List α} (hstate : I state)
    (hexec : exec step state actions = some final) : I final := by
  induction actions generalizing state with
  | nil =>
      rw [exec_nil, Option.some.injEq] at hexec
      exact hexec ▸ hstate
  | cons action rest ih =>
      obtain ⟨next, hnext, hrest⟩ := exec_cons_eq_some.mp hexec
      exact ih (hstep state action next hstate hnext) hrest

theorem Along.mono {P Q : σ → α → Prop} (hPQ : ∀ state action, P state action → Q state action)
    {state : σ} {actions : List α} (hP : Along step P state actions) :
    Along step Q state actions := by
  induction actions generalizing state with
  | nil => trivial
  | cons action rest ih =>
      exact ⟨hPQ state action hP.1, fun next hnext => ih (hP.2 next hnext)⟩

theorem Along.and {P Q : σ → α → Prop} {state : σ} {actions : List α}
    (hP : Along step P state actions) (hQ : Along step Q state actions) :
    Along step (fun state action => P state action ∧ Q state action) state actions := by
  induction actions generalizing state with
  | nil => trivial
  | cons action rest ih =>
      exact ⟨⟨hP.1, hQ.1⟩, fun next hnext => ih (hP.2 next hnext) (hQ.2 next hnext)⟩

instance decidableAlong {P : σ → α → Prop} [∀ state action, Decidable (P state action)] :
    (state : σ) → (actions : List α) → Decidable (Along step P state actions)
  | _, [] => isTrue trivial
  | state, action :: rest =>
      match hstep : step state action with
      | none => decidable_of_iff (P state action) (by simp [Along, hstep])
      | some next =>
          haveI : Decidable (Along step P next rest) := decidableAlong next rest
          decidable_of_iff (P state action ∧ Along step P next rest) (by simp [Along, hstep])

/-- A property that an invariant implies at every step holds along every run. -/
theorem along_of_invariant {I : σ → Prop} {P : σ → α → Prop}
    (hstep : ∀ state action next, I state → step state action = some next → I next)
    (hP : ∀ state action, I state → P state action)
    {state : σ} (actions : List α) (hstate : I state) : Along step P state actions := by
  induction actions generalizing state with
  | nil => trivial
  | cons action rest ih =>
      exact ⟨hP state action hstate, fun next hnext => ih (hstep state action next hstate hnext)⟩

/-- A condition on every step that keeps an invariant, under which it implies a
property of the step, gives the property along the run. -/
theorem Along.imp_of_guarded {I : σ → Prop} {C P : σ → α → Prop}
    (hP : ∀ state action, I state → C state action → P state action)
    (hstep : ∀ state action next, I state → C state action →
      step state action = some next → I next)
    {state : σ} {actions : List α} (hstate : I state)
    (hC : Along step C state actions) : Along step P state actions := by
  induction actions generalizing state with
  | nil => trivial
  | cons action rest ih =>
      refine ⟨hP state action hstate hC.1, fun next hnext => ?_⟩
      exact ih (hstep state action next hstate hC.1 hnext) (hC.2 next hnext)

/-- Exact guards: where an invariant makes a property of a step equivalent to a
condition on it, and the condition keeps the invariant, the property holds along
a run exactly when the condition does. -/
theorem along_iff_of_guarded {I : σ → Prop} {C P : σ → α → Prop}
    (hiff : ∀ state action, I state → (P state action ↔ C state action))
    (hstep : ∀ state action next, I state → C state action →
      step state action = some next → I next)
    {state : σ} (actions : List α) (hstate : I state) :
    Along step P state actions ↔ Along step C state actions := by
  refine ⟨Along.imp_of_guarded (fun s a hI hP => (hiff s a hI).mp hP) ?_ hstate,
    Along.imp_of_guarded (fun s a hI hC => (hiff s a hI).mpr hC) hstep hstate⟩
  exact fun s a next hI hP hnext => hstep s a next hI ((hiff s a hI).mp hP) hnext

/-- A property of states holds throughout a run when it holds at the start and after every
step. -/
theorem always_iff_along_next {Q : σ → Prop} (state : σ) (actions : List α) :
    Always step Q state actions ↔
      Q state ∧ Along step (fun state action => ∀ next, step state action = some next → Q next)
        state actions := by
  induction actions generalizing state with
  | nil => exact (and_iff_left trivial).symm
  | cons action rest ih =>
      constructor
      · rintro ⟨hstate, hrest⟩
        refine ⟨hstate, fun next hnext => ((ih next).mp (hrest next hnext)).1, fun next hnext => ?_⟩
        exact ((ih next).mp (hrest next hnext)).2
      · rintro ⟨hstate, hkept, hrest⟩
        exact ⟨hstate, fun next hnext => (ih next).mpr ⟨hkept next hnext, hrest next hnext⟩⟩

theorem Always.mono {P Q : σ → Prop} (hPQ : ∀ state, P state → Q state) {state : σ}
    {actions : List α} (hP : Always step P state actions) : Always step Q state actions := by
  induction actions generalizing state with
  | nil => exact hPQ state hP
  | cons action rest ih => exact ⟨hPQ state hP.1, fun next hnext => ih (hP.2 next hnext)⟩

theorem Always.last {Q : σ → Prop} {state final : σ} {actions : List α}
    (hQ : Always step Q state actions) (hexec : exec step state actions = some final) :
    Q final := by
  induction actions generalizing state with
  | nil =>
      rw [exec_nil, Option.some.injEq] at hexec
      exact hexec ▸ hQ
  | cons action rest ih =>
      obtain ⟨next, hnext, hrest⟩ := exec_cons_eq_some.mp hexec
      exact ih (hQ.2 next hnext) hrest

/-- An invariant holds in every state of every run from a state that has it. -/
theorem always_of_invariant {I : σ → Prop}
    (hstep : ∀ state action next, I state → step state action = some next → I next)
    {state : σ} (actions : List α) (hstate : I state) : Always step I state actions := by
  induction actions generalizing state with
  | nil => exact hstate
  | cons action rest ih =>
      exact ⟨hstate, fun next hnext => ih (hstep state action next hstate hnext)⟩

/-- What the steps that meet a condition keep holds in every state of a run whose
steps all meet it. -/
theorem always_of_along {I : σ → Prop} {C : σ → α → Prop}
    (hstep : ∀ state action next, I state → C state action →
      step state action = some next → I next)
    {state : σ} {actions : List α} (hstate : I state) (hC : Along step C state actions) :
    Always step I state actions := by
  induction actions generalizing state with
  | nil => exact hstate
  | cons action rest ih =>
      refine ⟨hstate, fun next hnext => ?_⟩
      exact ih (hstep state action next hstate hC.1 hnext) (hC.2 next hnext)

/-- Exact guards for states: under an invariant of all steps, a step keeps `Q` exactly
when it meets the condition, so `Q` holds throughout a run exactly when every step
meets it. -/
theorem always_iff_along {I Q : σ → Prop} {C : σ → α → Prop}
    (hstep : ∀ state action next, I state → step state action = some next → I next)
    (hiff : ∀ state action, I state → Q state →
      ((∀ next, step state action = some next → Q next) ↔ C state action))
    {state : σ} (actions : List α) (hI : I state) (hQ : Q state) :
    Always step Q state actions ↔ Along step C state actions := by
  induction actions generalizing state with
  | nil => exact iff_of_true hQ trivial
  | cons action rest ih =>
      constructor
      · rintro ⟨_, hrest⟩
        have hnext : ∀ next, step state action = some next → Q next := by
          intro next heq
          cases rest with
          | nil => exact hrest next heq
          | cons _ _ => exact (hrest next heq).1
        refine ⟨(hiff state action hI hQ).mp hnext, fun next heq => ?_⟩
        exact (ih (hstep state action next hI heq) (hnext next heq)).mp (hrest next heq)
      · rintro ⟨hC, hrest⟩
        have hnext := (hiff state action hI hQ).mpr hC
        refine ⟨hQ, fun next heq => ?_⟩
        exact (ih (hstep state action next hI heq) (hnext next heq)).mpr (hrest next heq)

/-! ## What a run lets be seen -/

section

variable {ρ ω : Type*} {advance : σ → α → σ} {seen : σ → α → Option ω}

/-- What the actions of a run let be seen, one after the other. -/
def outputs (advance : σ → α → σ) (seen : σ → α → Option ω) : σ → List α → List ω
  | _, [] => []
  | state, action :: rest =>
      (seen state action).toList ++ outputs advance seen (advance state action) rest

variable {view : σ → ρ}

/-- Where a view of the state settles what is seen and how the view goes on, runs from
states of the same view let the same be seen. -/
theorem outputs_congr_of_view
    (hseen : ∀ state other action, view state = view other →
      seen state action = seen other action)
    (hadvance : ∀ state other action, view state = view other →
      view (advance state action) = view (advance other action))
    {state other : σ} (actions : List α) (hview : view state = view other) :
    outputs advance seen state actions = outputs advance seen other actions := by
  induction actions generalizing state other with
  | nil => rfl
  | cons action rest ih =>
      rw [outputs, outputs, hseen state other action hview, ih (hadvance state other action hview)]

/-- Silent actions: where they let nothing be seen and keep the view, leaving them out of
the run does not change what is seen. -/
theorem outputs_filter_of_silent {visible : α → Bool}
    (hseen : ∀ state other action, view state = view other →
      seen state action = seen other action)
    (hadvance : ∀ state other action, view state = view other →
      view (advance state action) = view (advance other action))
    (hnone : ∀ state action, visible action = false → seen state action = none)
    {state : σ} {actions : List α}
    (hsilent : Along (total advance) (fun state action =>
      visible action = false → view (advance state action) = view state) state actions) :
    outputs advance seen state (actions.filter visible) = outputs advance seen state actions := by
  induction actions generalizing state with
  | nil => rfl
  | cons action rest ih =>
      have hrest := ih (hsilent.2 (advance state action) rfl)
      cases haction : visible action with
      | true => rw [List.filter_cons_of_pos haction, outputs, outputs, hrest]
      | false =>
          rw [List.filter_cons_of_neg (by rw [haction]; exact Bool.false_ne_true), outputs,
            hnone state action haction, Option.toList_none, List.nil_append, ← hrest]
          exact outputs_congr_of_view hseen hadvance _ (hsilent.1 haction).symm

end

end Hat.Machine

/-!
# Runs on a clock

The actions of a run carry the time at which they are taken, and the state remembers the
time of the last one.  When the times never go back, no action of the run is earlier than
the state it is taken from.  What is known of every step of a run may be used wherever a
property of a step is compared with a condition on it.
-/

namespace Hat.Machine

variable {σ α τ : Type*} {step : σ → α → Option σ}

/-- Times that never go back give readings that are not before the last one. -/
theorem along_of_clock [Preorder τ] (now : σ → τ) (time : α → τ)
    (hnow : ∀ state action next, step state action = some next → now next = time action)
    {state : σ} {actions : List α}
    (hclock : (now state :: actions.map time).Pairwise fun earlier later => earlier ≤ later) :
    Along step (fun state action => now state ≤ time action) state actions := by
  induction actions generalizing state with
  | nil => trivial
  | cons action rest ih =>
      rw [List.map_cons] at hclock
      refine ⟨List.rel_of_pairwise_cons hclock List.mem_cons_self, fun next hnext => ?_⟩
      apply ih
      rw [hnow state action next hnext]
      exact hclock.of_cons

/-- Exact guards for runs every step of which is known to meet `G`. -/
theorem along_iff_within {I : σ → Prop} {G P C : σ → α → Prop}
    (hiff : ∀ state action, I state → G state action → (P state action ↔ C state action))
    (hstep : ∀ state action next, I state → G state action → C state action →
      step state action = some next → I next)
    {state : σ} {actions : List α} (hstate : I state) (hG : Along step G state actions) :
    Along step P state actions ↔ Along step C state actions := by
  have hguarded : Along step (fun state action => G state action ∧ P state action) state actions ↔
      Along step (fun state action => G state action ∧ C state action) state actions := by
    apply along_iff_of_guarded _ _ actions hstate
    · exact fun state action hI => and_congr_right fun hg => hiff state action hI hg
    · exact fun state action next hI hC => hstep state action next hI hC.1 hC.2
  constructor
  · exact fun hP => (hguarded.mp (hG.and hP)).mono fun _ _ h => h.2
  · exact fun hC => (hguarded.mpr (hG.and hC)).mono fun _ _ h => h.2

/-- An invariant of the steps that meet `G` and `C` holds in every state of a run whose
steps are known to meet `G` and all meet `C`. -/
theorem always_of_along_within {I : σ → Prop} {G C : σ → α → Prop}
    (hstep : ∀ state action next, I state → G state action → C state action →
      step state action = some next → I next)
    {state : σ} {actions : List α} (hstate : I state) (hG : Along step G state actions)
    (hC : Along step C state actions) : Always step I state actions := by
  apply always_of_along _ hstate (hG.and hC)
  exact fun state action next hI h => hstep state action next hI h.1 h.2

end Hat.Machine
