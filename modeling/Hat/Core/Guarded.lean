import Mathlib.Logic.Basic

/-!
# Calls that take a lock for their scope

A call works on data that one lock protects.  It may return a value, throw, stop for
good on a lock that its own thread holds, or leave the defined behaviour of the
language.  A scoped lock is released when its scope is left by a value or by an
exception.  The module gives the rules for what a call keeps, whatever way it ends,
and determines when a call under a scoped lock stops on that lock.
-/

namespace Hat.Guarded

variable {σ α β : Type}

/-- The ways in which a call fails to return a value. -/
inductive Fault
  | thrown
  /-- The thread waits for a lock that it holds itself. -/
  | blocked
  | undefined
  deriving DecidableEq

structure Service (σ : Type) where
  locked : Bool
  data : σ

abbrev Call (σ α : Type) := EStateM Fault (Service σ) α

namespace Call

def raise (fault : Fault) : Call σ α := fun service => .error fault service

def read : Call σ σ := fun service => .ok service.data service

def write (f : σ → σ) : Call σ Unit := fun service =>
  .ok () { service with data := f service.data }

/-- `none` is raised as the given fault. -/
def orRaise (fault : Fault) : Option α → Call σ α
  | some value => pure value
  | none => raise fault

/-- Run the body under the lock. -/
def underLock (body : Call σ α) : Call σ α := fun service =>
  if service.locked then .error .blocked service
  else match body { service with locked := true } with
    | .ok value after => .ok value { after with locked := false }
    | .error .thrown after => .error .thrown { after with locked := false }
    | .error fault after => .error fault after

/-- The state in which a call ends, whatever way it ends. -/
def final (call : Call σ α) (service : Service σ) : Service σ :=
  match call service with
  | .ok _ after => after
  | .error _ after => after

def fault (call : Call σ α) (service : Service σ) : Option Fault :=
  match call service with
  | .ok _ _ => none
  | .error fault _ => some fault

theorem bind_ok {call : Call σ α} {f : α → Call σ β} {service after : Service σ} {value : α}
    (h : call service = .ok value after) : (call >>= f) service = f value after := by
  simp only [bind, EStateM.bind, h]

theorem bind_error {call : Call σ α} {f : α → Call σ β} {service after : Service σ}
    {raised : Fault} (h : call service = .error raised after) :
    (call >>= f) service = .error raised after := by
  simp only [bind, EStateM.bind, h]

theorem fault_bind_of_fault {call : Call σ α} {f : α → Call σ β} {service : Service σ}
    {raised : Fault} (h : call.fault service = some raised) :
    (call >>= f).fault service = some raised := by
  rw [fault] at h ⊢
  cases hrun : call service with
  | ok value after =>
      rw [hrun] at h
      exact absurd h.symm (Option.some_ne_none raised)
  | error other after =>
      rw [hrun] at h
      rw [bind_error hrun]
      exact h

@[simp]
theorem read_bind (f : σ → Call σ β) (service : Service σ) :
    (read >>= f) service = f service.data service := rfl

@[simp]
theorem write_bind (g : σ → σ) (f : Unit → Call σ β) (service : Service σ) :
    (write g >>= f) service = f () { service with data := g service.data } := rfl

@[simp]
theorem orRaise_some_bind (raised : Fault) (value : α) (f : α → Call σ β) (service : Service σ) :
    (orRaise raised (some value) >>= f) service = f value service := rfl

@[simp]
theorem orRaise_none_bind (raised : Fault) (f : α → Call σ β) (service : Service σ) :
    (orRaise raised none >>= f) service = .error raised service := rfl

/-- The invariant survives the call, whatever way it ends. -/
def Keeps (I : Service σ → Prop) (call : Call σ α) : Prop :=
  ∀ service, I service → I (call.final service)

variable {I : Service σ → Prop}

theorem Keeps.pure (value : α) : Keeps I (pure value : Call σ α) := fun _ h => h

theorem Keeps.raise (raised : Fault) : Keeps I (raise raised : Call σ α) := fun _ h => h

theorem Keeps.raise_bind (raised : Fault) (f : α → Call σ β) :
    Keeps I ((Call.raise raised : Call σ α) >>= f) := fun _ h => h

theorem Keeps.read : Keeps I (read : Call σ σ) := fun _ h => h

theorem Keeps.orRaise (raised : Fault) (value : Option α) :
    Keeps I (orRaise raised value : Call σ α) := by
  cases value with
  | none => exact Keeps.raise raised
  | some value => exact Keeps.pure value

theorem Keeps.write {g : σ → σ}
    (h : ∀ service, I service → I { service with data := g service.data }) :
    Keeps I (write g) := h

theorem Keeps.bind {call : Call σ α} {f : α → Call σ β} (hcall : Keeps I call)
    (hf : ∀ value, Keeps I (f value)) : Keeps I (call >>= f) := by
  intro service h
  have hafter := hcall service h
  rw [final] at hafter ⊢
  cases hrun : call service with
  | ok value after =>
      rw [hrun] at hafter
      rw [bind_ok hrun]
      exact hf value after hafter
  | error raised after =>
      rw [hrun] at hafter
      rw [bind_error hrun]
      exact hafter

theorem Keeps.ite {p : Prop} [Decidable p] {first second : Call σ α} (hfirst : Keeps I first)
    (hsecond : Keeps I second) : Keeps I (if p then first else second) := by
  split
  · exact hfirst
  · exact hsecond

/-- A scoped lock keeps what does not depend on the lock. -/
theorem Keeps.underLock {body : Call σ α} (hlock : ∀ service locked, I service →
    I { service with locked := locked }) (hbody : Keeps I body) : Keeps I (underLock body) := by
  intro service h
  rw [final, Call.underLock]
  by_cases hlocked : service.locked = true
  · rw [if_pos hlocked]
    exact h
  · rw [if_neg hlocked]
    have hafter := hbody _ (hlock service true h)
    rw [final] at hafter
    cases hrun : body { service with locked := true } with
    | ok value after =>
        rw [hrun] at hafter
        exact hlock after false hafter
    | error raised after =>
        rw [hrun] at hafter
        cases raised with
        | thrown => exact hlock after false hafter
        | blocked => exact hafter
        | undefined => exact hafter

/-- The call leaves the lock alone. -/
def Unlocking (call : Call σ α) : Prop :=
  ∀ service, (call.final service).locked = service.locked ∧ call.fault service ≠ some .blocked

theorem Unlocking.pure (value : α) : Unlocking (pure value : Call σ α) :=
  fun _ => ⟨rfl, Option.some_ne_none _ ∘ Eq.symm⟩

theorem Unlocking.raise {raised : Fault} (h : raised ≠ .blocked) :
    Unlocking (raise raised : Call σ α) :=
  fun _ => ⟨rfl, fun heq => h (Option.some.inj heq)⟩

theorem Unlocking.read : Unlocking (read : Call σ σ) :=
  fun _ => ⟨rfl, Option.some_ne_none _ ∘ Eq.symm⟩

theorem Unlocking.write (g : σ → σ) : Unlocking (write g) :=
  fun _ => ⟨rfl, Option.some_ne_none _ ∘ Eq.symm⟩

theorem Unlocking.orRaise {raised : Fault} (h : raised ≠ .blocked) (value : Option α) :
    Unlocking (orRaise raised value : Call σ α) := by
  cases value with
  | none => exact Unlocking.raise h
  | some value => exact Unlocking.pure value

theorem Unlocking.bind {call : Call σ α} {f : α → Call σ β} (hcall : Unlocking call)
    (hf : ∀ value, Unlocking (f value)) : Unlocking (call >>= f) := by
  intro service
  have hafter := hcall service
  rw [final, fault] at hafter ⊢
  cases hrun : call service with
  | ok value after =>
      rw [hrun] at hafter
      rw [bind_ok hrun, ← hafter.1]
      exact hf value after
  | error raised after =>
      rw [hrun] at hafter
      rw [bind_error hrun]
      exact hafter

theorem Unlocking.ite {p : Prop} [Decidable p] {first second : Call σ α}
    (hfirst : Unlocking first) (hsecond : Unlocking second) :
    Unlocking (if p then first else second) := by
  split
  · exact hfirst
  · exact hsecond

/-- Under the lock of its own thread a scoped call stops at once. -/
theorem underLock_of_locked (body : Call σ α) {service : Service σ} (h : service.locked = true) :
    underLock body service = .error .blocked service := if_pos h

theorem fault_underLock {body : Call σ α} {service : Service σ} (h : service.locked = false) :
    (underLock body).fault service = body.fault { service with locked := true } := by
  rw [fault, fault, underLock, if_neg (by rw [h]; exact Bool.false_ne_true)]
  cases body { service with locked := true } with
  | ok value after => rfl
  | error raised after => cases raised <;> rfl

/-- The lock aside, a scoped call does what its body does. -/
theorem data_final_underLock {body : Call σ α} {service : Service σ}
    (h : service.locked = false) :
    ((underLock body).final service).data =
      (body.final { service with locked := true }).data := by
  rw [final, final, underLock, if_neg (by rw [h]; exact Bool.false_ne_true)]
  cases body { service with locked := true } with
  | ok value after => rfl
  | error raised after => cases raised <;> rfl

/-- A call that does not stop and stays within the defined behaviour gives the lock back. -/
theorem locked_final_underLock {body : Call σ α} {service : Service σ} (h : service.locked = false)
    (hblocked : (underLock body).fault service ≠ some .blocked)
    (hundefined : (underLock body).fault service ≠ some .undefined) :
    ((underLock body).final service).locked = false := by
  rw [fault_underLock h, fault] at hblocked hundefined
  rw [final, underLock, if_neg (by rw [h]; exact Bool.false_ne_true)]
  cases hrun : body { service with locked := true } with
  | ok value after => rfl
  | error raised after =>
      rw [hrun] at hblocked hundefined
      cases raised with
      | thrown => rfl
      | blocked => exact absurd rfl hblocked
      | undefined => exact absurd rfl hundefined

end Call

end Hat.Guarded
