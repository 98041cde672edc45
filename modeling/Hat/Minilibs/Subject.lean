import Hat.Core.Machine
import Mathlib.Data.List.Nodup

/-!
# The observers of a subject

A subject keeps pointers to its observers.  A removal goes over all of them, sets those
that match to null and erases the last one it met, and a null pointer that is left behind
is dereferenced by the next notification.  The module determines the sequences of calls
in which no pointer is null and none is kept twice.
-/

namespace Hat.Subject

/-- The observers as pointers, in order of registration; `none` is the null pointer. -/
abbrev Pointers (O : Type*) := List (Option O)

variable {O : Type*}

/-- The position of the last match. -/
def lastPos (found : Option O → Bool) : Pointers O → Option ℕ
  | [] => none
  | pointer :: rest =>
      match lastPos found rest with
      | some pos => some (pos + 1)
      | none => if found pointer then some 0 else none

def mark (found : Option O → Bool) (observers : Pointers O) : Pointers O :=
  observers.map fun pointer => if found pointer then none else pointer

/-- The loop of both removals, and the erasure after it. -/
def sweep (found : Option O → Bool) (observers : Pointers O) : Pointers O :=
  match lastPos found observers with
  | some pos => (mark found observers).eraseIdx pos
  | none => mark found observers

theorem lastPos_eq_none {found : Option O → Bool} {observers : Pointers O} :
    lastPos found observers = none ↔ ∀ pointer ∈ observers, found pointer = false := by
  induction observers with
  | nil => exact iff_of_true rfl fun _ hmem => absurd hmem List.not_mem_nil
  | cons pointer rest ih =>
      rw [List.forall_mem_cons, ← ih, lastPos]
      cases lastPos found rest with
      | some pos => simp
      | none => simp

theorem mark_of_none {found : Option O → Bool} {observers : Pointers O}
    (hnone : ∀ pointer ∈ observers, found pointer = false) : mark found observers = observers := by
  rw [mark]
  calc observers.map (fun pointer => if found pointer then none else pointer)
      = observers.map id := by
        apply List.map_congr_left
        intro pointer hmem
        rw [hnone pointer hmem]
        rfl
    _ = observers := List.map_id observers

theorem sweep_of_none {found : Option O → Bool} {observers : Pointers O}
    (hnone : ∀ pointer ∈ observers, found pointer = false) : sweep found observers = observers := by
  rw [sweep, lastPos_eq_none.mpr hnone]
  exact mark_of_none hnone

/-- The last match is erased; one before it stays behind as a null pointer. -/
theorem sweep_cons (found : Option O → Bool) (pointer : Option O) (rest : Pointers O) :
    sweep found (pointer :: rest) =
      if found pointer ∧ ∀ other ∈ rest, found other = false then rest
      else (if found pointer then none else pointer) :: sweep found rest := by
  by_cases hnone : ∀ other ∈ rest, found other = false
  · have hmark : mark found rest = rest := mark_of_none hnone
    rw [mark] at hmark
    rw [sweep_of_none hnone, sweep, lastPos, lastPos_eq_none.mpr hnone, mark, List.map_cons, hmark]
    cases hfound : found pointer with
    | true =>
        simp only [if_true, true_and, List.eraseIdx_cons_zero]
        rw [if_pos hnone]
    | false => simp only [Bool.false_eq_true, if_false, false_and]
  · rw [if_neg fun h => hnone h.2, sweep, sweep, lastPos]
    cases hpos : lastPos found rest with
    | none => exact absurd (lastPos_eq_none.mp hpos) hnone
    | some pos => rfl

/-- With at most one match, that one is removed and the others stay in their order. -/
theorem sweep_of_countP_le {found : Option O → Bool} {observers : Pointers O}
    (hcount : observers.countP found ≤ 1) :
    sweep found observers = observers.filter fun pointer => !found pointer := by
  induction observers with
  | nil => rfl
  | cons pointer rest ih =>
      rw [List.countP_cons] at hcount
      rw [sweep_cons, List.filter_cons]
      by_cases hfound : found pointer = true
      · rw [if_pos hfound] at hcount
        have hrest : ∀ other ∈ rest, found other = false := by
          have hzero : rest.countP found = 0 := by omega
          intro other hother
          exact Bool.eq_false_iff.mpr (List.countP_eq_zero.mp hzero other hother)
        have hkept : rest.filter (fun pointer => !found pointer) = rest := by
          apply List.filter_eq_self.mpr
          intro other hother
          rw [hrest other hother]
          rfl
        rw [if_pos ⟨hfound, hrest⟩, hkept, hfound]
        rfl
      · rw [if_neg fun h => hfound h.1, if_neg hfound, ih (by omega), Bool.eq_false_iff.mpr hfound]
        rfl

/-- Of two matches, the first is left behind as a null pointer. -/
theorem none_mem_sweep {found : Option O → Bool} {observers : Pointers O}
    (hcount : 1 < observers.countP found) : none ∈ sweep found observers := by
  induction observers with
  | nil => exact absurd hcount (Nat.not_lt_zero 1)
  | cons pointer rest ih =>
      rw [List.countP_cons] at hcount
      rw [sweep_cons]
      by_cases hfound : found pointer = true
      · rw [if_pos hfound] at hcount
        have hmatch : ¬∀ other ∈ rest, found other = false := by
          intro hnone
          have hzero : rest.countP found = 0 := by
            apply List.countP_eq_zero.mpr
            intro other hother
            rw [hnone other hother]
            exact Bool.false_ne_true
          omega
        rw [if_neg fun h => hmatch h.2, if_pos hfound]
        exact List.mem_cons_self
      · rw [if_neg hfound] at hcount
        rw [if_neg fun h => hfound h.1]
        exact List.mem_cons_of_mem _ (ih hcount)

inductive PointerCall (O : Type*)
  | register (observer : Option O)
  | remove (observer : Option O)
  | removeId (id : String)
  | notify

section

variable [DecidableEq O]

def isNotRegistered (observer : Option O) (observers : Pointers O) : Bool :=
  observers.all fun pointer => pointer ≠ observer

/-- The comparison of `remove_observer` with an identifier. -/
def hasId (ident : O → String) (id : String) (pointer : Option O) : Bool :=
  pointer.any fun observer => ident observer = id

/-- A removal by identifier and a notification dereference every pointer; a null pointer
among them has no next state. -/
def step (ident : O → String) (observers : Pointers O) : PointerCall O → Option (Pointers O)
  | .register observer =>
      some (if isNotRegistered observer observers then observers ++ [observer] else observers)
  | .remove observer => some (sweep (fun pointer => pointer = observer) observers)
  | .removeId id => if none ∈ observers then none else some (sweep (hasId ident id) observers)
  | .notify => if none ∈ observers then none else some observers

/-! ## Well-formed lists -/

/-- No pointer is null and none is there twice. -/
structure WellFormed (observers : Pointers O) : Prop where
  notNull : none ∉ observers
  nodup : observers.Nodup

variable (ident : O → String)

/-- A removal by identifier removes the observers that have it and keeps the others in
their order. -/
def RemovesId (observers : Pointers O) : PointerCall O → Prop
  | .removeId id => ∀ next, step ident observers (.removeId id) = some next →
      next = observers.filter fun pointer => !hasId ident id pointer
  | .register _ => True
  | .remove _ => True
  | .notify => True

/-- A null pointer is not registered, and an identifier is not removed while two observers
have it. -/
def Sound (observers : Pointers O) : PointerCall O → Prop
  | .register observer => observer ≠ none
  | .removeId id => observers.countP (hasId ident id) ≤ 1
  | _ => True

theorem isNotRegistered_iff (observer : Option O) (observers : Pointers O) :
    isNotRegistered observer observers = true ↔ observer ∉ observers := by
  rw [isNotRegistered, List.all_eq_true]
  constructor
  · intro hall hmem
    exact of_decide_eq_true (hall observer hmem) rfl
  · intro hnew pointer hmem
    exact decide_eq_true fun heq => hnew (heq ▸ hmem)

variable {ident}

omit [DecidableEq O] in
theorem WellFormed.sublist {observers kept : Pointers O} (h : WellFormed observers)
    (hkept : kept.Sublist observers) : WellFormed kept :=
  ⟨fun hmem => h.notNull (hkept.subset hmem), h.nodup.sublist hkept⟩

theorem WellFormed.register_iff {observers : Pointers O} (h : WellFormed observers)
    (observer : Option O) :
    (∀ next, step ident observers (.register observer) = some next → WellFormed next) ↔
      observer ≠ none := by
  rw [step]
  constructor
  · rintro hkept rfl
    rw [if_pos ((isNotRegistered_iff none observers).mpr h.notNull)] at hkept
    exact (hkept _ rfl).notNull (List.mem_append_right observers List.mem_cons_self)
  · intro hne next hnext
    rw [← Option.some.inj hnext]
    split
    · rename_i hnew
      rw [isNotRegistered_iff] at hnew
      constructor
      · rw [List.mem_append, List.mem_singleton, not_or]
        exact ⟨h.notNull, hne.symm⟩
      · rw [← List.concat_eq_append]
        exact List.Nodup.concat hnew h.nodup
    · exact h

/-- Every pointer is there at most once, so a removal by pointer leaves no null pointer. -/
theorem WellFormed.remove {observers : Pointers O} (h : WellFormed observers)
    (observer : Option O) {next : Pointers O}
    (hnext : step ident observers (.remove observer) = some next) : WellFormed next := by
  have hcount : observers.countP (fun pointer => pointer = observer) ≤ 1 := by
    have hsame : observers.countP (fun pointer => pointer = observer) =
        observers.count observer := by
      rw [List.count_eq_countP]
      apply congrArg (fun found => observers.countP found)
      funext pointer
      exact (beq_eq_decide pointer observer).symm
    rw [hsame]
    exact List.nodup_iff_count_le_one.mp h.nodup observer
  rw [← Option.some.inj hnext, sweep_of_countP_le hcount]
  exact h.sublist List.filter_sublist

theorem WellFormed.removeId_iff {observers : Pointers O} (h : WellFormed observers)
    (id : String) :
    (RemovesId ident observers (.removeId id) ∧
      ∀ next, step ident observers (.removeId id) = some next → WellFormed next) ↔
        observers.countP (hasId ident id) ≤ 1 := by
  rw [RemovesId, step, if_neg h.notNull]
  constructor
  · rintro ⟨-, hkept⟩
    by_contra hcount
    exact (hkept _ rfl).notNull (none_mem_sweep (Nat.lt_of_not_le hcount))
  · intro hcount
    have hfilter := sweep_of_countP_le hcount
    refine ⟨fun next hnext => ?_, fun next hnext => ?_⟩
    · rw [← Option.some.inj hnext, hfilter]
    · rw [← Option.some.inj hnext, hfilter]
      exact h.sublist List.filter_sublist

/-- What a call does to a well-formed list. -/
theorem WellFormed.call_iff {observers : Pointers O} (h : WellFormed observers)
    (call : PointerCall O) :
    (RemovesId ident observers call ∧
      ∀ next, step ident observers call = some next → WellFormed next) ↔
        Sound ident observers call := by
  cases call with
  | register observer =>
      rw [RemovesId, true_and]
      exact h.register_iff observer
  | remove observer =>
      rw [RemovesId, true_and]
      exact iff_of_true (fun next hnext => h.remove observer hnext) trivial
  | removeId id => exact h.removeId_iff id
  | notify =>
      rw [RemovesId, true_and, step, if_neg h.notNull]
      refine iff_of_true (fun next hnext => ?_) trivial
      rw [← Option.some.inj hnext]
      exact h

/-- Throughout a sequence of calls no pointer is null and none is kept twice, and every
removal by identifier removes those that have it and no others, exactly when no null pointer
is registered and no identifier is removed that two observers have. -/
theorem wellFormed_iff (ident : O → String) (calls : List (PointerCall O)) :
    (Machine.Always (step ident) WellFormed [] calls ∧
      Machine.Along (step ident) (RemovesId ident) [] calls) ↔
        Machine.Along (step ident) (Sound ident) [] calls := by
  have hempty : WellFormed ([] : Pointers O) := ⟨List.not_mem_nil, List.nodup_nil⟩
  have hguarded : Machine.Along (step ident) (fun observers call =>
      RemovesId ident observers call ∧
        ∀ next, step ident observers call = some next → WellFormed next) [] calls ↔
          Machine.Along (step ident) (Sound ident) [] calls := by
    apply Machine.along_iff_of_guarded (I := WellFormed)
    · exact fun observers call h => h.call_iff call
    · exact fun observers call next h hsound hnext => ((h.call_iff call).mpr hsound).2 next hnext
    · exact hempty
  rw [← hguarded, Machine.always_iff_along_next]
  constructor
  · rintro ⟨⟨-, hkept⟩, hremoves⟩
    exact hremoves.and hkept
  · intro h
    exact ⟨⟨hempty, h.mono fun _ _ => And.right⟩, h.mono fun _ _ => And.left⟩

/-- Two observers have one identifier: a null pointer is left behind. -/
theorem not_wellFormed_sharedId :
    ¬(Machine.Always (step fun _ => "gui") WellFormed ([] : Pointers ℕ)
        [.register (some 0), .register (some 1), .removeId "gui"] ∧
      Machine.Along (step fun _ => "gui") (RemovesId fun _ => "gui") ([] : Pointers ℕ)
        [.register (some 0), .register (some 1), .removeId "gui"]) := by
  rintro ⟨hwell, -⟩
  have hlast : Machine.exec (step fun _ => "gui") ([] : Pointers ℕ)
      [.register (some 0), .register (some 1), .removeId "gui"] = some [none] := by
    decide
  exact (hwell.last hlast).notNull List.mem_cons_self

end

end Hat.Subject
