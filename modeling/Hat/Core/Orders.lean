import Mathlib.Data.List.Infix

/-!
# Orders to switches

Orders set switches to values one after the other, and a switch keeps the value of the
last order for it.  Two switches are interlocked against a value when at no moment, that
is after no prefix of the orders, both of them have it.
-/

namespace Hat.Orders

variable {α β : Type*} [DecidableEq α]

/-- The value of the last order for a switch, if there was one. -/
def last (switch : α) : List (α × β) → Option β
  | [] => none
  | order :: rest => (last switch rest).or (if order.1 = switch then some order.2 else none)

@[simp]
theorem last_nil (switch : α) : last switch ([] : List (α × β)) = none := rfl

theorem last_append (switch : α) (before after : List (α × β)) :
    last switch (before ++ after) = (last switch after).or (last switch before) := by
  induction before with
  | nil => rw [List.nil_append, last_nil, Option.or_none]
  | cons order rest ih => rw [List.cons_append, last, last, ih, Option.or_assoc]

@[simp]
theorem last_append_self (switch : α) (value : β) (before : List (α × β)) :
    last switch (before ++ [(switch, value)]) = some value := by
  simp [last_append, last]

theorem last_append_of_ne {switch : α} {order : α × β} (hne : order.1 ≠ switch)
    (before : List (α × β)) : last switch (before ++ [order]) = last switch before := by
  simp [last_append, last, hne]

/-- At no moment have both switches the value. -/
def Interlocked (on : β) (left right : α) (orders : List (α × β)) : Prop :=
  ∀ given, given <+: orders → ¬(last left given = some on ∧ last right given = some on)

variable {on : β} {left right : α} {orders : List (α × β)}

theorem interlocked_nil : Interlocked on left right [] := by
  intro given hgiven hboth
  rw [List.prefix_nil.mp hgiven, last_nil] at hboth
  exact Option.some_ne_none _ hboth.1.symm

theorem interlocked_comm : Interlocked on left right orders ↔ Interlocked on right left orders :=
  forall₂_congr fun _ _ => not_congr and_comm

theorem interlocked_append_singleton {order : α × β} :
    Interlocked on left right (orders ++ [order]) ↔
      Interlocked on left right orders ∧
        ¬(last left (orders ++ [order]) = some on ∧ last right (orders ++ [order]) = some on) := by
  constructor
  · intro h
    exact ⟨fun given hgiven => h given (hgiven.trans (List.prefix_append orders [order])),
      h _ (List.prefix_refl _)⟩
  · rintro ⟨hbefore, hafter⟩ given hgiven
    obtain rfl | hearlier := List.prefix_concat_iff.mp hgiven
    · exact hafter
    · exact hbefore given hearlier

/-- One of the two may be set to any other value. -/
theorem Interlocked.release (h : Interlocked on left right orders) {value : β}
    (hvalue : value ≠ on) : Interlocked on left right (orders ++ [(left, value)]) := by
  refine interlocked_append_singleton.mpr ⟨h, fun hboth => hvalue ?_⟩
  rw [last_append_self, Option.some.injEq] at hboth
  exact hboth.1

/-- One of the two may be set to the value while the other has not got it. -/
theorem Interlocked.engage (h : Interlocked on left right orders) (hne : left ≠ right)
    (hright : last right orders ≠ some on) (value : β) :
    Interlocked on left right (orders ++ [(left, value)]) := by
  refine interlocked_append_singleton.mpr ⟨h, fun hboth => hright ?_⟩
  rw [← hboth.2, last_append_of_ne hne]

/-- The other switch is released before the one is engaged. -/
theorem Interlocked.switch_over (h : Interlocked on left right orders) (hne : left ≠ right)
    {off : β} (hoff : off ≠ on) (value : β) :
    Interlocked on left right (orders ++ [(right, off), (left, value)]) := by
  have hreleased : Interlocked on left right (orders ++ [(right, off)]) :=
    interlocked_comm.mp ((interlocked_comm.mp h).release hoff)
  have hright : last right (orders ++ [(right, off)]) ≠ some on := by
    rw [last_append_self, ne_eq, Option.some.injEq]
    exact hoff
  have hengaged := hreleased.engage hne hright value
  rwa [List.append_assoc, List.singleton_append] at hengaged

theorem Interlocked.release_both (h : Interlocked on left right orders) {off : β}
    (hoff : off ≠ on) : Interlocked on left right (orders ++ [(left, off), (right, off)]) := by
  have hleft := interlocked_comm.mp (h.release hoff)
  have hboth := interlocked_comm.mp (hleft.release hoff)
  rwa [List.append_assoc, List.singleton_append] at hboth

end Hat.Orders
