import Mathlib.Algebra.Order.Group.Abs
import Mathlib.Data.List.Pairwise

/-!
# Debouncing by a window

A value follows the readings of a level, but for some time after each change it takes no
notice of them, and nothing is read again when that time is over.  The value ends at the
last level exactly when the readings fall into windows, the last of which ends at the level
that has opened it.  The changes of the value are always a window apart.
-/

namespace Hat

variable {T β : Type*} [AddCommGroup T] [LinearOrder T] [DecidableEq β]

/-- The value taken last, and the time until which no other is taken. -/
structure Debouncer (T β : Type*) where
  value : β
  waitUntil : T
  deriving DecidableEq

namespace Debouncer

/-- A reading is taken if the window is over and it differs from the value. -/
def Takes (d : Debouncer T β) (reading : T × β) : Prop :=
  d.waitUntil ≤ reading.1 ∧ reading.2 ≠ d.value

instance (d : Debouncer T β) (reading : T × β) : Decidable (d.Takes reading) :=
  inferInstanceAs (Decidable (_ ∧ _))

def read (window : T) (d : Debouncer T β) (reading : T × β) : Debouncer T β :=
  if d.Takes reading then ⟨reading.2, reading.1 + window⟩ else d

def run (window : T) (d : Debouncer T β) (readings : List (T × β)) : Debouncer T β :=
  readings.foldl (read window) d

/-- The times at which the value changes. -/
def times (window : T) : Debouncer T β → List (T × β) → List T
  | _, [] => []
  | d, reading :: rest =>
      if d.Takes reading then reading.1 :: times window (d.read window reading) rest
      else times window d rest

/-- The level after the readings. -/
def level (first : β) (readings : List (T × β)) : β := (readings.getLast?.map Prod.snd).getD first

/-- Readings that fall into windows: one opens after the last one is over and with another
level, and within the last one the level returns to that which has opened it. -/
inductive Clean (window : T) : Debouncer T β → List (T × β) → Prop
  | rests {d readings} (hinside : ∀ reading ∈ readings, ¬d.Takes reading)
      (hlevel : level d.value readings = d.value) : Clean window d readings
  | opens {d before reading after} (hinside : ∀ earlier ∈ before, ¬d.Takes earlier)
      (htakes : d.Takes reading) (hafter : Clean window ⟨reading.2, reading.1 + window⟩ after) :
      Clean window d (before ++ reading :: after)

variable {window : T} {d : Debouncer T β} {readings : List (T × β)}

omit [AddCommGroup T] [LinearOrder T] [DecidableEq β] in
theorem level_cons (first : β) (reading : T × β) (rest : List (T × β)) :
    level first (reading :: rest) = level reading.2 rest := by
  rw [level, List.getLast?_cons, level]
  cases rest.getLast? <;> rfl

omit [AddCommGroup T] [LinearOrder T] [DecidableEq β] in
theorem level_append (first : β) (before after : List (T × β)) :
    level first (before ++ after) = level (level first before) after := by
  induction before generalizing first with
  | nil => rfl
  | cons reading rest ih => rw [List.cons_append, level_cons, level_cons, ih]

theorem read_of_takes {reading : T × β} (htakes : d.Takes reading) :
    d.read window reading = ⟨reading.2, reading.1 + window⟩ := if_pos htakes

theorem run_of_inside (hinside : ∀ reading ∈ readings, ¬d.Takes reading) :
    d.run window readings = d := by
  induction readings with
  | nil => rfl
  | cons reading rest ih =>
      rw [List.forall_mem_cons] at hinside
      rw [run, List.foldl_cons, read, if_neg hinside.1]
      exact ih hinside.2

theorem Clean.value_run (h : Clean window d readings) :
    (d.run window readings).value = level d.value readings := by
  induction h with
  | rests hinside hlevel => rw [run_of_inside hinside, hlevel]
  | @opens d before reading after hinside htakes _ ih =>
      have hbefore : before.foldl (read window) d = d := run_of_inside hinside
      rw [run, List.foldl_append, hbefore, List.foldl_cons, read_of_takes htakes, level_append,
        level_cons]
      exact ih

omit [DecidableEq β] in
/-- A reading that is not taken goes in front of others that there are. -/
theorem Clean.cons {reading : T × β} {rest : List (T × β)} (hinside : ¬d.Takes reading)
    (hrest : rest ≠ []) (h : Clean window d rest) : Clean window d (reading :: rest) := by
  cases h with
  | rests hothers hlevel =>
      refine Clean.rests (List.forall_mem_cons.mpr ⟨hinside, hothers⟩) ?_
      obtain ⟨last, hlast⟩ := Option.isSome_iff_exists.mp (List.getLast?_isSome.mpr hrest)
      rw [level, hlast] at hlevel
      rw [level_cons, level, hlast]
      exact hlevel
  | @opens _ before opener after hothers htakes hafter =>
      have hinside' : ∀ earlier ∈ reading :: before, ¬d.Takes earlier :=
        List.forall_mem_cons.mpr ⟨hinside, hothers⟩
      have hopens := Clean.opens hinside' htakes hafter
      exact hopens

/-- The value ends at the last level exactly if the readings fall into windows. -/
theorem value_run_iff : (d.run window readings).value = level d.value readings ↔
    Clean window d readings := by
  refine ⟨fun hvalue => ?_, Clean.value_run⟩
  induction readings generalizing d with
  | nil => exact Clean.rests (fun _ h => absurd h List.not_mem_nil) rfl
  | cons reading rest ih =>
      rw [run, List.foldl_cons, level_cons] at hvalue
      by_cases htakes : d.Takes reading
      · rw [read_of_takes htakes] at hvalue
        have hnone : ∀ earlier ∈ ([] : List (T × β)), ¬d.Takes earlier :=
          fun _ h => absurd h List.not_mem_nil
        have hopens := Clean.opens hnone htakes (ih hvalue)
        exact hopens
      · rw [read, if_neg htakes] at hvalue
        by_cases hrest : rest = []
        · subst hrest
          exact Clean.rests (List.forall_mem_singleton.mpr htakes) hvalue.symm
        · refine Clean.cons htakes hrest (ih ?_)
          obtain ⟨last, hlast⟩ := Option.isSome_iff_exists.mp (List.getLast?_isSome.mpr hrest)
          rw [level, hlast] at hvalue ⊢
          exact hvalue

section Rate

variable [IsOrderedAddMonoid T]

theorem waitUntil_le_of_mem_times (hwindow : 0 ≤ window) {time : T}
    (htime : time ∈ times window d readings) : d.waitUntil ≤ time := by
  induction readings generalizing d with
  | nil => exact absurd htime List.not_mem_nil
  | cons reading rest ih =>
      rw [times] at htime
      split_ifs at htime with htakes
      · obtain rfl | hrest := List.mem_cons.mp htime
        · exact htakes.1
        · have hlater := ih hrest
          rw [read_of_takes htakes] at hlater
          exact htakes.1.trans ((le_add_of_nonneg_right hwindow).trans hlater)
      · exact ih htime

/-- Any two changes are at least a window apart. -/
theorem pairwise_times (window : T) (d : Debouncer T β) (readings : List (T × β)) :
    (times window d readings).Pairwise fun earlier later => window ≤ |later - earlier| := by
  induction readings generalizing d with
  | nil => exact List.Pairwise.nil
  | cons reading rest ih =>
      rw [times]
      split_ifs with htakes
      · refine List.pairwise_cons.mpr ⟨fun later hlater => ?_, ih _⟩
        obtain hwindow | hwindow := le_total 0 window
        · have hafter := waitUntil_le_of_mem_times hwindow hlater
          rw [read_of_takes htakes] at hafter
          exact (le_sub_iff_add_le'.mpr hafter).trans (le_abs_self _)
        · exact hwindow.trans (abs_nonneg _)
      · exact ih d

end Rate

end Debouncer

end Hat
