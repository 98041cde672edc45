import Mathlib.Data.List.Chain

/-!
# Change logs

A value is driven to what is wanted of it, and each change is written to a log.  Whatever is
wanted and when, the log never holds one value twice in a row, and its last entry is the value.
-/

namespace Hat

variable {β : Type*}

structure ChangeLog (β : Type*) where
  now : β
  changes : List β

namespace ChangeLog

def start (idle : β) : ChangeLog β := ⟨idle, []⟩

def drive [DecidableEq β] (wanted : β) (log : ChangeLog β) : ChangeLog β :=
  if wanted = log.now then log else ⟨wanted, log.changes ++ [wanted]⟩

/-- From the idle value on, each entry of the log differs from the one before, and the last one
is the value. -/
structure Lawful (idle : β) (log : ChangeLog β) : Prop where
  alternates : (idle :: log.changes).IsChain (· ≠ ·)
  now_eq : log.changes.getLast?.getD idle = log.now

theorem lawful_start (idle : β) : (start idle).Lawful idle :=
  ⟨List.isChain_singleton idle, rfl⟩

variable {idle wanted : β} {log : ChangeLog β}

/-- The value is away from idle exactly when the last entry is. -/
theorem Lawful.now_eq_iff (h : log.Lawful idle) {value : β} (hvalue : value ≠ idle) :
    log.now = value ↔ log.changes.getLast? = some value := by
  rw [← h.now_eq]
  cases log.changes.getLast? with
  | none => simp [Ne.symm hvalue]
  | some last => simp

variable [DecidableEq β]

theorem drive_of_eq (h : wanted = log.now) : log.drive wanted = log := if_pos h

theorem drive_of_ne (h : wanted ≠ log.now) :
    log.drive wanted = ⟨wanted, log.changes ++ [wanted]⟩ := if_neg h

theorem Lawful.drive (h : log.Lawful idle) (wanted : β) : (log.drive wanted).Lawful idle := by
  by_cases hnow : wanted = log.now
  · rwa [drive_of_eq hnow]
  · rw [drive_of_ne hnow]
    refine ⟨?_, by simp⟩
    rw [← List.cons_append]
    refine List.isChain_append.mpr ⟨h.alternates, List.isChain_singleton wanted, ?_⟩
    intro last hlast first hfirst
    rw [List.head?_cons, Option.mem_some_iff] at hfirst
    rw [List.getLast?_cons, h.now_eq, Option.mem_some_iff] at hlast
    rw [← hlast, ← hfirst]
    exact Ne.symm hnow

end ChangeLog

end Hat
