import Mathlib.Data.List.Basic
import Mathlib.Data.Int.Notation
import Mathlib.Data.Nat.Notation

/-!
# One eviction in a sweep

Entries in a row grow older, and a sweep then takes away the first one that is over.  An entry
that is over waits for those in front of it, one sweep for each.
-/

namespace Hat.Expiry

variable {α κ : Type*}

/-- What is left of the life of an entry, and whether it is over. -/
structure Clock (α κ : Type*) where
  key : α → κ
  life : α → ℤ

namespace Clock

variable (clock : Clock α κ)

def runOut (x : α) : Bool := decide (clock.life x ≤ 0)

def sweep (items : List α) : List α := items.eraseP clock.runOut

/-- All entries under the key are taken away within as many sweeps, if they only grow older. -/
def Within (key : κ) (sweeps : ℕ) (items : List α) : Prop :=
  ∀ i x, items[i]? = some x → clock.key x = key → i + max (clock.life x).toNat 1 ≤ sweeps

variable {clock} {key : κ} {sweeps : ℕ} {items : List α}

theorem Within.notMem (h : clock.Within key 0 items) {x : α} (hx : x ∈ items) :
    clock.key x ≠ key := by
  intro hkey
  obtain ⟨i, hi⟩ := List.mem_iff_getElem?.mp hx
  have hsweeps := h i x hi hkey
  omega

theorem Within.mono (h : clock.Within key sweeps items) {more : ℕ} (hmore : sweeps ≤ more) :
    clock.Within key more items :=
  fun i x hx hkey => Nat.le_trans (h i x hx hkey) hmore

/-- An entry at the end that is under another key. -/
theorem Within.concat (h : clock.Within key sweeps items) {other : α}
    (hother : clock.key other ≠ key) : clock.Within key sweeps (items ++ [other]) := by
  intro i x hx hkey
  rcases Nat.lt_or_ge i items.length with hi | hi
  · rw [List.getElem?_append_left hi] at hx
    exact h i x hx hkey
  · rw [List.getElem?_append_right hi] at hx
    have hmem := List.mem_of_getElem? hx
    rw [List.mem_singleton.mp hmem] at hkey
    exact absurd hkey hother

/-- A new entry at the end waits for all the others. -/
theorem within_concat {last : α} (hnew : ∀ x ∈ items, clock.key x ≠ clock.key last) :
    clock.Within (clock.key last) (items.length + max (clock.life last).toNat 1)
      (items ++ [last]) := by
  intro i x hx hkey
  rcases Nat.lt_or_ge i items.length with hi | hi
  · rw [List.getElem?_append_left hi] at hx
    exact absurd hkey (hnew x (List.mem_of_getElem? hx))
  · rw [List.getElem?_append_right hi, List.getElem?_singleton] at hx
    split at hx
    · rw [← Option.some.inj hx]
      omega
    · exact absurd hx.symm (Option.some_ne_none x)

/-- What is left after a sweep was left alone, with all in front of it, or moved up. -/
theorem getElem?_sweep {i : ℕ} {x : α} (hx : (clock.sweep items)[i]? = some x) :
    (items[i]? = some x ∧ 0 < clock.life x) ∨ items[i + 1]? = some x := by
  induction items generalizing i with
  | nil => exact absurd hx (by simp [sweep])
  | cons first rest ih =>
      rw [sweep, List.eraseP_cons] at hx
      cases hover : clock.runOut first with
      | true =>
          rw [hover] at hx
          exact Or.inr hx
      | false =>
          rw [hover] at hx
          cases i with
          | zero =>
              left
              rw [cond_false, List.getElem?_cons_zero, Option.some.injEq] at hx
              rw [runOut, decide_eq_false_iff_not, Int.not_le] at hover
              exact hx ▸ ⟨rfl, hover⟩
          | succ i =>
              rw [cond_false, List.getElem?_cons_succ] at hx
              exact ih hx

/-- A sweep takes an entry away or brings it nearer to the front. -/
theorem Within.sweep {age : α → α} (h : clock.Within key (sweeps + 1) items)
    (hkeeps : ∀ x, clock.key (age x) = clock.key x)
    (hages : ∀ x, clock.key x = key →
      clock.life (age x) < clock.life x ∨ clock.life (age x) ≤ 0) :
    clock.Within key sweeps (clock.sweep (items.map age)) := by
  intro i x hx hkey
  rcases getElem?_sweep hx with ⟨hself, hlife⟩ | hnext
  · rw [List.getElem?_map] at hself
    obtain ⟨before, hbefore, rfl⟩ := Option.map_eq_some_iff.mp hself
    rw [hkeeps] at hkey
    have hbound := h i before hbefore hkey
    have hlater := hages before hkey
    omega
  · rw [List.getElem?_map] at hnext
    obtain ⟨before, hbefore, rfl⟩ := Option.map_eq_some_iff.mp hnext
    rw [hkeeps] at hkey
    have hbound := h (i + 1) before hbefore hkey
    have hlater := hages before hkey
    omega

end Clock

end Hat.Expiry
