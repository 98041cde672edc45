import Mathlib.Data.List.Nodup
import Mathlib.Data.List.Perm.Subperm
import Mathlib.Data.Nat.Find
import Mathlib.Order.Lattice

/-!
# Fresh names from a numbered supply

A supply numbers its names, and begins again after `period` of them.  As many names are tried
as there are taken ones, and one more is used untried.  The result is the first name that is
not taken, if there is any: the names before it are distinct and all taken.
-/

namespace Hat

variable {α : Type*} [DecidableEq α]

/-- The first of as many names as are taken that is not taken, or the one behind them. -/
def firstFrom (supply : ℕ → α) (taken : List α) : α :=
  (((List.range taken.length).find? fun i => supply i ∉ taken).map supply).getD
    (supply taken.length)

/-- The first name of the supply that is not taken has the number `k`. -/
structure IsFirstFree (supply : ℕ → α) (taken : List α) (k : ℕ) : Prop where
  free : supply k ∉ taken
  taken : ∀ i < k, supply i ∈ taken

/-- A supply of `period` different names. -/
structure Cycles (supply : ℕ → α) (period : ℕ) : Prop where
  pos : 0 < period
  injOn : ∀ i < period, ∀ j < period, supply i = supply j → i = j
  supply_mod : ∀ i, supply (i % period) = supply i

section

variable {supply : ℕ → α} {period : ℕ} {taken : List α}

theorem exists_isFirstFree (hfree : ∃ k, supply k ∉ taken) :
    ∃ k, IsFirstFree supply taken k :=
  ⟨Nat.find hfree, Nat.find_spec hfree, fun _ hi => not_not.mp (Nat.find_min hfree hi)⟩

omit [DecidableEq α] in
theorem IsFirstFree.lt_period {k : ℕ} (h : IsFirstFree supply taken k)
    (hcycles : Cycles supply period) : k < period := by
  by_contra hge
  have hmod : k % period < k :=
    lt_of_lt_of_le (Nat.mod_lt k hcycles.pos) (not_lt.mp hge)
  exact h.free (hcycles.supply_mod k ▸ h.taken _ hmod)

omit [DecidableEq α] in
/-- Before the first free name there are as many taken ones. -/
theorem IsFirstFree.le_length {k : ℕ} (h : IsFirstFree supply taken k)
    (hcycles : Cycles supply period) : k ≤ taken.length := by
  have hnodup : ((List.range k).map supply).Nodup := by
    apply List.Nodup.map_on ?_ List.nodup_range
    intro i hi j hj heq
    rw [List.mem_range] at hi hj
    exact hcycles.injOn i (hi.trans (h.lt_period hcycles)) j (hj.trans (h.lt_period hcycles)) heq
  have hsubset : (List.range k).map supply ⊆ taken := by
    intro name hname
    obtain ⟨i, hi, rfl⟩ := List.mem_map.mp hname
    exact h.taken i (List.mem_range.mp hi)
  calc
    k = ((List.range k).map supply).length := by rw [List.length_map, List.length_range]
    _ ≤ taken.length := (hnodup.subperm hsubset).length_le

/-- The search gives the first free name. -/
theorem firstFrom_eq {k : ℕ} (h : IsFirstFree supply taken k) (hcycles : Cycles supply period) :
    firstFrom supply taken = supply k := by
  rw [firstFrom]
  rcases Nat.lt_or_eq_of_le (h.le_length hcycles) with hlt | heq
  · have hfind : (List.range taken.length).find? (fun i => supply i ∉ taken) = some k := by
      rw [List.find?_range_eq_some]
      refine ⟨decide_eq_true h.free, List.mem_range.mpr hlt, fun i hi => ?_⟩
      simpa using h.taken i hi
    rw [hfind, Option.map_some, Option.getD_some]
  · have hfind : (List.range taken.length).find? (fun i => supply i ∉ taken) = none := by
      rw [List.find?_eq_none]
      intro i hi
      rw [List.mem_range, ← heq] at hi
      simpa using h.taken i hi
    rw [hfind, Option.map_none, Option.getD_none, heq]

theorem exists_firstFrom_eq (supply : ℕ → α) (taken : List α) :
    ∃ k, firstFrom supply taken = supply k := by
  rw [firstFrom]
  cases (List.range taken.length).find? fun i => supply i ∉ taken with
  | none => exact ⟨taken.length, rfl⟩
  | some k => exact ⟨k, rfl⟩

/-- The search gives a fresh name unless the whole supply is taken. -/
theorem firstFrom_notMem_iff (hcycles : Cycles supply period) :
    firstFrom supply taken ∉ taken ↔ ∃ k, supply k ∉ taken := by
  constructor
  · intro hfresh
    obtain ⟨k, hk⟩ := exists_firstFrom_eq supply taken
    exact ⟨k, hk ▸ hfresh⟩
  · intro hfree
    obtain ⟨k, hk⟩ := exists_isFirstFree hfree
    rw [firstFrom_eq hk hcycles]
    exact hk.free

/-- A name that is not the first free one can be taken in addition. -/
theorem firstFrom_append {name : α} (hcycles : Cycles supply period)
    (hfresh : firstFrom supply taken ∉ taken) (hname : name ≠ firstFrom supply taken) :
    firstFrom supply (taken ++ [name]) = firstFrom supply taken := by
  obtain ⟨k, hk⟩ := exists_isFirstFree ((firstFrom_notMem_iff hcycles).mp hfresh)
  rw [firstFrom_eq hk hcycles] at hname ⊢
  apply firstFrom_eq ?_ hcycles
  refine ⟨?_, fun i hi => List.mem_append_left _ (hk.taken i hi)⟩
  rw [List.mem_append, List.mem_singleton, not_or]
  exact ⟨hk.free, hname.symm⟩

end

end Hat
