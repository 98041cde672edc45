import Mathlib.Data.List.Chain
import Mathlib.Data.List.Sort
import Mathlib.Order.Lattice

/-!
# Sorted arrangements

A sort may leave elements with equal keys in any order.  A list is what every sort of it makes
exactly when its keys increase strictly.
-/

namespace Hat

variable {α κ : Type*} [LinearOrder κ] (key : α → κ)

/-- What a sort of `xs` by the keys may return. -/
structure IsArrangement (xs ys : List α) : Prop where
  perm : ys.Perm xs
  sorted : ys.Pairwise fun x y => key x ≤ key y

theorem exists_arrangement (xs : List α) : ∃ ys, IsArrangement key xs ys := by
  refine ⟨xs.mergeSort fun x y => key x ≤ key y, List.mergeSort_perm _ _, ?_⟩
  have hsorted : (xs.mergeSort fun x y => key x ≤ key y).Pairwise fun x y =>
      decide (key x ≤ key y) = true := by
    apply List.pairwise_mergeSort
    · intro x y z hxy hyz
      exact decide_eq_true ((of_decide_eq_true hxy).trans (of_decide_eq_true hyz))
    · intro x y
      simpa using le_total (key x) (key y)
  exact hsorted.imp of_decide_eq_true

variable {key}

theorem IsArrangement.of_perm {xs xs' ys : List α} (h : IsArrangement key xs ys)
    (hperm : xs.Perm xs') : IsArrangement key xs' ys :=
  ⟨h.perm.trans hperm, h.sorted⟩

theorem IsArrangement.eq_of_increasing {xs ys : List α} (h : IsArrangement key xs ys)
    (hincreasing : xs.Pairwise fun x y => key x < key y) : ys = xs := by
  have hdistinct : ys.Pairwise fun x y => key x ≠ key y := by
    refine (h.perm.pairwise_iff fun hne => hne.symm).mpr ?_
    exact hincreasing.imp ne_of_lt
  have hstrict : ys.Pairwise fun x y => key x < key y :=
    (h.sorted.and hdistinct).imp fun hboth => lt_of_le_of_ne hboth.1 hboth.2
  exact h.perm.eq_of_pairwise (fun _ _ _ _ hlt hgt => absurd hgt (not_lt_of_gt hlt)) hstrict
    hincreasing

/-- A list in another order with the same values, where these differ, is in the same order. -/
theorem eq_of_perm_of_map_eq {β : Type*} {f : α → β} {xs ys : List α} (hperm : ys.Perm xs)
    (hnodup : (xs.map f).Nodup) (hmap : ys.map f = xs.map f) : ys = xs := by
  refine List.ext_getElem? fun i => ?_
  have hi : (ys[i]?).map f = (xs[i]?).map f := by
    rw [← List.getElem?_map, ← List.getElem?_map, hmap]
  cases hy : ys[i]? with
  | none =>
      rw [hy, Option.map_none] at hi
      exact (Option.map_eq_none_iff.mp hi.symm).symm
  | some y =>
      rw [hy, Option.map_some] at hi
      obtain ⟨x, hx, hxy⟩ := Option.map_eq_some_iff.mp hi.symm
      have hmem : y ∈ xs := hperm.mem_iff.mp (List.mem_of_getElem? hy)
      rw [hx, List.inj_on_of_nodup_map hnodup hmem (List.mem_of_getElem? hx) hxy.symm]

/-- A list of different elements is its only sorted arrangement exactly when its keys increase
strictly. -/
theorem forall_arrangement_eq_iff {xs : List α} (hnodup : xs.Nodup) :
    (∀ ys, IsArrangement key xs ys → ys = xs) ↔ xs.Pairwise fun x y => key x < key y := by
  constructor
  · intro h
    obtain ⟨ys, hys⟩ := exists_arrangement key xs
    have hsorted : xs.Pairwise fun x y => key x ≤ key y := h ys hys ▸ hys.sorted
    rw [← List.isChain_iff_pairwise, List.isChain_iff_forall_rel_of_append_cons_cons]
    intro x y before after hxs
    refine lt_of_le_of_ne ?_ fun heq => ?_
    · rw [hxs] at hsorted
      exact (List.pairwise_cons.mp (List.pairwise_append.mp hsorted).2.1).1 y List.mem_cons_self
    · -- Two neighbours with one key may change places.
      have hkeys : (before ++ y :: x :: after).map key = xs.map key := by
        rw [hxs]
        simp [heq]
      have hswapped : IsArrangement key xs (before ++ y :: x :: after) := by
        constructor
        · rw [hxs]
          exact (List.Perm.swap x y after).append_left before
        · rw [← List.pairwise_map (R := (· ≤ ·)), hkeys, List.pairwise_map]
          exact hsorted
      have hsame : y :: x :: after = x :: y :: after :=
        List.append_cancel_left ((h _ hswapped).trans hxs)
      have hxy : y = x := (List.cons.inj hsame).1
      rw [hxs, hxy] at hnodup
      have hafter := (List.nodup_append.mp hnodup).2.1
      exact (List.nodup_cons.mp hafter).1 List.mem_cons_self
  · intro hincreasing ys hys
    exact hys.eq_of_increasing hincreasing

end Hat
