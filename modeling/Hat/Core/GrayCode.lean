import Mathlib.Data.List.Chain
import Mathlib.Data.List.Nodup
import Mathlib.Algebra.Group.Nat.Defs
import Mathlib.Logic.Function.Iterate

/-!
# Reflected Gray codes and cycles

The words of a length over two letters are listed so that each differs from the one before
it in one place, the first from the last as well: the list for one more place is the list
with one letter in front, and then the list backwards with the other.  A function that leads
from each element of a list to the next, and from the last to the first, visits all of them
before it is back.
-/

namespace Hat.GrayCode

variable {α : Type*}

/-- The two lists differ in exactly one place. -/
def DifferInOne (left right : List α) : Prop :=
  ∃ before x y after, left = before ++ x :: after ∧ right = before ++ y :: after ∧ x ≠ y

theorem DifferInOne.symm {left right : List α} (h : DifferInOne left right) :
    DifferInOne right left := by
  obtain ⟨before, x, y, after, hleft, hright, hne⟩ := h
  exact ⟨before, y, x, after, hright, hleft, hne.symm⟩

theorem DifferInOne.cons {left right : List α} (h : DifferInOne left right) (x : α) :
    DifferInOne (x :: left) (x :: right) := by
  obtain ⟨before, y, z, after, rfl, rfl, hne⟩ := h
  exact ⟨x :: before, y, z, after, rfl, rfl, hne⟩

theorem differInOne_head {x y : α} (hne : x ≠ y) (rest : List α) :
    DifferInOne (x :: rest) (y :: rest) := ⟨[], x, y, rest, rfl, rfl, hne⟩

variable (off on : α)

def reflected : ℕ → List (List α)
  | 0 => [[]]
  | n + 1 => (reflected n).map (off :: ·) ++ (reflected n).reverse.map (on :: ·)

theorem length_reflected (n : ℕ) : (reflected off on n).length = 2 ^ n := by
  induction n with
  | zero => rfl
  | succ n ih =>
      rw [reflected, List.length_append, List.length_map, List.length_map, List.length_reverse, ih,
        Nat.pow_succ, Nat.mul_two]

/-- All words of the length are listed. -/
theorem mem_reflected_iff (n : ℕ) (word : List α) :
    word ∈ reflected off on n ↔ word.length = n ∧ ∀ letter ∈ word, letter = off ∨ letter = on := by
  induction n generalizing word with
  | zero =>
      rw [reflected, List.mem_singleton, List.length_eq_zero_iff]
      constructor
      · rintro rfl
        exact ⟨rfl, fun _ h => absurd h List.not_mem_nil⟩
      · exact fun h => h.1
  | succ n ih =>
      rw [reflected, List.mem_append, List.mem_map, List.mem_map]
      constructor
      · rintro (⟨rest, hrest, rfl⟩ | ⟨rest, hrest, rfl⟩)
        · obtain ⟨hlength, hletters⟩ := (ih rest).mp hrest
          exact ⟨congrArg (· + 1) hlength, List.forall_mem_cons.mpr ⟨Or.inl rfl, hletters⟩⟩
        · obtain ⟨hlength, hletters⟩ := (ih rest).mp (List.mem_reverse.mp hrest)
          exact ⟨congrArg (· + 1) hlength, List.forall_mem_cons.mpr ⟨Or.inr rfl, hletters⟩⟩
      · rintro ⟨hlength, hletters⟩
        cases word with
        | nil => exact absurd hlength (Nat.succ_ne_zero n).symm
        | cons letter rest =>
            obtain ⟨hletter, hletters⟩ := List.forall_mem_cons.mp hletters
            have hrest : rest ∈ reflected off on n :=
              (ih rest).mpr ⟨Nat.succ.inj hlength, hletters⟩
            obtain rfl | rfl := hletter
            · exact Or.inl ⟨rest, hrest, rfl⟩
            · exact Or.inr ⟨rest, List.mem_reverse.mpr hrest, rfl⟩

theorem nodup_reflected (hne : off ≠ on) (n : ℕ) : (reflected off on n).Nodup := by
  induction n with
  | zero => exact List.nodup_singleton _
  | succ n ih =>
      rw [reflected, List.nodup_append]
      refine ⟨ih.map (List.cons_injective), (List.nodup_reverse.mpr ih).map List.cons_injective, ?_⟩
      rintro left hleft right hright rfl
      obtain ⟨_, _, hoff⟩ := List.mem_map.mp hleft
      obtain ⟨_, _, hon⟩ := List.mem_map.mp hright
      exact hne (List.cons_eq_cons.mp (hoff.trans hon.symm)).1

theorem head?_reflected (n : ℕ) :
    (reflected off on n).head? = some (List.replicate n off) := by
  induction n with
  | zero => rfl
  | succ n ih => rw [reflected, List.head?_append, List.head?_map, ih]; rfl

theorem getLast?_reflected_succ (n : ℕ) :
    (reflected off on (n + 1)).getLast? = some (on :: List.replicate n off) := by
  rw [reflected, List.getLast?_append, List.getLast?_map, List.getLast?_reverse,
    head?_reflected]
  rfl

/-- Each word differs from the next in one place. -/
theorem isChain_reflected (hne : off ≠ on) (n : ℕ) :
    (reflected off on n).IsChain DifferInOne := by
  induction n with
  | zero => exact List.isChain_singleton _
  | succ n ih =>
      rw [reflected, List.isChain_append]
      refine ⟨?_, ?_, ?_⟩
      · exact List.isChain_map_of_isChain _ (fun _ _ h => DifferInOne.cons h off) ih
      · refine List.isChain_map_of_isChain _ (fun _ _ h => DifferInOne.cons h on) ?_
        exact List.isChain_reverse.mpr (ih.imp fun _ _ h => h.symm)
      · -- The list backwards begins where the list has ended.
        intro left hleft right hright
        rw [List.getLast?_map] at hleft
        rw [List.head?_map, List.head?_reverse] at hright
        obtain ⟨word, hword, rfl⟩ := Option.map_eq_some_iff.mp hleft
        obtain ⟨other, hother, rfl⟩ := Option.map_eq_some_iff.mp hright
        obtain rfl : word = other := Option.some.inj (hword.symm.trans hother)
        exact differInOne_head hne word

/-- The last word differs from the first in one place. -/
theorem differInOne_last_first (hne : off ≠ on) (n : ℕ) {first last : List α}
    (hfirst : first ∈ (reflected off on (n + 1)).head?)
    (hlast : last ∈ (reflected off on (n + 1)).getLast?) : DifferInOne last first := by
  rw [head?_reflected, Option.mem_some_iff] at hfirst
  rw [getLast?_reflected_succ, Option.mem_some_iff] at hlast
  rw [← hfirst, ← hlast]
  exact differInOne_head hne.symm _

section

variable {β : Type*} {f : β → β} {xs : List β}

/-- The function leads from each element to the next, and from the last to the first. -/
def Cycles (f : β → β) (xs : List β) : Prop :=
  ∀ i, (hi : i < xs.length) →
    f (xs.get ⟨i, hi⟩) = xs.get ⟨(i + 1) % xs.length, Nat.mod_lt _ (Nat.zero_lt_of_lt hi)⟩

theorem Cycles.iterate (h : Cycles f xs) (k : ℕ) {i : ℕ} (hi : i < xs.length) :
    f^[k] (xs.get ⟨i, hi⟩) =
      xs.get ⟨(i + k) % xs.length, Nat.mod_lt _ (Nat.zero_lt_of_lt hi)⟩ := by
  induction k with
  | zero => simp only [Function.iterate_zero_apply, Nat.add_zero, Nat.mod_eq_of_lt hi]
  | succ k ih =>
      rw [Function.iterate_succ_apply', ih, h]
      simp only [Nat.mod_add_mod, Nat.add_assoc]

/-- After as many steps as there are elements the function is back. -/
theorem Cycles.returns (h : Cycles f xs) {x : β} (hx : x ∈ xs) : f^[xs.length] x = x := by
  obtain ⟨⟨i, hi⟩, rfl⟩ := List.get_of_mem hx
  rw [h.iterate]
  simp only [Nat.add_mod_right, Nat.mod_eq_of_lt hi]

/-- Before it is back it visits each element once. -/
theorem Cycles.visits (h : Cycles f xs) (hnodup : xs.Nodup) {x y : β} (hx : x ∈ xs)
    (hy : y ∈ xs) : ∃! k, k < xs.length ∧ f^[k] x = y := by
  obtain ⟨⟨i, hi⟩, rfl⟩ := List.get_of_mem hx
  obtain ⟨⟨j, hj⟩, rfl⟩ := List.get_of_mem hy
  have hpos := Nat.zero_lt_of_lt hi
  have hiff : ∀ k, f^[k] (xs.get ⟨i, hi⟩) = xs.get ⟨j, hj⟩ ↔ (i + k) % xs.length = j := by
    intro k
    rw [h.iterate, hnodup.get_inj_iff, Fin.mk.injEq]
  refine ⟨(j + (xs.length - i)) % xs.length, ⟨Nat.mod_lt _ hpos, (hiff _).mpr ?_⟩, ?_⟩
  · rw [Nat.add_mod_mod, show i + (j + (xs.length - i)) = j + xs.length by omega,
      Nat.add_mod_right, Nat.mod_eq_of_lt hj]
  · rintro k ⟨hk, hreach⟩
    have hmod := (hiff k).mp hreach
    by_cases hwrap : i + k < xs.length
    · rw [Nat.mod_eq_of_lt hwrap] at hmod
      rw [show j + (xs.length - i) = k + xs.length by omega, Nat.add_mod_right,
        Nat.mod_eq_of_lt hk]
    · have hsub : (i + k) % xs.length = i + k - xs.length := by
        rw [Nat.mod_eq_sub_mod (not_lt.mp hwrap), Nat.mod_eq_of_lt (by omega)]
      rw [hsub] at hmod
      rw [show j + (xs.length - i) = k by omega, Nat.mod_eq_of_lt hk]

end

end Hat.GrayCode
