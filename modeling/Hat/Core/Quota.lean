import Mathlib.Data.Finset.Card
import Mathlib.Order.UpperLower.Basic

/-!
# Quotas

Two quotas are drawn from two sets that may overlap, and nothing may be counted for both.
Quotas are compared by what meets them: two of them cannot be told apart exactly when they
are equal or nothing meets either.
-/

namespace Hat

section Attainable

variable {α : Type*} [DecidableEq α] (left right : Finset α)

/-- So many elements of each set can be chosen without choosing one twice. -/
def Attainable (quota : ℕ × ℕ) : Prop :=
  quota.1 ≤ left.card ∧ quota.2 ≤ right.card ∧ quota.1 + quota.2 ≤ (left ∪ right).card

instance (quota : ℕ × ℕ) : Decidable (Attainable left right quota) :=
  inferInstanceAs (Decidable (_ ∧ _))

theorem isLowerSet_attainable : IsLowerSet {quota | Attainable left right quota} := by
  rintro ⟨a, b⟩ ⟨a', b'⟩ ⟨ha, hb⟩ ⟨hleft, hright, hboth⟩
  simp only at ha hb hleft hright hboth
  exact ⟨ha.trans hleft, hb.trans hright, (Nat.add_le_add ha hb).trans hboth⟩

variable {left right}

theorem attainable_of_disjoint {chosen other : Finset α} (hchosen : chosen ⊆ left)
    (hother : other ⊆ right) (hdisjoint : Disjoint chosen other) :
    Attainable left right (chosen.card, other.card) := by
  refine ⟨Finset.card_le_card hchosen, Finset.card_le_card hother, ?_⟩
  calc chosen.card + other.card
    _ = (chosen ∪ other).card := (Finset.card_union_of_disjoint hdisjoint).symm
    _ ≤ (left ∪ right).card := Finset.card_le_card (Finset.union_subset_union hchosen hother)

/-- As many elements as possible are taken from outside the other set. -/
theorem exists_subset_sparing (right : Finset α) {count : ℕ} (hcount : count ≤ left.card) :
    ∃ chosen ⊆ left, chosen.card = count ∧
      (chosen ∩ right).card = count - (left \ right).card := by
  rcases le_or_gt count (left \ right).card with hfew | hmany
  · obtain ⟨chosen, hchosen, hcard⟩ := Finset.exists_subset_card_eq hfew
    refine ⟨chosen, hchosen.trans Finset.sdiff_subset, hcard, ?_⟩
    have hdisjoint : Disjoint chosen right :=
      Finset.disjoint_of_subset_left hchosen Finset.sdiff_disjoint
    rw [Finset.disjoint_iff_inter_eq_empty.mp hdisjoint, Finset.card_empty]
    omega
  · have hsplit : (left \ right).card + (left ∩ right).card = left.card :=
      Finset.card_sdiff_add_card_inter left right
    obtain ⟨shared, hshared, hcard⟩ :=
      Finset.exists_subset_card_eq (s := left ∩ right) (n := count - (left \ right).card) (by omega)
    have hdisjoint : Disjoint (left \ right) shared :=
      Finset.disjoint_of_subset_right (hshared.trans Finset.inter_subset_right)
        Finset.sdiff_disjoint
    refine ⟨left \ right ∪ shared, ?_, ?_, ?_⟩
    · exact Finset.union_subset Finset.sdiff_subset (hshared.trans Finset.inter_subset_left)
    · rw [Finset.card_union_of_disjoint hdisjoint, hcard]
      omega
    · rw [Finset.union_inter_distrib_right, Finset.sdiff_inter_self, Finset.empty_union,
        Finset.inter_eq_left.mpr (hshared.trans Finset.inter_subset_right), hcard]

/-- Every attainable quota is met by disjoint choices. -/
theorem exists_disjoint_of_attainable {quota : ℕ × ℕ} (hquota : Attainable left right quota) :
    ∃ chosen ⊆ left, ∃ other ⊆ right, Disjoint chosen other ∧
      chosen.card = quota.1 ∧ other.card = quota.2 := by
  obtain ⟨hleft, hright, hboth⟩ := hquota
  obtain ⟨chosen, hchosen, hcard, hspared⟩ := exists_subset_sparing right hleft
  have hunion : (left \ right).card + right.card = (left ∪ right).card :=
    Finset.card_sdiff_add_card left right
  have hrest : (right \ chosen).card + (chosen ∩ right).card = right.card := by
    rw [Finset.inter_comm]
    exact Finset.card_sdiff_add_card_inter right chosen
  obtain ⟨other, hother, hothercard⟩ :=
    Finset.exists_subset_card_eq (s := right \ chosen) (n := quota.2) (by omega)
  refine ⟨chosen, hchosen, other, hother.trans Finset.sdiff_subset, ?_, hcard, hothercard⟩
  exact Finset.disjoint_of_subset_right hother Finset.disjoint_sdiff

end Attainable

/-- Within a lower set two bounds have the same upper part exactly when they are equal or
neither belongs to it. -/
theorem forall_le_iff_le_iff {P : Type*} [PartialOrder P] {S : Set P} (hS : IsLowerSet S)
    (a b : P) : (∀ x ∈ S, a ≤ x ↔ b ≤ x) ↔ a = b ∨ (a ∉ S ∧ b ∉ S) := by
  constructor
  · intro hsame
    by_cases ha : a ∈ S
    · have hba : b ≤ a := (hsame a ha).mp le_rfl
      have hab : a ≤ b := (hsame b (hS hba ha)).mpr le_rfl
      exact Or.inl (le_antisymm hab hba)
    · refine Or.inr ⟨ha, ?_⟩
      intro hb
      exact ha (hS ((hsame b hb).mpr le_rfl) hb)
  · rintro (rfl | ⟨ha, hb⟩) x hx
    · rfl
    · constructor
      · intro hax
        exact absurd (hS hax hx) ha
      · intro hbx
        exact absurd (hS hbx hx) hb

end Hat
