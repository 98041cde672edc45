import Mathlib.Data.List.Basic
import Mathlib.Data.List.Induction
import Mathlib.Data.List.Infix

/-!
# The last position of an item

A loop over a list that keeps the position of every item it looks for ends with the last
one.  `lastIdx` is this loop; a loop that starts from a position of its own falls back to it.
-/

namespace Hat

variable {α : Type*} (p : α → Prop) [DecidablePred p]

def lastIdx (items : List α) : Option ℕ :=
  items.zipIdx.foldl (fun found entry => if p entry.1 then some entry.2 else found) none

theorem lastIdx_append_singleton (items : List α) (item : α) :
    lastIdx p (items ++ [item]) = if p item then some items.length else lastIdx p items := by
  rw [lastIdx, List.zipIdx_append, List.foldl_append]
  simp [lastIdx]

theorem lastIdx_eq_none_iff (items : List α) : lastIdx p items = none ↔ ∀ x ∈ items, ¬p x := by
  induction items using List.reverseRecOn with
  | nil => simp [lastIdx]
  | append_singleton items item ih =>
      rw [lastIdx_append_singleton]
      by_cases hitem : p item
      · rw [if_pos hitem]
        exact iff_of_false (Option.some_ne_none _)
          fun hnone => hnone item (List.mem_append_right _ (List.mem_singleton_self _)) hitem
      · rw [if_neg hitem, ih, List.forall_mem_append, List.forall_mem_singleton]
        exact (and_iff_left hitem).symm

/-- The position of an item that is looked for, with none behind it. -/
theorem lastIdx_eq_some_iff (items : List α) (i : ℕ) :
    lastIdx p items = some i ↔
      (∃ x, items[i]? = some x ∧ p x) ∧ ∀ j x, i < j → items[j]? = some x → ¬p x := by
  induction items using List.reverseRecOn with
  | nil => simp [lastIdx]
  | append_singleton items item ih =>
      rw [lastIdx_append_singleton]
      by_cases hitem : p item
      · rw [if_pos hitem, Option.some.injEq]
        constructor
        · rintro rfl
          refine ⟨⟨item, List.getElem?_concat_length, hitem⟩, fun j x hj hx => ?_⟩
          have hlt := (List.getElem?_eq_some_iff.mp hx).1
          rw [List.length_append, List.length_singleton] at hlt
          omega
        · rintro ⟨⟨x, hx, -⟩, hlast⟩
          have hlt := (List.getElem?_eq_some_iff.mp hx).1
          rw [List.length_append, List.length_singleton] at hlt
          by_contra hne
          exact hlast items.length item (by omega) List.getElem?_concat_length hitem
      · rw [if_neg hitem, ih]
        constructor
        · rintro ⟨⟨x, hx, hpx⟩, hlast⟩
          have hlt := (List.getElem?_eq_some_iff.mp hx).1
          refine ⟨⟨x, by rw [List.getElem?_append_left hlt, hx], hpx⟩, fun j y hj hy => ?_⟩
          by_cases hjlt : j < items.length
          · rw [List.getElem?_append_left hjlt] at hy
            exact hlast j y hj hy
          · rw [List.getElem?_append_right (Nat.le_of_not_lt hjlt)] at hy
            rw [List.mem_singleton.mp (List.mem_of_getElem? hy)]
            exact hitem
        · rintro ⟨⟨x, hx, hpx⟩, hlast⟩
          have hilt : i < items.length := by
            by_contra hge
            rw [List.getElem?_append_right (Nat.le_of_not_lt hge)] at hx
            exact hitem (List.mem_singleton.mp (List.mem_of_getElem? hx) ▸ hpx)
          refine ⟨⟨x, by rw [← hx, List.getElem?_append_left hilt], hpx⟩, fun j y hj hy => ?_⟩
          exact hlast j y hj (List.getElem?_append_left (List.getElem?_eq_some_iff.mp hy).1 ▸ hy)

/-- A loop that starts from a position of its own. -/
theorem foldl_zipIdx_eq_getD (items : List α) (first : ℕ) :
    items.zipIdx.foldl (fun found entry => if p entry.1 then entry.2 else found) first =
      (lastIdx p items).getD first := by
  induction items using List.reverseRecOn with
  | nil => rfl
  | append_singleton items item ih =>
      rw [lastIdx_append_singleton, List.zipIdx_append, List.foldl_append, ih]
      by_cases hitem : p item <;> simp [hitem]

end Hat

/-!
# The first place of a part

A search for a part in a text gives the first place where the part starts.
-/

namespace Hat

variable {α : Type*} [DecidableEq α]

def firstPlace (part : List α) : List α → Option ℕ
  | [] => if part = [] then some 0 else none
  | c :: rest =>
      if part <+: c :: rest then some 0 else (firstPlace part rest).map fun i => i + 1

variable {part text front : List α}

theorem firstPlace_eq_some_iff {i : ℕ} :
    firstPlace part text = some i ↔
      part <+: text.drop i ∧ ∀ j < i, ¬part <+: text.drop j := by
  induction text generalizing i with
  | nil =>
      rw [firstPlace]
      by_cases hpart : part = []
      · rw [if_pos hpart, Option.some.injEq]
        constructor
        · rintro rfl
          exact ⟨hpart ▸ List.nil_prefix, fun j hj => absurd hj (Nat.not_lt_zero j)⟩
        · rintro ⟨-, hfirst⟩
          by_contra hne
          exact hfirst 0 (Nat.pos_of_ne_zero (Ne.symm hne)) (hpart ▸ List.nil_prefix)
      · rw [if_neg hpart]
        refine iff_of_false (Option.some_ne_none i).symm ?_
        rintro ⟨hstarts, -⟩
        rw [List.drop_nil] at hstarts
        exact hpart (List.prefix_nil.mp hstarts)
  | cons c rest ih =>
      rw [firstPlace]
      by_cases hhere : part <+: c :: rest
      · rw [if_pos hhere, Option.some.injEq]
        constructor
        · rintro rfl
          exact ⟨hhere, fun j hj => absurd hj (Nat.not_lt_zero j)⟩
        · rintro ⟨-, hfirst⟩
          by_contra hne
          exact hfirst 0 (Nat.pos_of_ne_zero (Ne.symm hne)) hhere
      · rw [if_neg hhere, Option.map_eq_some_iff]
        constructor
        · rintro ⟨i, hi, rfl⟩
          obtain ⟨hstarts, hfirst⟩ := ih.mp hi
          refine ⟨hstarts, fun j hj => ?_⟩
          cases j with
          | zero => exact hhere
          | succ j => exact hfirst j (Nat.lt_of_succ_lt_succ hj)
        · rintro ⟨hstarts, hfirst⟩
          cases i with
          | zero => exact absurd hstarts hhere
          | succ i =>
              exact ⟨i, ih.mpr ⟨hstarts, fun j hj => hfirst (j + 1) (Nat.succ_lt_succ hj)⟩, rfl⟩

theorem firstPlace_eq_none_iff :
    firstPlace part text = none ↔ ∀ i, ¬part <+: text.drop i := by
  constructor
  · intro hnone i hi
    -- The least place is the first one.
    induction i using Nat.strong_induction_on with
    | _ i ih =>
        have hplace := firstPlace_eq_some_iff.mpr ⟨hi, fun j hj hstarts => ih j hj hstarts⟩
        rw [hnone] at hplace
        exact absurd hplace (Option.some_ne_none i).symm
  · intro hnowhere
    cases hplace : firstPlace part text with
    | none => rfl
    | some i => exact absurd (firstPlace_eq_some_iff.mp hplace).1 (hnowhere i)

/-- A part that goes beyond the front goes over what stands behind it. -/
theorem not_prefix_append_cons {c : α} (hpart : c ∉ part.tail) {i : ℕ} (hi : i < front.length)
    (hfront : ¬part <+: front.drop i) (rest : List α) :
    ¬part <+: (front ++ c :: rest).drop i := by
  rintro ⟨after, hafter⟩
  rw [List.drop_append_of_le_length hi.le] at hafter
  rcases List.append_eq_append_iff.mp hafter with ⟨more, hmore, -⟩ | ⟨more, hmore, hrest⟩
  · exact hfront ⟨more, hmore.symm⟩
  · cases more with
    | nil =>
        rw [List.append_nil] at hmore
        exact hfront (hmore ▸ List.prefix_refl _)
    | cons d more =>
        rw [List.cons_append, List.cons.injEq] at hrest
        apply hpart
        rw [hmore, ← hrest.1]
        cases hdrop : front.drop i with
        | nil =>
            have hlength := congrArg List.length hdrop
            rw [List.length_drop, List.length_nil] at hlength
            omega
        | cons first rest => simp

omit [DecidableEq α] in
/-- A part that lacks a separator stands on one side of it. -/
theorem infix_append_cons {sep : α} (hsep : sep ∉ part)
    (hwithin : part <:+: front ++ sep :: text) : part <:+: front ∨ part <:+: text := by
  obtain ⟨before, after, hwhole⟩ := hwithin
  rw [List.append_assoc] at hwhole
  rcases List.append_eq_append_iff.mp hwhole with ⟨gap, rfl, hgap⟩ | ⟨gap, rfl, hgap⟩
  · left
    rcases List.append_eq_append_iff.mp hgap with ⟨more, rfl, -⟩ | ⟨more, rfl, hmore⟩
    · exact ⟨before, more, List.append_assoc _ _ _⟩
    · cases more with
      | nil => exact ⟨before, [], by simp⟩
      | cons c more =>
          obtain rfl := (List.cons.inj hmore).1
          exact absurd (List.mem_append_right gap List.mem_cons_self) hsep
  · cases gap with
    | nil =>
        cases part with
        | nil => exact Or.inl List.nil_infix
        | cons c part =>
            obtain rfl := (List.cons.inj hgap).1
            exact absurd List.mem_cons_self hsep
    | cons c gap =>
        right
        obtain ⟨-, rfl⟩ := List.cons.inj hgap
        exact ⟨gap, after, List.append_assoc _ _ _⟩

/-- A front in which the part does not start only shifts the place. -/
theorem firstPlace_append (hfront : ∀ i < front.length, ¬part <+: (front ++ text).drop i) :
    firstPlace part (front ++ text) = (firstPlace part text).map fun i => i + front.length := by
  induction front with
  | nil => simp
  | cons c front ih =>
      have hhere : ¬part <+: c :: (front ++ text) := hfront 0 (Nat.succ_pos _)
      have hlater : ∀ i < front.length, ¬part <+: (front ++ text).drop i := fun i hi =>
        hfront (i + 1) (Nat.succ_lt_succ hi)
      rw [List.cons_append, firstPlace, if_neg hhere, ih hlater, Option.map_map]
      rfl

theorem isSome_firstPlace_iff : (firstPlace part text).isSome ↔ part <:+: text := by
  rw [← Option.ne_none_iff_isSome, Ne, firstPlace_eq_none_iff, not_forall_not]
  constructor
  · rintro ⟨i, hi⟩
    exact hi.isInfix.trans (List.drop_suffix i text).isInfix
  · rintro ⟨before, after, rfl⟩
    refine ⟨before.length, ?_⟩
    rw [List.append_assoc, List.drop_left]
    exact List.prefix_append _ _

end Hat
