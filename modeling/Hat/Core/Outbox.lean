import Hat.Core.SortedMap
import Mathlib.Data.List.Nodup

/-!
# Outboxes

Items are put in a table under a key, and one whose key is taken is dropped.  Each item that
got in is taken out once, by its key.  What comes out in the order in which it was put in
is everything exactly when no two items have the same key.
-/

namespace Hat.Outbox

variable {κ ν : Type*} [LinearOrder κ]

/-- The items that get in. -/
def accepted : SortedMap κ ν → List (κ × ν) → List (κ × ν)
  | _, [] => []
  | table, item :: rest =>
      if table.contains item.1 then accepted table rest
      else item :: accepted (table.insertNew item.1 item.2) rest

def fill (table : SortedMap κ ν) (items : List (κ × ν)) : SortedMap κ ν :=
  items.foldl (fun table item => table.insertNew item.1 item.2) table

/-- The items that are taken out by their keys, one after the other. -/
def drain : SortedMap κ ν → List κ → List ν
  | _, [] => []
  | table, key :: rest =>
      match table.find? key with
      | some value => value :: drain (table.erase key) rest
      | none => drain table rest

theorem insertNew_of_contains {table : SortedMap κ ν} {key : κ} (value : ν)
    (hkey : table.contains key = true) : table.insertNew key value = table := if_pos hkey

theorem accepted_sublist (table : SortedMap κ ν) (items : List (κ × ν)) :
    (accepted table items).Sublist items := by
  induction items generalizing table with
  | nil => exact List.Sublist.refl []
  | cons item rest ih =>
      rw [accepted]
      split_ifs
      · exact (ih table).cons item
      · exact (ih _).cons_cons item

/-- Everything gets in exactly if the keys are new and pairwise distinct. -/
theorem accepted_eq_self_iff (table : SortedMap κ ν) (items : List (κ × ν)) :
    accepted table items = items ↔
      (items.map Prod.fst).Nodup ∧ ∀ item ∈ items, table.contains item.1 = false := by
  induction items generalizing table with
  | nil => simp [accepted]
  | cons item rest ih =>
      rw [accepted, List.map_cons, List.nodup_cons, List.forall_mem_cons]
      by_cases hkey : table.contains item.1 = true
      · rw [if_pos hkey]
        refine iff_of_false (fun heq => ?_) fun h => Bool.false_ne_true (h.2.1.symm.trans hkey)
        have hlength := (accepted_sublist table rest).length_le
        rw [heq, List.length_cons] at hlength
        omega
      · rw [if_neg hkey, List.cons_inj_right, ih]
        have hnew : ∀ other : κ × ν, (table.insertNew item.1 item.2).contains other.1 = false ↔
            item.1 ≠ other.1 ∧ table.contains other.1 = false := by
          intro other
          rw [← Bool.not_eq_true, SortedMap.contains_insertNew, not_or, Bool.not_eq_true]
        simp only [hnew, forall₂_and, List.mem_map, not_exists, not_and]
        constructor
        · rintro ⟨hnodup, hne, hfree⟩
          exact ⟨⟨fun other hother heq => hne other hother heq.symm, hnodup⟩,
            Bool.not_eq_true _ ▸ hkey, hfree⟩
        · rintro ⟨⟨hne, hnodup⟩, -, hfree⟩
          exact ⟨hnodup, fun other hother heq => hne other hother heq.symm, hfree⟩

/-- What is in the table stays. -/
theorem find?_fill_of_find? {table : SortedMap κ ν} {key : κ} {value : ν}
    (hfind : table.find? key = some value) (items : List (κ × ν)) :
    (fill table items).find? key = some value := by
  induction items generalizing table with
  | nil => exact hfind
  | cons item rest ih =>
      apply ih
      rw [SortedMap.find?_insertNew, if_neg]
      · exact hfind
      · rintro ⟨rfl, hfree⟩
        rw [SortedMap.contains, hfind] at hfree
        exact Bool.false_ne_true hfree.symm

theorem find?_fill_of_mem_accepted {table : SortedMap κ ν} {items : List (κ × ν)} {item : κ × ν}
    (hitem : item ∈ accepted table items) : (fill table items).find? item.1 = some item.2 := by
  induction items generalizing table with
  | nil => exact absurd hitem List.not_mem_nil
  | cons first rest ih =>
      rw [accepted] at hitem
      rw [fill, List.foldl_cons]
      split_ifs at hitem with hkey
      · rw [insertNew_of_contains first.2 hkey]
        exact ih hitem
      · obtain rfl | hrest := List.mem_cons.mp hitem
        · apply find?_fill_of_find?
          rw [SortedMap.find?_insertNew, if_pos ⟨rfl, Bool.not_eq_true _ ▸ hkey⟩]
        · exact ih hrest

theorem nodup_accepted (table : SortedMap κ ν) (items : List (κ × ν)) :
    ((accepted table items).map Prod.fst).Nodup ∧
      ∀ item ∈ accepted table items, table.contains item.1 = false := by
  induction items generalizing table with
  | nil => simp [accepted]
  | cons item rest ih =>
      rw [accepted]
      split_ifs with hkey
      · exact ih table
      · obtain ⟨hnodup, hfree⟩ := ih (table.insertNew item.1 item.2)
        have hnew : ∀ other ∈ accepted (table.insertNew item.1 item.2) rest,
            item.1 ≠ other.1 ∧ table.contains other.1 = false := by
          intro other hother
          have hother' := hfree other hother
          rwa [← Bool.not_eq_true, SortedMap.contains_insertNew, not_or, Bool.not_eq_true]
            at hother'
        refine ⟨List.nodup_cons.mpr ⟨fun hmem => ?_, hnodup⟩, List.forall_mem_cons.mpr
          ⟨Bool.not_eq_true _ ▸ hkey, fun other hother => (hnew other hother).2⟩⟩
        obtain ⟨other, hother, heq⟩ := List.mem_map.mp hmem
        exact (hnew other hother).1 heq.symm

/-- An item whose key is new gets in, or another one with its key does. -/
theorem exists_mem_accepted {table : SortedMap κ ν} {items : List (κ × ν)} {item : κ × ν}
    (hitem : item ∈ items) (hnew : table.contains item.1 = false) :
    ∃ other ∈ accepted table items, other.1 = item.1 := by
  induction items generalizing table with
  | nil => exact absurd hitem List.not_mem_nil
  | cons first rest ih =>
      rw [accepted]
      split_ifs with hkey
      · obtain rfl | hrest := List.mem_cons.mp hitem
        · exact absurd hkey (Bool.not_eq_true _ ▸ hnew)
        · exact ih hrest hnew
      · by_cases hsame : first.1 = item.1
        · exact ⟨first, List.mem_cons_self, hsame⟩
        · obtain rfl | hrest := List.mem_cons.mp hitem
          · exact absurd rfl hsame
          · have hfree : (table.insertNew first.1 first.2).contains item.1 = false := by
              rw [← Bool.not_eq_true, SortedMap.contains_insertNew, not_or, Bool.not_eq_true]
              exact ⟨hsame, hnew⟩
            obtain ⟨other, hother, heq⟩ := ih hrest hfree
            exact ⟨other, List.mem_cons_of_mem first hother, heq⟩

theorem drain_eq_map {table : SortedMap κ ν} {items : List (κ × ν)}
    (hnodup : (items.map Prod.fst).Nodup)
    (hfind : ∀ item ∈ items, table.find? item.1 = some item.2) :
    drain table (items.map Prod.fst) = items.map Prod.snd := by
  induction items generalizing table with
  | nil => rfl
  | cons item rest ih =>
      rw [List.map_cons, List.nodup_cons] at hnodup
      obtain ⟨hitem, hrest⟩ := List.forall_mem_cons.mp hfind
      rw [List.map_cons, List.map_cons, drain, hitem]
      refine congrArg (item.2 :: ·) (ih hnodup.2 fun other hother => ?_)
      rw [SortedMap.find?_erase, if_neg]
      · exact hrest other hother
      · intro heq
        exact hnodup.1 (heq ▸ List.mem_map_of_mem hother)

/-- All that got in comes out. -/
theorem drain_fill (table : SortedMap κ ν) (items : List (κ × ν)) :
    drain (fill table items) ((accepted table items).map Prod.fst) =
      (accepted table items).map Prod.snd :=
  drain_eq_map (nodup_accepted table items).1 fun _ hitem => find?_fill_of_mem_accepted hitem

end Hat.Outbox
