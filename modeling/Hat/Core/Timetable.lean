import Mathlib.Data.List.Find
import Mathlib.Data.List.Nodup
import Mathlib.Order.Basic

/-!
# Timetables

Items in a list have a start and a stop, and follow one another without overlapping.  A search
for the item that holds at a time is compared with the search for the earliest item from that
time on: at the stop of an item the two agree unless there is a gap.
-/

namespace Hat.Timetable

variable {α τ : Type*} [LinearOrder τ]

/-- Items in increasing order, none of them empty. -/
structure InOrder (start stop : α → τ) (items : List α) : Prop where
  lt : ∀ item ∈ items, start item < stop item
  pairwise : items.Pairwise fun earlier later => stop earlier ≤ start later

/-- An item with the least start of all that start at the time or after. -/
structure EarliestFrom (start : α → τ) (time : τ) (items : List α) (item : α) : Prop where
  mem : item ∈ items
  le : time ≤ start item
  least : ∀ other ∈ items, time ≤ start other → start item ≤ start other

def earliestFrom (start : α → τ) (time : τ) (items : List α) : Option α :=
  items.find? fun item => time ≤ start item

variable {start stop : α → τ} {items : List α} {time : τ}

theorem InOrder.starts_lt (h : InOrder start stop items) :
    items.Pairwise fun earlier later => start earlier < start later := by
  refine h.pairwise.imp_of_mem fun hearlier _ hle => ?_
  exact lt_of_lt_of_le (h.lt _ hearlier) hle

theorem InOrder.eq_of_start_eq (h : InOrder start stop items) {left right : α}
    (hleft : left ∈ items) (hright : right ∈ items) (hstart : start left = start right) :
    left = right := by
  have hnodup : (items.map start).Nodup :=
    List.pairwise_map.mpr (h.starts_lt.imp fun hlt => hlt.ne)
  exact List.inj_on_of_nodup_map hnodup hleft hright hstart

/-- In a timetable the first item from a time on is the earliest. -/
theorem earliestFrom_eq_some (h : InOrder start stop items) {item : α}
    (hfound : earliestFrom start time items = some item) :
    EarliestFrom start time items item := by
  obtain ⟨hle, before, after, rfl, hbefore⟩ := List.find?_eq_some_iff_append.mp hfound
  refine ⟨by simp, by simpa using hle, ?_⟩
  intro other hother hfrom
  rcases List.mem_append.mp hother with hother | hother
  · have hnot := hbefore other hother
    simp [hfrom] at hnot
  · rcases List.mem_cons.mp hother with rfl | hother
    · exact le_rfl
    · have hlater := (List.pairwise_cons.mp (List.pairwise_append.mp h.starts_lt).2.1).1
      exact (hlater other hother).le

theorem earliestFrom_eq_some_iff (h : InOrder start stop items) {item : α} :
    earliestFrom start time items = some item ↔ EarliestFrom start time items item := by
  refine ⟨earliestFrom_eq_some h, fun hitem => ?_⟩
  cases hfound : earliestFrom start time items with
  | none =>
      have hnot := List.find?_eq_none.mp hfound item hitem.mem
      simp [hitem.le] at hnot
  | some found =>
      have hfirst := earliestFrom_eq_some h hfound
      have hle := hitem.least found hfirst.mem hfirst.le
      have hge := hfirst.least item hitem.mem hitem.le
      rw [h.eq_of_start_eq hfirst.mem hitem.mem (le_antisymm hge hle)]

theorem earliestFrom_eq_none :
    earliestFrom start time items = none ↔ ∀ item ∈ items, start item < time := by
  rw [earliestFrom, List.find?_eq_none]
  simp

/-- A time that no item has in its inside. -/
def Border (start stop : α → τ) (items : List α) (time : τ) : Prop :=
  ∀ item ∈ items, stop item ≤ time ∨ time ≤ start item

theorem border_stop (h : InOrder start stop items) {item : α} (hitem : item ∈ items) :
    Border start stop items (stop item) := by
  intro other hother
  obtain ⟨before, after, rfl⟩ := List.append_of_mem hitem
  rcases List.mem_append.mp hother with hbefore | hafter
  · left
    have hle := (List.pairwise_append.mp h.pairwise).2.2 other hbefore item (by simp)
    exact hle.trans (h.lt item hitem).le
  · rcases List.mem_cons.mp hafter with rfl | hafter
    · exact Or.inl le_rfl
    · exact Or.inr ((List.pairwise_cons.mp (List.pairwise_append.mp h.pairwise).2.1).1 _ hafter)

theorem find?_start_eq (hlt : items.Pairwise fun earlier later => start earlier < start later) :
    items.find? (fun item => start item = time) =
      (earliestFrom start time items).filter fun item => start item = time := by
  induction items with
  | nil => rfl
  | cons item rest ih =>
      obtain ⟨hfirst, hrest⟩ := List.pairwise_cons.mp hlt
      rw [earliestFrom, List.find?_cons, List.find?_cons]
      rcases lt_trichotomy (start item) time with hbefore | hat | hafter
      · simp only [hbefore.ne, hbefore.not_ge, decide_false]
        exact ih hrest
      · simp [hat, Option.filter_some]
      · have hnone : rest.find? (fun other => start other = time) = none := by
          refine List.find?_eq_none.mpr fun other hother => ?_
          have hlater := hfirst other hother
          simpa using (hafter.trans hlater).ne'
        rw [hnone]
        simp [hafter.ne', hafter.le, Option.filter_some]

/-- At a border an item holds if and only if it starts there. -/
theorem find?_holds (h : InOrder start stop items) (hborder : Border start stop items time) :
    items.find? (fun item => start item ≤ time ∧ time < stop item) =
      (earliestFrom start time items).filter fun item => start item = time := by
  rw [← find?_start_eq h.starts_lt]
  refine List.find?_congr fun item hitem => ?_
  rw [decide_eq_decide]
  constructor
  · rintro ⟨hle, hlt⟩
    rcases hborder item hitem with hstop | hstart
    · exact absurd hlt (not_lt_of_ge hstop)
    · exact le_antisymm hle hstart
  · rintro rfl
    exact ⟨le_rfl, h.lt item hitem⟩

end Hat.Timetable
