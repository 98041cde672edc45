import Mathlib.Data.List.Induction
import Mathlib.Data.List.Pairwise
import Mathlib.Data.List.Perm.Basic
import Mathlib.Order.Lattice

/-!
# The first of the least items

A loop over a list that keeps the least key it has met and the place where it met it first.
In a list whose keys never decrease this is the front.
-/

namespace Hat

variable {α κ : Type*} [LinearOrder κ] (key : α → κ)

/-- The least key and its first place; no key stands for a bound that every key is below. -/
def firstMin (items : List α) : Option κ × ℕ :=
  items.zipIdx.foldl
    (fun (best : Option κ × ℕ) entry =>
      let current := key entry.1
      match best.1 with
      | some least => if current < least then (some current, entry.2) else best
      | none => (some current, entry.2))
    (none, 0)

structure IsFirstMin (items : List α) (place : ℕ) (least : κ) : Prop where
  found : ∃ item, items[place]? = some item ∧ key item = least
  le : ∀ item ∈ items, least ≤ key item
  first : ∀ earlier item, items[earlier]? = some item → key item = least → place ≤ earlier

variable {key}

theorem firstMin_append_singleton (items : List α) (item : α) :
    firstMin key (items ++ [item]) =
      match (firstMin key items).1 with
      | some least =>
          if key item < least then (some (key item), items.length) else firstMin key items
      | none => (some (key item), items.length) := by
  rw [firstMin, List.zipIdx_append, List.foldl_append]
  simp [firstMin]

/-- The place is found in the list. -/
theorem IsFirstMin.lt_length {items : List α} {place : ℕ} {least : κ}
    (h : IsFirstMin key items place least) : place < items.length := by
  obtain ⟨item, hitem, -⟩ := h.found
  exact (List.getElem?_eq_some_iff.mp hitem).1

theorem isFirstMin_singleton (item : α) : IsFirstMin key [item] 0 (key item) := by
  refine ⟨⟨item, rfl, rfl⟩, ?_, fun earlier _ _ _ => Nat.zero_le earlier⟩
  intro other hother
  rw [List.mem_singleton.mp hother]

/-- An item behind the others takes the place over only when its key is less. -/
theorem IsFirstMin.append_singleton {items : List α} {place : ℕ} {least : κ}
    (h : IsFirstMin key items place least) (item : α) :
    if key item < least then IsFirstMin key (items ++ [item]) items.length (key item)
    else IsFirstMin key (items ++ [item]) place least := by
  split_ifs with hlt
  · refine ⟨⟨item, List.getElem?_concat_length, rfl⟩, ?_, ?_⟩
    · intro other hother
      rcases List.mem_append.mp hother with hother | hother
      · exact hlt.le.trans (h.le other hother)
      · rw [List.mem_singleton.mp hother]
    · intro earlier other hother hkey
      by_contra hbefore
      rw [List.getElem?_append_left (not_le.mp hbefore)] at hother
      exact absurd (h.le other (List.mem_of_getElem? hother)) (hkey ▸ not_le.mpr hlt)
  · obtain ⟨found, hfound, hkey⟩ := h.found
    refine ⟨⟨found, by rw [List.getElem?_append_left h.lt_length, hfound], hkey⟩, ?_, ?_⟩
    · intro other hother
      rcases List.mem_append.mp hother with hother | hother
      · exact h.le other hother
      · rw [List.mem_singleton.mp hother]
        exact not_lt.mp hlt
    · intro earlier other hother hother_key
      rcases lt_or_ge earlier items.length with hbefore | hbehind
      · rw [List.getElem?_append_left hbefore] at hother
        exact h.first earlier other hother hother_key
      · exact h.lt_length.le.trans hbehind

variable (key) in
/-- The loop finds the first of the least items. -/
theorem isFirstMin_firstMin {items : List α} (hne : items ≠ []) :
    ∃ least, (firstMin key items).1 = some least ∧
      IsFirstMin key items (firstMin key items).2 least := by
  induction items using List.reverseRecOn with
  | nil => exact absurd rfl hne
  | append_singleton items item ih =>
      rw [firstMin_append_singleton]
      by_cases hitems : items = []
      · subst hitems
        exact ⟨key item, rfl, isFirstMin_singleton item⟩
      · obtain ⟨least, hleast, hfirst⟩ := ih hitems
        have happend := hfirst.append_singleton item
        simp only [hleast]
        split_ifs at happend ⊢ with hlt
        · exact ⟨key item, rfl, happend⟩
        · exact ⟨least, hleast, happend⟩

theorem IsFirstMin.unique {items : List α} {place place' : ℕ} {least least' : κ}
    (h : IsFirstMin key items place least) (h' : IsFirstMin key items place' least') :
    place = place' ∧ least = least' := by
  obtain ⟨item, hitem, hkey⟩ := h.found
  obtain ⟨item', hitem', hkey'⟩ := h'.found
  have hleast : least = least' := by
    apply le_antisymm
    · exact hkey' ▸ h.le item' (List.mem_of_getElem? hitem')
    · exact hkey ▸ h'.le item (List.mem_of_getElem? hitem)
  subst hleast
  exact ⟨le_antisymm (h.first place' item' hitem' hkey') (h'.first place item hitem hkey), rfl⟩

/-- Where the keys never decrease the front is the first of the least. -/
theorem isFirstMin_of_pairwise {item : α} {rest : List α}
    (hsorted : (item :: rest).Pairwise fun earlier later => key earlier ≤ key later) :
    IsFirstMin key (item :: rest) 0 (key item) := by
  refine ⟨⟨item, rfl, rfl⟩, ?_, fun earlier _ _ _ => Nat.zero_le earlier⟩
  intro other hother
  rcases List.mem_cons.mp hother with rfl | hother
  · exact le_refl _
  · exact List.rel_of_pairwise_cons hsorted hother

/-- The place found among the images of the items is the one among the items, when an image
has the key of its item. -/
theorem IsFirstMin.of_map {β : Type*} {f : β → α} {key' : β → κ} {items : List β} {place : ℕ}
    {least : κ} (hkey : ∀ item ∈ items, key (f item) = key' item)
    (h : IsFirstMin key (items.map f) place least) : IsFirstMin key' items place least := by
  refine ⟨?_, ?_, ?_⟩
  · obtain ⟨image, himage, hleast⟩ := h.found
    rw [List.getElem?_map] at himage
    obtain ⟨item, hitem, rfl⟩ := Option.map_eq_some_iff.mp himage
    exact ⟨item, hitem, (hkey item (List.mem_of_getElem? hitem)).symm.trans hleast⟩
  · intro item hitem
    rw [← hkey item hitem]
    exact h.le (f item) (List.mem_map_of_mem hitem)
  · intro earlier item hitem hleast
    apply h.first earlier (f item)
    · rw [List.getElem?_map, hitem, Option.map_some]
    · exact (hkey item (List.mem_of_getElem? hitem)).trans hleast

end Hat

/-!
# Delay lines

Items wait in a line until they are due.  An item that is accepted joins the line behind the
others; it leaves the line when it is counted, at a time that is recorded, or when the line is
cleared.  When items come in in the order in which they are due, the first of those due first
is always the front, so the line counts every item once, in the order of arrival and never
before it is due.
-/

namespace Hat

structure DelayLine (α τ : Type*) where
  accepted : List α
  waiting : List α
  cleared : List α
  counted : List (α × τ)

namespace DelayLine

variable {α τ : Type*}

def empty : DelayLine α τ := ⟨[], [], [], []⟩

def accept (item : α) (line : DelayLine α τ) : DelayLine α τ :=
  { line with accepted := line.accepted ++ [item], waiting := line.waiting ++ [item] }

/-- The item at a place of the line is counted. -/
def count (place : ℕ) (now : τ) (line : DelayLine α τ) : DelayLine α τ :=
  match line.waiting[place]? with
  | some item =>
      { line with
        waiting := line.waiting.eraseIdx place
        counted := line.counted ++ [(item, now)] }
  | none => line

def clear (line : DelayLine α τ) : DelayLine α τ :=
  { line with waiting := [], cleared := line.cleared ++ line.waiting }

theorem count_front {line : DelayLine α τ} {item : α} {rest : List α} (now : τ)
    (hwaiting : line.waiting = item :: rest) :
    line.count 0 now =
      { line with waiting := rest, counted := line.counted ++ [(item, now)] } := by
  rw [count, hwaiting, List.getElem?_cons_zero, List.eraseIdx_cons_zero]

variable [LinearOrder τ]

/-- Every accepted item is counted, cleared or waiting, and only one of these; the counted
ones, and the waiting ones behind them, stand in the order of arrival, were due when they were
counted, and wait in the order in which they are due. -/
structure Sound (due : α → τ) (line : DelayLine α τ) : Prop where
  once : (line.counted.map Prod.fst ++ line.cleared ++ line.waiting).Perm line.accepted
  inOrder : (line.counted.map Prod.fst ++ line.waiting).Sublist line.accepted
  notEarly : ∀ entry ∈ line.counted, due entry.1 ≤ entry.2
  sorted : line.waiting.Pairwise fun earlier later => due earlier ≤ due later

variable {due : α → τ} {line : DelayLine α τ}

theorem sound_empty : (empty : DelayLine α τ).Sound due :=
  ⟨List.Perm.refl _, List.Sublist.refl _, fun _ hentry => absurd hentry List.not_mem_nil,
    List.Pairwise.nil⟩

theorem Sound.accept (h : line.Sound due) {item : α}
    (hlast : ∀ earlier ∈ line.waiting, due earlier ≤ due item) :
    (line.accept item).Sound due := by
  refine ⟨?_, ?_, h.notEarly, ?_⟩
  · rw [DelayLine.accept, ← List.append_assoc]
    exact h.once.append_right [item]
  · rw [DelayLine.accept, ← List.append_assoc]
    exact h.inOrder.append_right [item]
  · apply List.pairwise_append.mpr
    refine ⟨h.sorted, List.pairwise_singleton _ _, fun earlier hearlier later hlater => ?_⟩
    rw [List.mem_singleton.mp hlater]
    exact hlast earlier hearlier

theorem Sound.count (h : line.Sound due) {item : α} {rest : List α} {now : τ}
    (hwaiting : line.waiting = item :: rest) (hdue : due item ≤ now) :
    (line.count 0 now).Sound due := by
  rw [count_front now hwaiting]
  have honce := h.once
  have hinOrder := h.inOrder
  have hsorted := h.sorted
  rw [hwaiting] at honce hinOrder hsorted
  refine ⟨?_, ?_, ?_, hsorted.of_cons⟩
  · -- The counted item moves in front of the cleared ones.
    refine List.Perm.trans ?_ honce
    rw [List.map_append, List.map_singleton, List.append_assoc, List.append_assoc,
      List.append_assoc]
    apply List.Perm.append_left
    rw [List.singleton_append]
    exact List.perm_middle.symm
  · rw [List.map_append, List.map_singleton, List.append_assoc]
    exact hinOrder
  · intro entry hentry
    rcases List.mem_append.mp hentry with hentry | hentry
    · exact h.notEarly entry hentry
    · rw [List.mem_singleton.mp hentry]
      exact hdue

theorem Sound.clear (h : line.Sound due) : line.clear.Sound due := by
  refine ⟨?_, ?_, h.notEarly, List.Pairwise.nil⟩
  · rw [DelayLine.clear, List.append_nil, ← List.append_assoc]
    exact h.once
  · rw [DelayLine.clear, List.append_nil]
    exact (List.sublist_append_left _ _).trans h.inOrder

end DelayLine

end Hat
