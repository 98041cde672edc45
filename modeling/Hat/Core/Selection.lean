import Mathlib.Data.List.Forall2
import Mathlib.Data.List.Perm.Basic
import Mathlib.Data.List.Sort
import Mathlib.Order.Lattice

/-!
# Selection by a scan

A loop over a list keeps a bound and an index: an eligible element whose key beats the bound
becomes the pick, and its key the new bound.  The pick is the element that beats the bound
given at first and all eligible ones before it, and is beaten by none after it.  With `<` this
is the first least element below the bound, with `≥` the last greatest one from the bound on.
A second loop changes the first element that matches; what it does is said item by item.
-/

namespace Hat.Selection

variable {α κ : Type*}

/-- The loop: elements still to come, the next index, the bound and the pick so far. -/
def scan (beats : κ → κ → Bool) (ok : α → Bool) (key : α → κ) :
    List α → ℕ → κ → Option ℕ → Option ℕ
  | [], _, _, found => found
  | x :: rest, index, bound, found =>
      if ok x && beats (key x) bound then scan beats ok key rest (index + 1) (key x) (some index)
      else scan beats ok key rest (index + 1) bound found

def select (beats : κ → κ → Bool) (ok : α → Bool) (key : α → κ) (bound : κ) (xs : List α) :
    Option ℕ :=
  scan beats ok key xs 0 bound none

/-- An element that beats the bound and all before it, with those around it. -/
structure Picked (beats : κ → κ → Bool) (ok : α → Bool) (key : α → κ) (bound : κ)
    (before : List α) (x : α) (after : List α) : Prop where
  eligible : ok x = true
  beats_bound : beats (key x) bound = true
  beats_before : ∀ y ∈ before, ok y = true → beats (key x) (key y) = true
  unbeaten : ∀ y ∈ after, ok y = true → beats (key y) (key x) = false

variable {beats : κ → κ → Bool} {ok : α → Bool} {key : α → κ} {bound : κ} {xs : List α}

theorem scan_eq_none_iff (index : ℕ) (found : Option ℕ) :
    scan beats ok key xs index bound found = none ↔
      found = none ∧ ∀ x ∈ xs, ok x = true → beats (key x) bound = false := by
  induction xs generalizing index bound found with
  | nil => simp [scan]
  | cons x rest ih =>
      rw [scan, List.forall_mem_cons]
      by_cases hx : (ok x && beats (key x) bound) = true
      · rw [if_pos hx, ih]
        rw [Bool.and_eq_true] at hx
        constructor
        · rintro ⟨hsome, _⟩
          exact absurd hsome (Option.some_ne_none _)
        · rintro ⟨_, hnot, _⟩
          exact absurd (hnot hx.1) (by rw [hx.2]; decide)
      · rw [if_neg hx, ih]
        rw [Bool.and_eq_true, not_and, Bool.not_eq_true] at hx
        exact and_congr_right fun _ => (and_iff_right hx).symm

/-- Nothing is picked exactly if no eligible element beats the bound. -/
theorem select_eq_none_iff : select beats ok key bound xs = none ↔
    ∀ x ∈ xs, ok x = true → beats (key x) bound = false := by
  rw [select, scan_eq_none_iff]
  exact and_iff_right rfl

theorem scan_map {β : Type*} (f : β → α) (ys : List β) (index : ℕ) (found : Option ℕ) :
    scan beats ok key (ys.map f) index bound found =
      scan beats (ok ∘ f) (key ∘ f) ys index bound found := by
  induction ys generalizing index bound found with
  | nil => rfl
  | cons y rest ih =>
      rw [List.map_cons, scan, scan, ih, ih]
      rfl

section

variable (htrans : ∀ a b c, beats a b = true → beats b c = true → beats a c = true)
  (hcotrans : ∀ a b c, beats a b = true → beats c b = false → beats a c = true)
include htrans hcotrans

theorem scan_eq_some_iff (index : ℕ) (found : Option ℕ) (i : ℕ) :
    scan beats ok key xs index bound found = some i ↔
      (found = some i ∧ ∀ x ∈ xs, ok x = true → beats (key x) bound = false) ∨
        ∃ before x after, xs = before ++ x :: after ∧ index + before.length = i ∧
          Picked beats ok key bound before x after := by
  induction xs generalizing index bound found with
  | nil => simp [scan]
  | cons y rest ih =>
      rw [scan, List.forall_mem_cons]
      by_cases hy : (ok y && beats (key y) bound) = true
      · rw [if_pos hy, ih]
        rw [Bool.and_eq_true] at hy
        constructor
        · rintro (⟨hindex, hrest⟩ | ⟨before, x, after, rfl, rfl, hx⟩)
          · exact Or.inr ⟨[], y, rest, rfl, Option.some.inj hindex, hy.1, hy.2,
              fun _ hmem => absurd hmem List.not_mem_nil, hrest⟩
          · refine Or.inr ⟨y :: before, x, after, rfl, ?_, hx.eligible,
              htrans _ _ _ hx.beats_bound hy.2, ?_, hx.unbeaten⟩
            · rw [List.length_cons]
              omega
            · exact List.forall_mem_cons.mpr ⟨fun _ => hx.beats_bound, hx.beats_before⟩
        · rintro (⟨_, hnot, _⟩ | ⟨before, x, after, heq, rfl, hx⟩)
          · exact absurd (hnot hy.1) (by rw [hy.2]; decide)
          · cases before with
            | nil =>
                obtain ⟨rfl, rfl⟩ := List.cons_eq_cons.mp heq
                exact Or.inl ⟨rfl, hx.unbeaten⟩
            | cons first before =>
                obtain ⟨rfl, rfl⟩ := List.cons_eq_cons.mp heq
                obtain ⟨hfirst, hbefore⟩ := List.forall_mem_cons.mp hx.beats_before
                refine Or.inr
                  ⟨before, x, after, rfl, ?_, hx.eligible, hfirst hy.1, hbefore, hx.unbeaten⟩
                rw [List.length_cons]
                omega
      · rw [if_neg hy, ih]
        rw [Bool.and_eq_true, not_and, Bool.not_eq_true] at hy
        refine or_congr (and_congr_right fun _ => (and_iff_right hy).symm) ?_
        constructor
        · rintro ⟨before, x, after, rfl, rfl, hx⟩
          refine ⟨y :: before, x, after, rfl, ?_, hx.eligible, hx.beats_bound, ?_, hx.unbeaten⟩
          · rw [List.length_cons]
            omega
          · exact List.forall_mem_cons.mpr
              ⟨fun hok => hcotrans _ _ _ hx.beats_bound (hy hok), hx.beats_before⟩
        · rintro ⟨before, x, after, heq, rfl, hx⟩
          cases before with
          | nil =>
              obtain ⟨rfl, rfl⟩ := List.cons_eq_cons.mp heq
              exact absurd (hy hx.eligible) (by rw [hx.beats_bound]; decide)
          | cons first before =>
              obtain ⟨rfl, rfl⟩ := List.cons_eq_cons.mp heq
              obtain ⟨_, hbefore⟩ := List.forall_mem_cons.mp hx.beats_before
              refine ⟨before, x, after, rfl, ?_, hx.eligible, hx.beats_bound, hbefore, hx.unbeaten⟩
              rw [List.length_cons]
              omega

/-- The pick is the element that beats the bound and all eligible ones before it, and is
beaten by none after it. -/
theorem select_eq_some_iff (i : ℕ) : select beats ok key bound xs = some i ↔
    ∃ before x after, xs = before ++ x :: after ∧ before.length = i ∧
      Picked beats ok key bound before x after := by
  rw [select, scan_eq_some_iff htrans hcotrans]
  simp

end

section

variable [LinearOrder κ]

/-- The first least key below the bound. -/
def selectMin (ok : α → Bool) (key : α → κ) (bound : κ) (xs : List α) : Option ℕ :=
  select (fun k b => decide (k < b)) ok key bound xs

/-- The last greatest key from the bound on. -/
def selectMax (ok : α → Bool) (key : α → κ) (bound : κ) (xs : List α) : Option ℕ :=
  select (fun k b => decide (b ≤ k)) ok key bound xs

theorem selectMin_map {β : Type*} (f : β → α) (ys : List β) :
    selectMin ok key bound (ys.map f) = selectMin (ok ∘ f) (key ∘ f) bound ys :=
  scan_map f ys 0 none

theorem selectMax_map {β : Type*} (f : β → α) (ys : List β) :
    selectMax ok key bound (ys.map f) = selectMax (ok ∘ f) (key ∘ f) bound ys :=
  scan_map f ys 0 none

theorem selectMin_eq_none_iff : selectMin ok key bound xs = none ↔
    ∀ x ∈ xs, ok x = true → bound ≤ key x := by
  simp [selectMin, select_eq_none_iff]

theorem selectMax_eq_none_iff : selectMax ok key bound xs = none ↔
    ∀ x ∈ xs, ok x = true → key x < bound := by
  simp [selectMax, select_eq_none_iff]

theorem selectMin_eq_some_iff (i : ℕ) : selectMin ok key bound xs = some i ↔
    ∃ before x after, xs = before ++ x :: after ∧ before.length = i ∧ ok x = true ∧
      key x < bound ∧ (∀ y ∈ before, ok y = true → key x < key y) ∧
      ∀ y ∈ after, ok y = true → key x ≤ key y := by
  have htrans : ∀ a b c : κ, decide (a < b) = true → decide (b < c) = true →
      decide (a < c) = true := by
    simp only [decide_eq_true_eq]
    exact fun _ _ _ => lt_trans
  have hcotrans : ∀ a b c : κ, decide (a < b) = true → decide (c < b) = false →
      decide (a < c) = true := by
    simp only [decide_eq_true_eq, decide_eq_false_iff_not, not_lt]
    exact fun _ _ _ => lt_of_lt_of_le
  rw [selectMin, select_eq_some_iff htrans hcotrans]
  refine exists₃_congr fun before x after => and_congr_right fun _ => and_congr_right fun _ => ?_
  constructor
  · intro hx
    exact ⟨hx.eligible, by simpa using hx.beats_bound, by simpa using hx.beats_before,
      by simpa using hx.unbeaten⟩
  · rintro ⟨hok, hbound, hbefore, hafter⟩
    exact ⟨hok, by simpa using hbound, by simpa using hbefore, by simpa using hafter⟩

theorem selectMax_eq_some_iff (i : ℕ) : selectMax ok key bound xs = some i ↔
    ∃ before x after, xs = before ++ x :: after ∧ before.length = i ∧ ok x = true ∧
      bound ≤ key x ∧ (∀ y ∈ before, ok y = true → key y ≤ key x) ∧
      ∀ y ∈ after, ok y = true → key y < key x := by
  have htrans : ∀ a b c : κ, decide (b ≤ a) = true → decide (c ≤ b) = true →
      decide (c ≤ a) = true := by
    simp only [decide_eq_true_eq]
    exact fun _ _ _ hba hcb => le_trans hcb hba
  have hcotrans : ∀ a b c : κ, decide (b ≤ a) = true → decide (b ≤ c) = false →
      decide (c ≤ a) = true := by
    simp only [decide_eq_true_eq, decide_eq_false_iff_not, not_le]
    exact fun _ _ _ hba hcb => le_trans (le_of_lt hcb) hba
  rw [selectMax, select_eq_some_iff htrans hcotrans]
  refine exists₃_congr fun before x after => and_congr_right fun _ => and_congr_right fun _ => ?_
  constructor
  · intro hx
    exact ⟨hx.eligible, by simpa using hx.beats_bound, by simpa using hx.beats_before,
      by simpa using hx.unbeaten⟩
  · rintro ⟨hok, hbound, hbefore, hafter⟩
    exact ⟨hok, by simpa using hbound, by simpa using hbefore, by simpa using hafter⟩

end

/-! ## Changing the first match -/

/-- The first element that matches is changed, the others stay. -/
def changeFirst (hits : α → Bool) (change : α → α) : List α → List α
  | [] => []
  | x :: rest => if hits x then change x :: rest else x :: changeFirst hits change rest

theorem map_changeFirst {β : Type*} {f : α → β} {hits : α → Bool} {hits' : β → Bool}
    {change : α → α} {change' : β → β} (hhits : ∀ x, hits' (f x) = hits x)
    (hchange : ∀ x, change' (f x) = f (change x)) (xs : List α) :
    changeFirst hits' change' (xs.map f) = (changeFirst hits change xs).map f := by
  induction xs with
  | nil => rfl
  | cons x rest ih =>
      rw [List.map_cons, changeFirst, changeFirst, hhits, ih, hchange]
      split <;> rfl

theorem map_modify {β : Type*} {f : α → β} {change : α → α} {change' : β → β}
    (hchange : ∀ x, change' (f x) = f (change x)) (xs : List α) (n : ℕ) :
    (xs.map f).modify n change' = (xs.modify n change).map f := by
  induction xs generalizing n with
  | nil => rw [List.map_nil, List.modify_nil, List.modify_nil, List.map_nil]
  | cons x rest ih =>
      cases n with
      | zero =>
          rw [List.map_cons, List.modify_zero_cons, List.modify_zero_cons, hchange, List.map_cons]
      | succ n =>
          rw [List.map_cons, List.modify_succ_cons, List.modify_succ_cons, ih, List.map_cons]

/-- Where one element at most hits, the loop changes all that do. -/
theorem changeFirst_eq_map {hits : α → Bool} {change : α → α} {xs : List α}
    (hone : xs.Pairwise fun x y => ¬(hits x ∧ hits y)) :
    changeFirst hits change xs = xs.map fun x => if hits x then change x else x := by
  induction xs with
  | nil => rfl
  | cons x rest ih =>
      obtain ⟨hx, hrest⟩ := List.pairwise_cons.mp hone
      rw [changeFirst, List.map_cons, ih hrest]
      split
      · rename_i hhits
        have hothers : ∀ y ∈ rest, (if hits y then change y else y) = y :=
          fun y hy => if_neg fun hother => hx y hy ⟨hhits, hother⟩
        rw [List.map_congr_left hothers, List.map_id']
      · rfl

theorem filter_changeFirst {hits kept : α → Bool} {change : α → α}
    (hkept : ∀ x, hits x → kept x ∧ kept (change x)) (xs : List α) :
    (changeFirst hits change xs).filter kept = changeFirst hits change (xs.filter kept) := by
  induction xs with
  | nil => rfl
  | cons x rest ih =>
      rw [changeFirst]
      by_cases hhits : hits x = true
      · rw [if_pos hhits, List.filter_cons_of_pos (hkept x hhits).2,
          List.filter_cons_of_pos (hkept x hhits).1, changeFirst, if_pos hhits]
      · rw [if_neg hhits, List.filter_cons, List.filter_cons, ih]
        split
        · rw [changeFirst, if_neg hhits]
        · rfl

theorem forall₂_changeFirst {R : α → α → Prop} {hits : α → Bool} {change : α → α}
    (hrefl : ∀ x, R x x) (hchange : ∀ x, hits x = true → R x (change x)) (xs : List α) :
    List.Forall₂ R xs (changeFirst hits change xs) := by
  induction xs with
  | nil => exact List.Forall₂.nil
  | cons x rest ih =>
      rw [changeFirst]
      split
      · exact List.Forall₂.cons (hchange x ‹_›) (List.forall₂_same.mpr fun y _ => hrefl y)
      · exact List.Forall₂.cons (hrefl x) ih

theorem exists_mem_left {R : α → κ → Prop} {xs : List α} {ys : List κ}
    (hR : List.Forall₂ R xs ys) {y : κ} (hy : y ∈ ys) : ∃ x ∈ xs, R x y := by
  induction hR with
  | nil => exact absurd hy List.not_mem_nil
  | @cons x y' rest rest' hx _ ih =>
      obtain rfl | hrest := List.mem_cons.mp hy
      · exact ⟨x, List.mem_cons_self, hx⟩
      · obtain ⟨x', hmem, hx'⟩ := ih hrest
        exact ⟨x', List.mem_cons_of_mem x hmem, hx'⟩

theorem forall₂_modify {R : α → α → Prop} {change : α → α} (hrefl : ∀ x, R x x)
    (hchange : ∀ x, R x (change x)) (xs : List α) (n : ℕ) :
    List.Forall₂ R xs (xs.modify n change) := by
  induction xs generalizing n with
  | nil =>
      rw [List.modify_nil]
      exact List.Forall₂.nil
  | cons x rest ih =>
      cases n with
      | zero => exact List.Forall₂.cons (hchange x) (List.forall₂_same.mpr fun y _ => hrefl y)
      | succ n => exact List.Forall₂.cons (hrefl x) (ih n)

/-- What follows an item stands at the same place. -/
theorem exists_getElem?_right {R : α → κ → Prop} {xs : List α} {ys : List κ}
    (hR : List.Forall₂ R xs ys) {i : ℕ} {x : α} (hx : xs[i]? = some x) :
    ∃ y, ys[i]? = some y ∧ R x y := by
  induction hR generalizing i with
  | nil => exact absurd hx.symm (Option.some_ne_none _)
  | @cons x' y rest rest' hxy _ ih =>
      cases i with
      | zero => exact ⟨y, rfl, Option.some.inj hx ▸ hxy⟩
      | succ i => exact ih hx

/-- A relation between two elements of a list passes to a list that follows it item by item. -/
theorem pairwise_of_forall₂ {R P : α → α → Prop}
    (hP : ∀ x x' y y', R x x' → R y y' → P x y → P x' y') {xs ys : List α}
    (hR : List.Forall₂ R xs ys) (hxs : xs.Pairwise P) : ys.Pairwise P := by
  induction hR with
  | nil => exact List.Pairwise.nil
  | @cons x x' rest rest' hx hrest ih =>
      obtain ⟨hhead, htail⟩ := List.pairwise_cons.mp hxs
      refine List.pairwise_cons.mpr ⟨fun y' hy' => ?_, ih htail⟩
      obtain ⟨y, hy, hyy'⟩ := exists_mem_left hrest hy'
      exact hP x x' y y' hx hyy' (hhead y hy)

end Hat.Selection

/-!
# Repeated selections

An element that is picked drops out, and the next scan picks among the others.  The picks come
in the order of a stable sort by the key: equal keys keep the order of the list.
-/

namespace Hat.Selection

variable {α κ ω : Type*} [LinearOrder κ] {ok : α → Bool} {key : α → κ} {bound : κ}

/-- The eligible elements below the bound, the least key first. -/
def queue (ok : α → Bool) (key : α → κ) (bound : κ) (xs : List α) : List α :=
  (xs.filter fun x => ok x && decide (key x < bound)).insertionSort fun x y => key x ≤ key y

theorem insertionSort_append_cons {r : α → α → Prop} [DecidableRel r] {before after : List α}
    {x : α} (hbefore : ∀ y ∈ before, ¬r y x) (hafter : ∀ y ∈ after, r x y) :
    (before ++ x :: after).insertionSort r = x :: (before ++ after).insertionSort r := by
  induction before with
  | nil =>
      rw [List.nil_append, List.nil_append]
      exact List.insertionSort_cons_of_forall_rel r hafter
  | cons y rest ih =>
      obtain ⟨hy, hrest⟩ := List.forall_mem_cons.mp hbefore
      calc
        (y :: rest ++ x :: after).insertionSort r
            = (x :: (rest ++ after).insertionSort r).orderedInsert r y := by
          rw [List.cons_append, List.insertionSort_cons, ih hrest]
        _ = x :: ((rest ++ after).insertionSort r).orderedInsert r y :=
          List.orderedInsert_of_not_le r _ hy
        _ = x :: (y :: rest ++ after).insertionSort r := by
          rw [List.cons_append, List.insertionSort_cons]

theorem queue_append_cons_of_not {before after : List α} {x : α} (hx : ok x = false) :
    queue ok key bound (before ++ x :: after) = queue ok key bound (before ++ after) := by
  simp only [queue, List.filter_append, List.filter_cons, hx, Bool.false_and, Bool.false_eq_true,
    if_false]

theorem queue_eq_nil_of_selectMin {xs : List α} (hnone : selectMin ok key bound xs = none) :
    queue ok key bound xs = [] := by
  have hfilter : (xs.filter fun x => ok x && decide (key x < bound)) = [] := by
    apply List.filter_eq_nil_iff.mpr
    intro x hx
    rw [Bool.and_eq_true, decide_eq_true_eq, not_and, not_lt]
    exact selectMin_eq_none_iff.mp hnone x hx
  rw [queue, hfilter, List.insertionSort_nil]

/-- A scan picks the first element of the queue, and leaves the rest of it. -/
theorem queue_of_selectMin {xs : List α} {i : ℕ} (hpick : selectMin ok key bound xs = some i) :
    ∃ before x after, xs = before ++ x :: after ∧ before.length = i ∧ ok x = true ∧
      queue ok key bound xs = x :: queue ok key bound (before ++ after) := by
  obtain ⟨before, x, after, rfl, hlength, hok, hbound, hbefore, hafter⟩ :=
    (selectMin_eq_some_iff i).mp hpick
  refine ⟨before, x, after, rfl, hlength, hok, ?_⟩
  have hx : (ok x && decide (key x < bound)) = true := by
    rw [hok, decide_eq_true hbound, Bool.and_self]
  simp only [queue, List.filter_append, List.filter_cons, hx, if_true]
  apply insertionSort_append_cons
  · intro y hy
    have heligible := (List.mem_filter.mp hy).2
    rw [Bool.and_eq_true] at heligible
    exact not_le.mpr (hbefore y (List.mem_filter.mp hy).1 heligible.1)
  · intro y hy
    have heligible := (List.mem_filter.mp hy).2
    rw [Bool.and_eq_true] at heligible
    exact hafter y (List.mem_filter.mp hy).1 heligible.1

/-- What is read off a sorted list is settled by the keys and by what is read off the items. -/
theorem map_insertionSort_key (key : α → κ) (label : α → ω) (xs : List α) :
    (xs.insertionSort fun x y => key x ≤ key y).map label =
      ((xs.map fun x => (key x, label x)).insertionSort
        fun p q : κ × ω => p.1 ≤ q.1).map Prod.snd := by
  have hmap := List.map_insertionSort (fun x y => key x ≤ key y) (fun p q : κ × ω => p.1 ≤ q.1)
    (fun x => (key x, label x)) xs fun _ _ _ _ => Iff.rfl
  rw [← hmap, List.map_map]
  rfl

/-- Only what the choice looks at matters for the queue, and for what is read off it. -/
theorem map_queue_congr {β : Type*} {ok' : β → Bool} {key' : β → κ} {label : α → ω}
    {label' : β → ω} {xs : List α} {ys : List β}
    (hxs : List.Forall₂ (fun x y => ok x = ok' y ∧ key x = key' y ∧ label x = label' y) xs ys) :
    (queue ok key bound xs).map label = (queue ok' key' bound ys).map label' := by
  have hviews : ((xs.filter fun x => ok x && decide (key x < bound)).map
        fun x => (key x, label x)) =
      (ys.filter fun y => ok' y && decide (key' y < bound)).map
        fun y => (key' y, label' y) := by
    induction hxs with
    | nil => rfl
    | @cons x y rest rest' hxy _ ih =>
        rw [List.filter_cons, List.filter_cons, hxy.1, hxy.2.1]
        split
        · rw [List.map_cons, List.map_cons, ih, hxy.2.1, hxy.2.2]
        · exact ih
  rw [queue, queue, map_insertionSort_key key label, map_insertionSort_key key' label', hviews]

end Hat.Selection

/-!
# Changes by key

Each of several orders changes the first element of its key and leaves the key as it is.  When
the orders name each element of a list once, each element is changed once, whatever the order
of the list.
-/

namespace Hat.Selection

variable {α β κ : Type*} {key : α → κ} {tag : β → κ}

theorem map_key_changeFirst {change : α → α} (hkey : ∀ x, key (change x) = key x)
    (hits : α → Bool) (xs : List α) : (changeFirst hits change xs).map key = xs.map key := by
  induction xs with
  | nil => rfl
  | cons x rest ih =>
      rw [changeFirst]
      split
      · rw [List.map_cons, List.map_cons, hkey]
      · rw [List.map_cons, List.map_cons, ih]

variable [DecidableEq κ] {change : β → α → α}

/-- Every order changes the first element of its key. -/
def changeEach (key : α → κ) (tag : β → κ) (change : β → α → α) (orders : List β)
    (xs : List α) : List α :=
  orders.foldl (fun xs order => changeFirst (fun x => tag order = key x) (change order) xs) xs

theorem changeEach_cons (order : β) (orders : List β) (xs : List α) :
    changeEach key tag change (order :: orders) xs = changeEach key tag change orders
      (changeFirst (fun x => tag order = key x) (change order) xs) := rfl

theorem filter_changeEach {kept : α → Bool} {orders : List β}
    (hkept : ∀ order ∈ orders, ∀ x, tag order = key x → kept x ∧ kept (change order x))
    (xs : List α) : (changeEach key tag change orders xs).filter kept =
      changeEach key tag change orders (xs.filter kept) := by
  induction orders generalizing xs with
  | nil => rfl
  | cons order orders ih =>
      obtain ⟨horder, horders⟩ := List.forall_mem_cons.mp hkept
      rw [changeEach_cons, changeEach_cons, ih horders,
        filter_changeFirst fun x hx => horder x (of_decide_eq_true hx)]

/-- Orders for other elements pass the first one by. -/
theorem changeEach_cons_of_notMem {orders : List β} {x : α} (hx : key x ∉ orders.map tag)
    (xs : List α) : changeEach key tag change orders (x :: xs) =
      x :: changeEach key tag change orders xs := by
  induction orders generalizing xs with
  | nil => rfl
  | cons order orders ih =>
      rw [List.map_cons, List.mem_cons, not_or] at hx
      have hmiss : ¬ decide (tag order = key x) = true := fun h => hx.1 (of_decide_eq_true h).symm
      rw [changeEach_cons, changeFirst, if_neg hmiss, ih hx.2, changeEach_cons]

variable (hkey : ∀ order x, key (change order x) = key x)
include hkey

theorem map_key_changeEach (orders : List β) (xs : List α) :
    (changeEach key tag change orders xs).map key = xs.map key := by
  induction orders generalizing xs with
  | nil => rfl
  | cons order orders ih => rw [changeEach_cons, ih, map_key_changeFirst (hkey order)]

/-- Where the keys differ, the order of the list does not matter. -/
theorem perm_changeEach {xs ys : List α} (hnodup : (xs.map key).Nodup) (hperm : xs.Perm ys)
    (orders : List β) :
    (changeEach key tag change orders xs).Perm (changeEach key tag change orders ys) := by
  induction orders generalizing xs ys with
  | nil => exact hperm
  | cons order orders ih =>
      have hone : ∀ {zs : List α}, (zs.map key).Nodup →
          changeFirst (fun x => tag order = key x) (change order) zs =
            zs.map fun x => if tag order = key x then change order x else x := by
        intro zs hzs
        rw [changeFirst_eq_map]
        · simp only [decide_eq_true_eq]
        · refine (List.pairwise_map.mp hzs).imp fun {x y} hne hboth => hne ?_
          exact (of_decide_eq_true hboth.1).symm.trans (of_decide_eq_true hboth.2)
      have hnodup' : (ys.map key).Nodup := (hperm.map key).nodup_iff.mp hnodup
      rw [changeEach_cons, changeEach_cons]
      refine ih ?_ ?_
      · rwa [map_key_changeFirst (hkey order)]
      · rw [hone hnodup, hone hnodup']
        exact hperm.map _

/-- Orders in the order of the list change its elements one by one. -/
theorem changeEach_eq_zipWith {orders : List β} {xs : List α}
    (htags : xs.map key = orders.map tag) (hnodup : (orders.map tag).Nodup) :
    changeEach key tag change orders xs = List.zipWith change orders xs := by
  induction orders generalizing xs with
  | nil =>
      rw [List.map_nil, List.map_eq_nil_iff] at htags
      rw [htags]
      rfl
  | cons order orders ih =>
      cases xs with
      | nil => exact absurd htags.symm (List.cons_ne_nil _ _)
      | cons x xs =>
          obtain ⟨hfirst, hrest⟩ := List.cons_eq_cons.mp htags
          obtain ⟨hother, hothers⟩ := List.nodup_cons.mp hnodup
          have hx : key (change order x) ∉ orders.map tag := by
            rw [hkey, hfirst]
            exact hother
          rw [changeEach_cons, changeFirst, if_pos (decide_eq_true hfirst.symm),
            changeEach_cons_of_notMem hx, ih hrest hothers, List.zipWith_cons_cons]

/-- Orders that name each element once change each element once. -/
theorem exists_perm_zipWith {orders : List β} {xs : List α}
    (htags : (xs.map key).Perm (orders.map tag)) (hnodup : (orders.map tag).Nodup) :
    ∃ ys : List α, ys.Perm xs ∧ ys.map key = orders.map tag ∧
      (changeEach key tag change orders xs).Perm (List.zipWith change orders ys) := by
  have hcomp : Relation.Comp (· = List.map key ·) List.Perm (orders.map tag) xs := by
    rw [List.eq_map_comp_perm]
    exact htags.symm
  obtain ⟨ys, hys, hperm⟩ := hcomp
  refine ⟨ys, hperm, hys.symm, ?_⟩
  rw [← changeEach_eq_zipWith hkey hys.symm hnodup]
  exact perm_changeEach hkey (htags.nodup_iff.mpr hnodup) hperm.symm orders

end Hat.Selection
