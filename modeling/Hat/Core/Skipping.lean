import Mathlib.Data.List.Basic
import Mathlib.Data.List.Chain

/-!
# Erasing while traversing

A loop that erases an element and then advances does not look at the element behind it.
What it leaves contains an unwanted element exactly when two unwanted elements stand next
to each other.
-/

namespace Hat

variable {α : Type*} (unwanted : α → Bool)

/-- How many elements the loop erases and what it leaves. -/
def eraseSkipping : List α → ℕ × List α
  | [] => (0, [])
  | [x] => if unwanted x then (1, []) else (0, [x])
  | x :: y :: rest =>
      if unwanted x then ((eraseSkipping rest).1 + 1, y :: (eraseSkipping rest).2)
      else ((eraseSkipping (y :: rest)).1, x :: (eraseSkipping (y :: rest)).2)

/-- No two unwanted elements stand next to each other. -/
def Scattered (xs : List α) : Prop := xs.IsChain fun x y => ¬(unwanted x ∧ unwanted y)

instance : DecidablePred (Scattered unwanted) := fun xs =>
  inferInstanceAs (Decidable (xs.IsChain _))

theorem scattered_cons_of_wanted {x : α} (hwanted : unwanted x = false) (xs : List α) :
    Scattered unwanted (x :: xs) ↔ Scattered unwanted xs := by
  rw [Scattered, List.isChain_cons, and_iff_right]
  · rfl
  · intro y _
    simp [hwanted]

theorem scattered_cons_cons_of_unwanted {x : α} (hunwanted : unwanted x) (y : α) (xs : List α) :
    Scattered unwanted (x :: y :: xs) ↔ unwanted y = false ∧ Scattered unwanted xs := by
  calc Scattered unwanted (x :: y :: xs)
    _ ↔ unwanted y = false ∧ Scattered unwanted (y :: xs) := by
        rw [Scattered, List.isChain_cons_cons, hunwanted]
        simp [Scattered]
    _ ↔ unwanted y = false ∧ Scattered unwanted xs := by
        apply and_congr_right
        intro hwanted
        exact scattered_cons_of_wanted unwanted hwanted xs

/-- The number returned is the number of elements erased. -/
theorem length_eraseSkipping (xs : List α) :
    (eraseSkipping unwanted xs).1 + (eraseSkipping unwanted xs).2.length = xs.length := by
  fun_induction eraseSkipping unwanted xs with
  | case1 => rfl
  | case2 x hunwanted => rfl
  | case3 x hwanted => rfl
  | case4 x y rest hunwanted ih =>
      simp only [List.length_cons]
      omega
  | case5 x y rest hwanted ih =>
      simp only [List.length_cons] at ih ⊢
      omega

/-- Wanted elements are never erased. -/
theorem filter_eraseSkipping (xs : List α) :
    (eraseSkipping unwanted xs).2.filter (fun x => !unwanted x) =
      xs.filter fun x => !unwanted x := by
  fun_induction eraseSkipping unwanted xs with
  | case1 => rfl
  | case2 x hunwanted => simp [hunwanted]
  | case3 x hwanted => rfl
  | case4 x y rest hunwanted ih => simp only [List.filter_cons, ih, hunwanted]; rfl
  | case5 x y rest hwanted ih =>
      rw [List.filter_cons, List.filter_cons, ih]

theorem forall_mem_eraseSkipping_iff (xs : List α) :
    (∀ x ∈ (eraseSkipping unwanted xs).2, unwanted x = false) ↔ Scattered unwanted xs := by
  fun_induction eraseSkipping unwanted xs with
  | case1 => simp [Scattered]
  | case2 x hunwanted => simp [Scattered]
  | case3 x hwanted => simpa [Scattered] using hwanted
  | case4 x y rest hunwanted ih =>
      rw [List.forall_mem_cons, ih, scattered_cons_cons_of_unwanted unwanted hunwanted]
  | case5 x y rest hwanted ih =>
      rw [Bool.not_eq_true] at hwanted
      rw [List.forall_mem_cons, ih, and_iff_right hwanted,
        scattered_cons_of_wanted unwanted hwanted]

/-- The loop does what it should exactly on the lists whose unwanted elements are scattered. -/
theorem eraseSkipping_eq_filter_iff (xs : List α) :
    (eraseSkipping unwanted xs).2 = xs.filter (fun x => !unwanted x) ↔
      Scattered unwanted xs := by
  rw [← forall_mem_eraseSkipping_iff, ← filter_eraseSkipping]
  calc (eraseSkipping unwanted xs).2 =
        (eraseSkipping unwanted xs).2.filter (fun x => !unwanted x)
    _ ↔ ∀ x ∈ (eraseSkipping unwanted xs).2, (!unwanted x) = true := by
        rw [eq_comm, List.filter_eq_self]
    _ ↔ ∀ x ∈ (eraseSkipping unwanted xs).2, unwanted x = false := by
        simp only [Bool.not_eq_true']

end Hat

/-!
# A join without leading separators

A loop that puts a separator before a piece only when there is text already leaves out the
empty pieces in front.  Splitting the text at the separator gives the other pieces back, so
every piece moves up by the number of empty ones in front.
-/

namespace Hat

variable {α : Type*} (separator : α)

def joinSkipping (pieces : List (List α)) : List α :=
  pieces.foldl (fun text piece => (if text ≠ [] then text ++ [separator] else text) ++ piece) []

def withoutEmptyFront (pieces : List (List α)) : List (List α) :=
  pieces.dropWhile fun piece => piece = []

theorem foldl_joinSkipping {pieces : List (List α)} (hpieces : pieces ≠ []) {text : List α}
    (htext : text ≠ []) :
    pieces.foldl (fun text piece => (if text ≠ [] then text ++ [separator] else text) ++ piece)
      text = text ++ [separator] ++ [separator].intercalate pieces := by
  induction pieces generalizing text with
  | nil => exact absurd rfl hpieces
  | cons piece rest ih =>
      rw [List.foldl_cons, if_pos htext]
      by_cases hrest : rest = []
      · rw [hrest, List.foldl_nil, List.intercalate_singleton]
      · have hmore : text ++ [separator] ++ piece ≠ [] := by simp
        rw [ih hrest hmore, List.intercalate_cons_of_ne_nil hrest]
        simp only [List.append_assoc]

/-- The text is the join of the pieces from the first one on that is not empty. -/
theorem joinSkipping_eq (pieces : List (List α)) :
    joinSkipping separator pieces = [separator].intercalate (withoutEmptyFront pieces) := by
  induction pieces with
  | nil => rfl
  | cons piece rest ih =>
      by_cases hpiece : piece = []
      · rw [withoutEmptyFront, List.dropWhile_cons_of_pos (by simp [hpiece])]
        rw [joinSkipping, List.foldl_cons, hpiece]
        exact ih
      · rw [withoutEmptyFront, List.dropWhile_cons_of_neg (by simp [hpiece]), joinSkipping,
          List.foldl_cons]
        simp only [ne_eq, not_true_eq_false, if_false, List.nil_append]
        by_cases hrest : rest = []
        · rw [hrest, List.foldl_nil, List.intercalate_singleton]
        · have hfold := foldl_joinSkipping separator hrest hpiece
          simp only [ne_eq] at hfold
          rw [hfold, List.intercalate_cons_of_ne_nil hrest]

theorem withoutEmptyFront_ne_singleton_nil (pieces : List (List α)) :
    withoutEmptyFront pieces ≠ [[]] := by
  intro heq
  have hhead := List.head?_dropWhile_not (fun piece : List α => piece = []) pieces
  rw [withoutEmptyFront] at heq
  rw [heq] at hhead
  simp at hhead

/-- The text is empty exactly when all pieces are. -/
theorem joinSkipping_eq_nil_iff (pieces : List (List α)) :
    joinSkipping separator pieces = [] ↔ withoutEmptyFront pieces = [] := by
  rw [joinSkipping_eq]
  constructor
  · intro hempty
    cases hfront : withoutEmptyFront pieces with
    | nil => rfl
    | cons piece rest =>
        rw [hfront] at hempty
        cases rest with
        | nil =>
            rw [List.intercalate_singleton] at hempty
            rw [hempty] at hfront
            exact absurd hfront (withoutEmptyFront_ne_singleton_nil pieces)
        | cons second tail =>
            rw [List.intercalate_cons_of_ne_nil (List.cons_ne_nil second tail)] at hempty
            simp at hempty
  · intro hfront
    rw [hfront]
    rfl

/-- Splitting gives the pieces back, without the empty ones in front. -/
theorem splitOn_joinSkipping [DecidableEq α] {pieces : List (List α)}
    (hlack : ∀ piece ∈ pieces, separator ∉ piece)
    (htext : joinSkipping separator pieces ≠ []) :
    (joinSkipping separator pieces).splitOn separator = withoutEmptyFront pieces := by
  have hfront : withoutEmptyFront pieces ≠ [] :=
    fun h => htext ((joinSkipping_eq_nil_iff separator pieces).mpr h)
  rw [joinSkipping_eq]
  apply List.splitOn_intercalate separator
  · intro piece hpiece
    exact hlack piece ((List.dropWhile_sublist _).subset hpiece)
  · exact hfront

theorem flatten_withoutEmptyFront (pieces : List (List α)) :
    (withoutEmptyFront pieces).flatten = pieces.flatten := by
  induction pieces with
  | nil => rfl
  | cons piece rest ih =>
      by_cases hpiece : piece = []
      · rw [withoutEmptyFront, List.dropWhile_cons_of_pos (by simp [hpiece]), hpiece]
        exact ih
      · rw [withoutEmptyFront, List.dropWhile_cons_of_neg (by simp [hpiece])]

theorem length_intercalate (pieces : List (List α)) :
    ([separator].intercalate pieces).length = pieces.flatten.length + (pieces.length - 1) := by
  induction pieces with
  | nil => rfl
  | cons piece rest ih =>
      by_cases hrest : rest = []
      · simp [hrest]
      · have hlength : 0 < rest.length := List.length_pos_of_ne_nil hrest
        rw [List.intercalate_cons_of_ne_nil hrest, List.length_append, List.length_append, ih,
          List.flatten_cons, List.length_append, List.length_singleton, List.length_cons]
        omega

/-- It is the join of all pieces exactly when there is one piece at most, or the first one is
not empty. -/
theorem joinSkipping_eq_intercalate_iff (pieces : List (List α)) :
    joinSkipping separator pieces = [separator].intercalate pieces ↔
      pieces.length ≤ 1 ∨ pieces.head? ≠ some [] := by
  rw [joinSkipping_eq]
  cases pieces with
  | nil => simp [withoutEmptyFront]
  | cons piece rest =>
      by_cases hpiece : piece = []
      · subst hpiece
        rw [withoutEmptyFront, List.dropWhile_cons_of_pos (by simp)]
        by_cases hrest : rest = []
        · simp [hrest]
        · have hlength : 0 < rest.length := List.length_pos_of_ne_nil hrest
          constructor
          · intro heq
            have hlengths := congrArg List.length heq
            have hflatten := congrArg List.length (flatten_withoutEmptyFront rest)
            have hless : (withoutEmptyFront rest).length ≤ rest.length :=
              (List.dropWhile_sublist _).length_le
            rw [withoutEmptyFront] at hflatten hless
            rw [length_intercalate, length_intercalate, List.flatten_cons, List.nil_append,
              List.length_cons] at hlengths
            omega
          · rintro (hone | hhead)
            · rw [List.length_cons] at hone
              omega
            · exact absurd rfl hhead
      · rw [withoutEmptyFront, List.dropWhile_cons_of_neg (by simp [hpiece])]
        simp [hpiece]

end Hat
