import Hat.Core.WhileLoop
import Mathlib.Data.List.Basic
import Mathlib.Data.List.Infix
import Mathlib.Data.List.TakeWhile

/-!
# Expansion of keys

A text holds keys, each behind a mark and before a delimiter.  A loop replaces the first key
by its value and starts again from the front, so that a mark within a value is taken for a
key as well.  It gives the expansion of the text, with one turn for each key, exactly if no
value has a mark, up to one that has a mark with no key behind it, where the loop is left
early and nothing is left to expand.
-/

namespace Hat.Expansion

open Hat.WhileLoop

section Keys

variable {α : Type*} (isDelim : α → Bool)

/-- The key at the front of what stands behind a mark. -/
def keyOf (tail : List α) : List α := tail.takeWhile fun c => !isDelim c

/-- What stands behind that key. -/
def behind (tail : List α) : List α := tail.dropWhile fun c => !isDelim c

theorem length_behind_le (tail : List α) : (behind isDelim tail).length ≤ tail.length :=
  (List.dropWhile_suffix _).length_le

variable {isDelim}

/-- What stands behind a key starts with a delimiter. -/
theorem behind_eq_cons {tail : List α} (hbehind : behind isDelim tail ≠ []) :
    ∃ delim rest, behind isDelim tail = delim :: rest ∧ isDelim delim = true := by
  cases hcase : behind isDelim tail with
  | nil => exact absurd hcase hbehind
  | cons delim rest =>
      refine ⟨delim, rest, rfl, ?_⟩
      have hstop := List.head?_dropWhile_not (fun c => !isDelim c) tail
      rw [behind] at hcase
      rw [hcase] at hstop
      simpa using hstop

theorem keyOf_append {delim : α} (hdelim : isDelim delim = true) (text rest : List α) :
    keyOf isDelim (text ++ delim :: rest) = keyOf isDelim text := by
  induction text with
  | nil => simp [keyOf, hdelim]
  | cons c text ih =>
      by_cases hc : isDelim c = true
      · simp [keyOf, hc]
      · simp only [keyOf] at ih
        simp [keyOf, hc, ih]

theorem behind_append_ne_nil {delim : α} (hdelim : isDelim delim = true) (text rest : List α) :
    behind isDelim (text ++ delim :: rest) ≠ [] := by
  intro hnil
  have hall := List.dropWhile_eq_nil_iff.mp hnil delim
    (List.mem_append_right _ List.mem_cons_self)
  rw [hdelim] at hall
  exact absurd hall (by decide)

end Keys

variable {α : Type*} [DecidableEq α] (mark : α) (isDelim : α → Bool)
  (value : List α → Option (List α))

def front (text : List α) : List α := text.takeWhile fun c => c ≠ mark

/-- What stands behind the first mark. -/
def marked (text : List α) : List α := (text.dropWhile fun c => c ≠ mark).tail

/-- A strict loop fails if there is no delimiter behind the first mark. -/
def turn (strict : Bool) (text : List α) : Turn (List α) :=
  if mark ∉ text then .exit
  else if strict ∧ behind isDelim (marked mark text) = [] then .fault
  else if keyOf isDelim (marked mark text) = [] then .exit
  else
    match value (keyOf isDelim (marked mark text)) with
    | none => .fault
    | some filled => .next (front mark text ++ filled ++ behind isDelim (marked mark text))

/-- Every key of the text is replaced, and the values are left as they are. -/
def expand : List α → Option (List α)
  | [] => some []
  | c :: rest =>
      if c = mark then
        (value (keyOf isDelim rest)).bind fun filled =>
          (expand (behind isDelim rest)).map fun more => filled ++ more
      else (expand rest).map fun more => c :: more
termination_by text => text.length
decreasing_by
  · exact Nat.lt_succ_of_le (length_behind_le isDelim rest)
  · exact Nat.lt_succ_self _

/-- The number of the keys. -/
def keys : List α → ℕ
  | [] => 0
  | c :: rest => if c = mark then keys (behind isDelim rest) + 1 else keys rest
termination_by text => text.length
decreasing_by
  · exact Nat.lt_succ_of_le (length_behind_le isDelim rest)
  · exact Nat.lt_succ_self _

/-- The values of the keys have no mark.  If one has, there is no key behind its first mark, and
what stands behind it in the text is its own expansion. -/
def Unmarked : List α → Prop
  | [] => True
  | c :: rest =>
      if c = mark then
        ∃ filled, value (keyOf isDelim rest) = some filled ∧
          if mark ∉ filled then Unmarked (behind isDelim rest)
          else keyOf isDelim (marked mark filled) = [] ∧
            expand mark isDelim value (behind isDelim rest) = some (behind isDelim rest)
      else Unmarked rest
termination_by text => text.length
decreasing_by
  · exact Nat.lt_succ_of_le (length_behind_le isDelim rest)
  · exact Nat.lt_succ_self _

/-- Every mark is followed by a key and a delimiter. -/
def Keyed (text : List α) : Prop :=
  ∀ before tail, text = before ++ mark :: tail →
    keyOf isDelim tail ≠ [] ∧ behind isDelim tail ≠ []

instance (text : List α) : Decidable (Keyed mark isDelim text) :=
  decidable_of_iff
    (∀ piece ∈ text.tails, piece.head? = some mark →
      keyOf isDelim piece.tail ≠ [] ∧ behind isDelim piece.tail ≠ []) (by
    constructor
    · rintro hpieces before tail rfl
      exact hpieces (mark :: tail) ((List.mem_tails _ _).mpr (List.suffix_append _ _)) rfl
    · intro hkeyed piece hpiece hhead
      obtain ⟨before, hbefore⟩ := (List.mem_tails _ _).mp hpiece
      refine hkeyed before piece.tail ?_
      rw [← hbefore, List.append_cancel_left_eq]
      exact (List.cons_head?_tail hhead).symm)

section Pieces

variable {mark} {before : List α}

theorem front_append (hbefore : mark ∉ before) (tail : List α) :
    front mark (before ++ mark :: tail) = before := by
  have hfree : ∀ c ∈ before, decide (c ≠ mark) = true := by
    intro c hmem
    exact decide_eq_true fun heq => hbefore (heq ▸ hmem)
  rw [front, List.takeWhile_append_of_pos hfree, List.takeWhile_cons_of_neg (by simp),
    List.append_nil]

theorem marked_append (hbefore : mark ∉ before) (tail : List α) :
    marked mark (before ++ mark :: tail) = tail := by
  have hfree : ∀ c ∈ before, decide (c ≠ mark) = true := by
    intro c hmem
    exact decide_eq_true fun heq => hbefore (heq ▸ hmem)
  rw [marked, List.dropWhile_append_of_pos hfree, List.dropWhile_cons_of_neg (by simp),
    List.tail_cons]

variable (mark) in
theorem pieces_induction {P : List α → Prop} (plain : ∀ text, mark ∉ text → P text)
    (keyed : ∀ before tail, mark ∉ before → P (behind isDelim tail) → P (before ++ mark :: tail))
    (text : List α) : P text := by
  induction hlength : text.length using Nat.strong_induction_on generalizing text with
  | _ n ih =>
      by_cases hmark : mark ∈ text
      · obtain ⟨before, tail, rfl, hbefore⟩ := List.eq_append_cons_of_mem hmark
        refine keyed before tail hbefore (ih _ ?_ _ rfl)
        rw [← hlength, List.length_append, List.length_cons]
        have hbehind := length_behind_le isDelim tail
        omega
      · exact plain text hmark

end Pieces

section Keyed

variable {mark} {isDelim} {value} {strict : Bool} {before tail : List α}

theorem expand_of_notMem {text : List α} (hmark : mark ∉ text) :
    expand mark isDelim value text = some text := by
  induction text with
  | nil => rw [expand]
  | cons c rest ih =>
      rw [List.mem_cons, not_or] at hmark
      rw [expand, if_neg (Ne.symm hmark.1), ih hmark.2, Option.map_some]

theorem expand_append (hbefore : mark ∉ before) (text : List α) :
    expand mark isDelim value (before ++ text) =
      (expand mark isDelim value text).map fun more => before ++ more := by
  induction before with
  | nil => simp
  | cons c rest ih =>
      rw [List.mem_cons, not_or] at hbefore
      rw [List.cons_append, expand, if_neg (Ne.symm hbefore.1), ih hbefore.2, Option.map_map]
      rfl

theorem keys_append (hbefore : mark ∉ before) (text : List α) :
    keys mark isDelim (before ++ text) = keys mark isDelim text := by
  induction before with
  | nil => rfl
  | cons c rest ih =>
      rw [List.mem_cons, not_or] at hbefore
      rw [List.cons_append, keys, if_neg (Ne.symm hbefore.1), ih hbefore.2]

theorem unmarked_of_notMem {text : List α} (hmark : mark ∉ text) :
    Unmarked mark isDelim value text := by
  induction text with
  | nil =>
      rw [Unmarked]
      trivial
  | cons c rest ih =>
      rw [List.mem_cons, not_or] at hmark
      rw [Unmarked, if_neg (Ne.symm hmark.1)]
      exact ih hmark.2

theorem unmarked_append (hbefore : mark ∉ before) (text : List α) :
    Unmarked mark isDelim value (before ++ text) ↔ Unmarked mark isDelim value text := by
  induction before with
  | nil => rfl
  | cons c rest ih =>
      rw [List.mem_cons, not_or] at hbefore
      rw [List.cons_append, Unmarked, if_neg (Ne.symm hbefore.1), ih hbefore.2]

theorem turn_of_notMem {text : List α} (hmark : mark ∉ text) :
    turn mark isDelim value strict text = .exit := if_pos hmark

/-- The turn that finds a key with a delimiter behind it. -/
theorem turn_append (hbefore : mark ∉ before) (hbehind : behind isDelim tail ≠ []) :
    turn mark isDelim value strict (before ++ mark :: tail) =
      if keyOf isDelim tail = [] then .exit
      else
        match value (keyOf isDelim tail) with
        | none => .fault
        | some filled => .next (before ++ filled ++ behind isDelim tail) := by
  rw [turn, if_neg (not_not.mpr (List.mem_append_right _ List.mem_cons_self)),
    marked_append hbefore, if_neg fun h => hbehind h.2, front_append hbefore]

omit [DecidableEq α] in
theorem Keyed.behind (h : Keyed mark isDelim (before ++ mark :: tail)) :
    Keyed mark isDelim (behind isDelim tail) := by
  intro middle rest hsplit
  refine h (before ++ mark :: (keyOf isDelim tail ++ middle)) rest ?_
  have htail : tail = keyOf isDelim tail ++ Expansion.behind isDelim tail :=
    List.takeWhile_append_dropWhile.symm
  rw [List.append_assoc, List.cons_append, List.append_assoc, ← hsplit, ← htail]

/-- A value with a mark: the loop is left early, or never with the right text. -/
theorem run_marked_iff (hmark : isDelim mark = false) {filled : List α} (hbefore : mark ∉ before)
    (hfilled : mark ∈ filled) (hbehind : behind isDelim tail ≠ []) (n : ℕ) :
    (∃ more, expand mark isDelim value (behind isDelim tail) = some more ∧
        run (turn mark isDelim value strict) n (before ++ filled ++ behind isDelim tail) =
          some (before ++ filled ++ more)) ↔
      keyOf isDelim (marked mark filled) = [] ∧
        expand mark isDelim value (behind isDelim tail) = some (behind isDelim tail) := by
  obtain ⟨delim, rest, hrest, hdelim⟩ := behind_eq_cons hbehind
  obtain ⟨first, last, rfl, hfirst⟩ := List.eq_append_cons_of_mem hfilled
  have hne : delim ≠ mark := by
    rintro rfl
    rw [hmark] at hdelim
    exact absurd hdelim (by decide)
  have hfront : mark ∉ before ++ first := by
    rw [List.mem_append, not_or]
    exact ⟨hbefore, hfirst⟩
  -- The next turn finds the mark of the value, whatever stands behind it.
  have hturn : ∀ more, turn mark isDelim value strict
      (before ++ (first ++ mark :: last) ++ delim :: more) =
        if keyOf isDelim last = [] then .exit
        else
          match value (keyOf isDelim last) with
          | none => .fault
          | some filled => .next (before ++ first ++ filled ++
              behind isDelim (last ++ delim :: more)) := by
    intro more
    have htext : before ++ (first ++ mark :: last) ++ delim :: more =
        before ++ first ++ mark :: (last ++ delim :: more) := by
      simp
    rw [htext, turn_append hfront (behind_append_ne_nil hdelim last more), keyOf_append hdelim]
  rw [marked_append hfirst, hrest]
  by_cases hstop : keyOf isDelim last = []
  · have hexit := hturn rest
    rw [if_pos hstop] at hexit
    rw [run_of_exit hexit, and_iff_right hstop]
    constructor
    · rintro ⟨more, hmore, hsame⟩
      rw [hmore, List.append_cancel_left (Option.some.inj hsame)]
    · intro hsame
      exact ⟨_, hsame, rfl⟩
  · refine iff_of_false ?_ fun h => hstop h.1
    rintro ⟨more, hmore, hrun⟩
    rw [expand, if_neg hne, Option.map_eq_some_iff] at hmore
    obtain ⟨more, -, rfl⟩ := hmore
    have hexit := exit_of_run hrun
    rw [hturn more, if_neg hstop] at hexit
    cases hvalue : value (keyOf isDelim last) with
    | none =>
        rw [hvalue] at hexit
        exact nomatch hexit
    | some filled =>
        rw [hvalue] at hexit
        exact nomatch hexit

/-- The loop gives the expansion of the text, in one turn for each key at most, exactly if the
values have no mark up to one with no key behind its mark. -/
theorem run_eq_expand_iff (hmark : isDelim mark = false) {text : List α}
    (hkeyed : Keyed mark isDelim text) (hbefore : mark ∉ before) :
    (∃ expanded, expand mark isDelim value text = some expanded ∧
        run (turn mark isDelim value strict) (keys mark isDelim text) (before ++ text) =
          some (before ++ expanded)) ↔
      Unmarked mark isDelim value text := by
  induction text using pieces_induction mark isDelim generalizing before with
  | plain text htext =>
      refine iff_of_true ⟨text, expand_of_notMem htext, run_of_exit (turn_of_notMem ?_) _⟩
        (unmarked_of_notMem htext)
      rw [List.mem_append, not_or]
      exact ⟨hbefore, htext⟩
  | keyed middle tail hmiddle ih =>
      obtain ⟨hkey, hbehind⟩ := hkeyed middle tail rfl
      have hfront : mark ∉ before ++ middle := by
        rw [List.mem_append, not_or]
        exact ⟨hbefore, hmiddle⟩
      have hturn : turn mark isDelim value strict (before ++ middle ++ mark :: tail) = _ :=
        turn_append hfront hbehind
      rw [if_neg hkey] at hturn
      rw [expand_append hmiddle, keys_append hmiddle, unmarked_append hmiddle,
        ← List.append_assoc, expand, if_pos rfl, keys, if_pos rfl, Unmarked, if_pos rfl]
      cases hvalue : value (keyOf isDelim tail) with
      | none =>
          refine iff_of_false ?_ ?_
          · rintro ⟨expanded, hexpanded, -⟩
            exact absurd hexpanded (by simp)
          · rintro ⟨filled, hfilled, -⟩
            exact absurd hfilled (Option.some_ne_none _).symm
      | some filled =>
          rw [hvalue] at hturn
          rw [run_succ_of_next hturn]
          have hexpanded : (∃ expanded,
              (((some filled).bind fun filled =>
                (expand mark isDelim value (behind isDelim tail)).map fun more =>
                  filled ++ more).map fun more => middle ++ more) = some expanded ∧
                run (turn mark isDelim value strict) (keys mark isDelim (behind isDelim tail))
                  (before ++ middle ++ filled ++ behind isDelim tail) =
                    some (before ++ expanded)) ↔
              ∃ more, expand mark isDelim value (behind isDelim tail) = some more ∧
                run (turn mark isDelim value strict) (keys mark isDelim (behind isDelim tail))
                  (before ++ middle ++ filled ++ behind isDelim tail) =
                    some (before ++ middle ++ filled ++ more) := by
            cases expand mark isDelim value (behind isDelim tail) with
            | none => simp
            | some more => simp [List.append_assoc]
          rw [hexpanded]
          simp only [Option.some.injEq, exists_eq_left']
          by_cases hfilled : mark ∈ filled
          · rw [if_neg (not_not.mpr hfilled)]
            exact run_marked_iff hmark hfront hfilled hbehind _
          · have hnext : mark ∉ before ++ middle ++ filled := by
              rw [List.mem_append, not_or]
              exact ⟨hfront, hfilled⟩
            rw [if_pos hfilled]
            exact ih hkeyed.behind hnext

end Keyed

end Hat.Expansion
