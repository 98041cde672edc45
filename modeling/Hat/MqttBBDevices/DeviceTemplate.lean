import Hat.Core.Places
import Hat.Core.WhileLoop
import Mathlib.Data.List.TakeWhile

/-!
# Templates of devices

A template starts with a header that says which category its devices have.  Behind it, or
around it where the header is a comment, stands the description of a device, from which the
comments are removed one after the other.
-/

namespace Hat.DeviceTemplate

open Hat.WhileLoop

/-- A template is read up to the first zero byte. -/
def readTemplate (file : List Char) : List Char := file.takeWhile fun c => c ≠ '\x00'

/-- What the header says, and the text that is kept. -/
inductive Header
  | rejected
  | accepted (category body : List Char)
  deriving DecidableEq

/-- A header that ends with a dash is a comment, and the text is kept from its start. -/
def scanHeader (description : List Char) : Header :=
  match firstPlace "semantic_class".toList description with
  | none => .rejected
  | some pointer =>
      let value := ((description.drop pointer).dropWhile fun c => c ≠ '=').drop 1
      let inside (c : Char) : Bool := c ≠ ']' && c ≠ '-' && c ≠ '\r' && c ≠ '\n'
      match value.dropWhile inside with
      | [] => .rejected
      | c :: rest =>
          if c ≠ ']' ∧ c ≠ '-' then .rejected
          else
            match (c :: rest).dropWhile fun c => c ≠ '<' with
            | [] => .rejected
            | tag =>
                .accepted ((value.takeWhile inside).filter fun c => c ≠ ' ')
                  (if c = '-' then description else tag)

def opening : List Char := "<!--".toList

def closing : List Char := "-->".toList

/-- The two marks are looked for on their own.  From the closing one the text is erased up to the
next tag, and without a tag it is read past its end. -/
def removeComment (description : List Char) : Turn (List Char) :=
  match firstPlace opening description, firstPlace closing description with
  | some pos, some endpos =>
      if endpos < pos then .exit
      else
        match (description.drop endpos).dropWhile fun c => c ≠ '<' with
        | [] => .fault
        | tag => .next (description.take pos ++ tag)
  | _, _ => .exit

/-- What becomes of a template before its placeholders are filled in. -/
inductive Described
  | rejected
  | description (text : List Char)
  deriving DecidableEq

def describe (turns : ℕ) (file : List Char) : Option Described :=
  match scanHeader (readTemplate file) with
  | .rejected => some .rejected
  | .accepted _ body => (run removeComment turns body).map .description

/-- A comment goes up to the first closing mark from its opening mark on. -/
def strip (text : List Char) : List Char :=
  match _hopening : firstPlace opening text with
  | none => text
  | some p =>
      match firstPlace closing (text.drop p) with
      | none => text
      | some q => text.take p ++ strip (text.drop (p + q + closing.length))
termination_by text.length
decreasing_by
  cases text with
  | nil => exact absurd _hopening.symm (Option.some_ne_none p)
  | cons c rest =>
      rw [List.length_drop, List.length_cons]
      have hclosing : closing.length = 3 := rfl
      omega

/-- An opening mark, and from it on a closing one. -/
def HasComment (text : List Char) : Prop :=
  ∃ p, opening <+: text.drop p ∧ ∃ q, p ≤ q ∧ closing <+: text.drop q

/-- No closing mark stands before a comment, and behind each comment starts a tag. -/
def CommentsFit (text : List Char) : Prop :=
  match _hopening : firstPlace opening text with
  | none => True
  | some p =>
      match firstPlace closing (text.drop p) with
      | none => True
      | some q =>
          firstPlace closing text = some (p + q) ∧
            (text.drop (p + q + closing.length)).head? = some '<' ∧
            CommentsFit (text.drop (p + q + closing.length))
termination_by text.length
decreasing_by
  cases text with
  | nil => exact absurd _hopening.symm (Option.some_ne_none p)
  | cons c rest =>
      rw [List.length_drop, List.length_cons]
      have hclosing : closing.length = 3 := rfl
      omega

/-- The template is read within its bounds and in finitely many turns, and of what is kept of it
nothing but the comments is removed. -/
def Cleans (file : List Char) : Prop :=
  ∃ described, describe file.length file = some described ∧
    ∀ category body, scanHeader (readTemplate file) = .accepted category body →
      described = .description (strip body) ∧ ¬HasComment (strip body)

/-- The header is rejected, or the comments of what is kept fit. -/
def Fits (file : List Char) : Prop :=
  ∀ category body, scanHeader (readTemplate file) = .accepted category body → CommentsFit body

theorem strip_of_none {text : List Char} (hopening : firstPlace opening text = none) :
    strip text = text := by
  rw [strip]
  split
  · rfl
  · rename_i p hp
    rw [hopening] at hp
    exact absurd hp (Option.some_ne_none p).symm

theorem strip_of_open {text : List Char} {p : ℕ} (hopening : firstPlace opening text = some p)
    (hclosing : firstPlace closing (text.drop p) = none) : strip text = text := by
  rw [strip]
  split
  · rfl
  · rename_i i hi
    rw [hopening, Option.some.injEq] at hi
    rw [← hi, hclosing]

theorem strip_of_comment {text : List Char} {p q : ℕ}
    (hopening : firstPlace opening text = some p)
    (hclosing : firstPlace closing (text.drop p) = some q) :
    strip text = text.take p ++ strip (text.drop (p + q + closing.length)) := by
  rw [strip]
  split
  · rename_i hnone
    rw [hopening] at hnone
    exact absurd hnone (Option.some_ne_none p)
  · rename_i i hi
    rw [hopening, Option.some.injEq] at hi
    rw [← hi, hclosing]

theorem commentsFit_of_none {text : List Char} (hopening : firstPlace opening text = none) :
    CommentsFit text := by
  rw [CommentsFit]
  split
  · trivial
  · rename_i p hp
    rw [hopening] at hp
    exact absurd hp (Option.some_ne_none p).symm

theorem commentsFit_of_open {text : List Char} {p : ℕ}
    (hopening : firstPlace opening text = some p)
    (hclosing : firstPlace closing (text.drop p) = none) : CommentsFit text := by
  rw [CommentsFit]
  split
  · trivial
  · rename_i i hi
    rw [hopening, Option.some.injEq] at hi
    rw [← hi, hclosing]
    trivial

theorem commentsFit_iff {text : List Char} {p q : ℕ}
    (hopening : firstPlace opening text = some p)
    (hclosing : firstPlace closing (text.drop p) = some q) :
    CommentsFit text ↔
      firstPlace closing text = some (p + q) ∧
        (text.drop (p + q + closing.length)).head? = some '<' ∧
        CommentsFit (text.drop (p + q + closing.length)) := by
  rw [CommentsFit]
  split
  · rename_i hnone
    rw [hopening] at hnone
    exact absurd hnone (Option.some_ne_none p)
  · rename_i i hi
    rw [hopening, Option.some.injEq] at hi
    rw [← hi, hclosing]

/-- An opening mark, and a closing one from the first opening mark on. -/
theorem hasComment_iff (text : List Char) :
    HasComment text ↔
      ∃ p q, firstPlace opening text = some p ∧ firstPlace closing (text.drop p) = some q := by
  constructor
  · rintro ⟨i, hi, j, hij, hj⟩
    cases hopening : firstPlace opening text with
    | none => exact absurd hi (firstPlace_eq_none_iff.mp hopening i)
    | some p =>
        have hpi : p ≤ i := by
          by_contra hlt
          exact (firstPlace_eq_some_iff.mp hopening).2 i (Nat.lt_of_not_le hlt) hi
        cases hclosing : firstPlace closing (text.drop p) with
        | none =>
            refine absurd ?_ (firstPlace_eq_none_iff.mp hclosing (j - p))
            rwa [List.drop_drop, Nat.add_sub_cancel' (hpi.trans hij)]
        | some q => exact ⟨p, q, rfl, hclosing⟩
  · rintro ⟨p, q, hopening, hclosing⟩
    refine ⟨p, (firstPlace_eq_some_iff.mp hopening).1, p + q, Nat.le_add_right p q, ?_⟩
    rw [← List.drop_drop]
    exact (firstPlace_eq_some_iff.mp hclosing).1

theorem strip_of_not_hasComment {text : List Char} (hnone : ¬HasComment text) :
    strip text = text := by
  cases hopening : firstPlace opening text with
  | none => exact strip_of_none hopening
  | some p =>
      cases hclosing : firstPlace closing (text.drop p) with
      | none => exact strip_of_open hopening hclosing
      | some q => exact absurd ((hasComment_iff text).mpr ⟨p, q, hopening, hclosing⟩) hnone

theorem commentsFit_of_not_hasComment {text : List Char} (hnone : ¬HasComment text) :
    CommentsFit text := by
  cases hopening : firstPlace opening text with
  | none => exact commentsFit_of_none hopening
  | some p =>
      cases hclosing : firstPlace closing (text.drop p) with
      | none => exact commentsFit_of_open hopening hclosing
      | some q => exact absurd ((hasComment_iff text).mpr ⟨p, q, hopening, hclosing⟩) hnone

theorem drop_shift (front text : List Char) (p k : ℕ) :
    (front ++ text).drop (p + front.length + k) = text.drop (p + k) := by
  rw [Nat.add_right_comm, Nat.add_comm _ front.length, List.drop_length_add_append]

/-- A front in which no comment opens is kept. -/
theorem strip_append {front text : List Char}
    (hfront : ∀ i < front.length, ¬opening <+: (front ++ text).drop i) :
    strip (front ++ text) = front ++ strip text := by
  have hplace := firstPlace_append hfront
  cases hopening : firstPlace opening text with
  | none =>
      rw [hopening, Option.map_none] at hplace
      rw [strip_of_none hplace, strip_of_none hopening]
  | some p =>
      rw [hopening, Option.map_some] at hplace
      have hshift : firstPlace closing ((front ++ text).drop (p + front.length)) =
          firstPlace closing (text.drop p) :=
        congrArg (firstPlace closing) (drop_shift front text p 0)
      cases hclosing : firstPlace closing (text.drop p) with
      | none =>
          rw [hclosing] at hshift
          rw [strip_of_open hplace hshift, strip_of_open hopening hclosing]
      | some q =>
          rw [hclosing] at hshift
          have hafter := drop_shift front text p (q + closing.length)
          rw [← Nat.add_assoc, ← Nat.add_assoc] at hafter
          rw [strip_of_comment hplace hshift, strip_of_comment hopening hclosing, hafter,
            Nat.add_comm p, List.take_length_add_append, List.append_assoc]

theorem lt_length_of_opening {text : List Char} {p : ℕ}
    (hopening : firstPlace opening text = some p) : p < text.length := by
  have hlength := (firstPlace_eq_some_iff.mp hopening).1.length_le
  have hmark : opening.length = 4 := rfl
  rw [List.length_drop, hmark] at hlength
  omega

theorem length_strip_le (text : List Char) : (strip text).length ≤ text.length := by
  induction hlength : text.length using Nat.strong_induction_on generalizing text with
  | _ n ih =>
      by_cases hcomment : HasComment text
      · obtain ⟨p, q, hopening, hclosing⟩ := (hasComment_iff text).mp hcomment
        have hp := lt_length_of_opening hopening
        have hmark : closing.length = 3 := rfl
        have hrest := ih (text.drop (p + q + closing.length)).length
          (by rw [List.length_drop]; omega) _ rfl
        rw [strip_of_comment hopening hclosing, List.length_append, List.length_take]
        rw [List.length_drop] at hrest
        omega
      · rw [strip_of_not_hasComment hcomment, hlength]

theorem length_strip_lt {text : List Char} (hcomment : HasComment text) :
    (strip text).length < text.length := by
  obtain ⟨p, q, hopening, hclosing⟩ := (hasComment_iff text).mp hcomment
  have hp := lt_length_of_opening hopening
  have hmark : closing.length = 3 := rfl
  have hrest := length_strip_le (text.drop (p + q + closing.length))
  rw [strip_of_comment hopening hclosing, List.length_append, List.length_take]
  rw [List.length_drop] at hrest
  omega

/-- What is skipped up to the next tag is no part of a comment. -/
theorem strip_skip (text : List Char) :
    strip text = (text.takeWhile fun c => c ≠ '<') ++ strip (text.dropWhile fun c => c ≠ '<') := by
  have hsplit : (text.takeWhile fun c => c ≠ '<') ++ (text.dropWhile fun c => c ≠ '<') = text :=
    List.takeWhile_append_dropWhile
  rw [← strip_append, hsplit]
  rintro i hi ⟨rest, hrest⟩
  rw [List.drop_append_of_le_length hi.le] at hrest
  cases hdrop : (text.takeWhile fun c => c ≠ '<').drop i with
  | nil =>
      have hlength := congrArg List.length hdrop
      rw [List.length_drop, List.length_nil] at hlength
      omega
  | cons c more =>
      rw [hdrop] at hrest
      have hc : c = '<' := (List.cons.inj hrest).1.symm
      have hmem : c ∈ text.takeWhile fun c => c ≠ '<' :=
        List.mem_of_mem_drop (hdrop ▸ List.mem_cons_self)
      have hother := List.mem_takeWhile_imp hmem
      exact absurd hc (of_decide_eq_true hother)

/-! ## Turns -/

theorem removeComment_of_not_hasComment {text : List Char} (hnone : ¬HasComment text) :
    removeComment text = .exit := by
  rw [removeComment]
  cases hopening : firstPlace opening text with
  | none => rfl
  | some p =>
      cases hclosing : firstPlace closing text with
      | none => rfl
      | some e =>
          refine if_pos (Nat.lt_of_not_le fun hle => hnone ?_)
          exact ⟨p, (firstPlace_eq_some_iff.mp hopening).1, e, hle,
            (firstPlace_eq_some_iff.mp hclosing).1⟩

/-- A closing mark before the first comment ends the loop. -/
theorem removeComment_of_stray {text : List Char} {p q : ℕ}
    (hopening : firstPlace opening text = some p)
    (hclosing : firstPlace closing (text.drop p) = some q)
    (hstray : firstPlace closing text ≠ some (p + q)) : removeComment text = .exit := by
  obtain ⟨hend, hfirst⟩ := firstPlace_eq_some_iff.mp hclosing
  rw [List.drop_drop] at hend
  rw [removeComment, hopening]
  cases hplace : firstPlace closing text with
  | none => rfl
  | some e =>
      obtain ⟨he, hleast⟩ := firstPlace_eq_some_iff.mp hplace
      refine if_pos (Nat.lt_of_not_le fun hle => ?_)
      have hge : ¬e < p + q := by
        intro hlt
        refine hfirst (e - p) (by omega) ?_
        rwa [List.drop_drop, Nat.add_sub_cancel' hle]
      have hle' : ¬p + q < e := fun hlt => hleast (p + q) hlt hend
      exact hstray (hplace.trans (congrArg some (by omega)))

/-- Otherwise the first comment is removed, with what stands before the next tag. -/
theorem removeComment_of_comment {text : List Char} {p q : ℕ}
    (hopening : firstPlace opening text = some p)
    (hclosing : firstPlace closing text = some (p + q)) :
    removeComment text =
      match (text.drop (p + q + closing.length)).dropWhile fun c => c ≠ '<' with
      | [] => .fault
      | tag => .next (text.take p ++ tag) := by
  obtain ⟨rest, hrest⟩ := (firstPlace_eq_some_iff.mp hclosing).1
  have hdrop : text.drop (p + q + closing.length) = rest := by
    rw [← List.drop_drop, ← hrest, List.drop_left]
  have hskip : (text.drop (p + q)).dropWhile (fun c => c ≠ '<') =
      rest.dropWhile fun c => c ≠ '<' := by
    rw [← hrest]
    rfl
  rw [removeComment, hopening, hclosing, hdrop]
  simp only [if_neg (Nat.not_lt.mpr (Nat.le_add_right p q)), hskip]

/-- No mark starts in the front of a text. -/
def Unmarked (front text : List Char) : Prop :=
  ∀ part ∈ [opening, closing], ∀ i < front.length, ¬part <+: (front ++ text).drop i

theorem unmarked_nil (text : List Char) : Unmarked [] text :=
  fun _ _ i hi => absurd hi (Nat.not_lt_zero i)

/-- The closing mark has no `<`, and the opening one has it in front only. -/
theorem mark_tail {part : List Char} (hpart : part ∈ [opening, closing]) : '<' ∉ part.tail := by
  rcases List.mem_pair.mp hpart with rfl | rfl
  · decide
  · decide

/-- The text in front of the first comment, with any tag behind it. -/
theorem unmarked_take {front text tag : List Char} {p q : ℕ} (hfront : Unmarked front text)
    (hopening : firstPlace opening text = some p)
    (hclosing : firstPlace closing text = some (p + q)) :
    Unmarked (front ++ text.take p) ('<' :: tag) := by
  intro part hpart i hi
  refine not_prefix_append_cons (mark_tail hpart) hi ?_ tag
  rintro ⟨rest, hrest⟩
  have hwhole : part <+: (front ++ text).drop i := by
    have hsplit : front ++ text = front ++ text.take p ++ text.drop p := by
      rw [List.append_assoc, List.take_append_drop]
    rw [hsplit, List.drop_append_of_le_length hi.le, ← hrest, List.append_assoc]
    exact List.prefix_append _ _
  by_cases hin : i < front.length
  · exact hfront part hpart i hin hwhole
  · rw [List.length_append, List.length_take] at hi
    have hplace : part <+: text.drop (i - front.length) := by
      have hi' : i = front.length + (i - front.length) := by omega
      rw [hi', List.drop_length_add_append] at hwhole
      exact hwhole
    rcases List.mem_pair.mp hpart with rfl | rfl
    · exact (firstPlace_eq_some_iff.mp hopening).2 _ (by omega) hplace
    · exact (firstPlace_eq_some_iff.mp hclosing).2 _ (by omega) hplace

/-- What is removed in one turn: the first comment, and what is skipped behind it. -/
theorem strip_next {text tag : List Char} {p q : ℕ} (hopening : firstPlace opening text = some p)
    (hclosing : firstPlace closing text = some (p + q))
    (htag : (text.drop (p + q + closing.length)).dropWhile (fun c => c ≠ '<') = tag)
    (hne : tag ≠ []) {front : List Char} (hfront : Unmarked front text) :
    strip (front ++ text.take p ++ tag) = front ++ text.take p ++ strip tag := by
  cases tag with
  | nil => exact absurd rfl hne
  | cons c rest =>
      have hc : c = '<' := by
        have hhead := List.head?_dropWhile_not (fun c => decide (c ≠ '<'))
          (text.drop (p + q + closing.length))
        rw [htag] at hhead
        simpa using hhead
      rw [hc]
      refine strip_append fun i hi => ?_
      exact unmarked_take hfront hopening hclosing opening List.mem_cons_self i hi

theorem length_strip_next {text after : List Char} (hnext : removeComment text = .next after) :
    (strip after).length ≤ (strip text).length := by
  have hcomment : HasComment text := by
    by_contra hnone
    rw [removeComment_of_not_hasComment hnone] at hnext
    exact nomatch hnext
  obtain ⟨p, q, hopening, hclosing⟩ := (hasComment_iff text).mp hcomment
  by_cases hfirst : firstPlace closing text = some (p + q)
  · rw [removeComment_of_comment hopening hfirst] at hnext
    cases htag : (text.drop (p + q + closing.length)).dropWhile fun c => c ≠ '<' with
    | nil =>
        rw [htag] at hnext
        exact nomatch hnext
    | cons c rest =>
        rw [htag] at hnext
        have hafter : strip after = text.take p ++ strip (c :: rest) := by
          rw [← Turn.next.inj hnext]
          exact strip_next hopening hfirst htag (List.cons_ne_nil c rest) (unmarked_nil text)
        rw [hafter, strip_of_comment hopening hclosing, strip_skip (text.drop _), htag]
        simp only [List.length_append]
        omega
  · rw [removeComment_of_stray hopening hclosing hfirst] at hnext
    exact nomatch hnext

/-- The loop removes at least the comments. -/
theorem length_run_le {n : ℕ} {text last : List Char} (hrun : run removeComment n text = some last)
    (hlast : ¬HasComment last) : last.length ≤ (strip text).length := by
  induction n generalizing text with
  | zero =>
      rcases run_cases hrun with ⟨-, rfl⟩ | ⟨after, m, -, hm, -⟩
      · rw [strip_of_not_hasComment hlast]
      · exact absurd hm (Nat.succ_ne_zero m).symm
  | succ n ih =>
      rcases run_cases hrun with ⟨-, rfl⟩ | ⟨after, m, hnext, hm, hrest⟩
      · rw [strip_of_not_hasComment hlast]
      · exact (ih (Nat.succ.inj hm ▸ hrest)).trans (length_strip_next hnext)

theorem not_hasComment_append {front text : List Char} (hfront : Unmarked front text)
    (hnone : ¬HasComment text) : ¬HasComment (front ++ text) := by
  rw [hasComment_iff]
  rintro ⟨p, q, hopening, hclosing⟩
  rw [firstPlace_append (hfront opening List.mem_cons_self), Option.map_eq_some_iff] at hopening
  obtain ⟨i, hi, rfl⟩ := hopening
  rw [Nat.add_comm, List.drop_length_add_append] at hclosing
  exact hnone ((hasComment_iff text).mpr ⟨i, q, hi, hclosing⟩)

theorem takeWhile_ne_nil {rest : List Char} (hhead : rest.head? ≠ some '<')
    (htag : (rest.dropWhile fun c => c ≠ '<') ≠ []) : (rest.takeWhile fun c => c ≠ '<') ≠ [] := by
  cases rest with
  | nil => exact absurd rfl htag
  | cons c more =>
      have hc : c ≠ '<' := fun heq => hhead (congrArg some heq)
      simp [hc]

/-- The loop removes the comments and nothing else exactly if the comments fit. -/
theorem run_eq_strip_iff {front text : List Char} (hfront : Unmarked front text) {n : ℕ}
    (hn : text.length ≤ n) :
    (run removeComment n (front ++ text) = some (front ++ strip text) ∧
        ¬HasComment (front ++ strip text)) ↔ CommentsFit text := by
  induction hlength : text.length using Nat.strong_induction_on generalizing front text n with
  | _ size ih =>
      by_cases hcomment : HasComment text
      · obtain ⟨p, q, hopening, hclosing⟩ := (hasComment_iff text).mp hcomment
        have hlt := length_strip_lt hcomment
        have hplace : ∀ part ∈ [opening, closing], firstPlace part (front ++ text) =
            (firstPlace part text).map fun i => i + front.length := fun part hpart =>
          firstPlace_append (hfront part hpart)
        have hopens : firstPlace opening (front ++ text) = some (p + front.length) := by
          rw [hplace opening List.mem_cons_self, hopening, Option.map_some]
        have hcloses : firstPlace closing (front ++ text) =
            (firstPlace closing text).map fun i => i + front.length :=
          hplace closing (by simp)
        rw [commentsFit_iff hopening hclosing]
        by_cases hfirst : firstPlace closing text = some (p + q)
        · rw [hfirst, Option.map_some, Nat.add_right_comm] at hcloses
          have hafter := drop_shift front text p (q + closing.length)
          rw [← Nat.add_assoc, ← Nat.add_assoc] at hafter
          have htake : (front ++ text).take (p + front.length) = front ++ text.take p := by
            rw [Nat.add_comm, List.take_length_add_append]
          have hturn := removeComment_of_comment hopens hcloses
          rw [hafter, htake] at hturn
          rw [and_iff_right hfirst]
          by_cases hhead : (text.drop (p + q + closing.length)).head? = some '<'
          · rw [and_iff_right hhead]
            obtain ⟨more, hrest⟩ := List.head?_eq_some_iff.mp hhead
            rw [hrest, List.dropWhile_cons_of_neg (by decide)] at hturn
            obtain ⟨m, rfl⟩ : ∃ m, n = m + 1 := ⟨n - 1, by omega⟩
            have hshorter : (text.drop (p + q + closing.length)).length < text.length := by
              have hp := lt_length_of_opening hopening
              have hmark : closing.length = 3 := rfl
              rw [List.length_drop]
              omega
            rw [hrest] at hshorter
            rw [run_succ_of_next hturn, strip_of_comment hopening hclosing, hrest,
              ← List.append_assoc]
            exact ih _ (hlength ▸ hshorter) (unmarked_take hfront hopening hfirst) (by omega) rfl
          · refine iff_of_false ?_ fun h => hhead h.1
            rintro ⟨hrun, hlast⟩
            cases htag : (text.drop (p + q + closing.length)).dropWhile fun c => c ≠ '<' with
            | nil =>
                rw [htag] at hturn
                rw [run_of_fault hturn] at hrun
                exact absurd hrun (Option.some_ne_none _).symm
            | cons d tag =>
                rw [htag] at hturn
                rcases run_cases hrun with ⟨hexit, -⟩ | ⟨after, m, hnext, -, hrest⟩
                · rw [hturn] at hexit
                  exact nomatch hexit
                · rw [hturn] at hnext
                  have hle := length_run_le hrest hlast
                  rw [← Turn.next.inj hnext,
                    strip_next hopening hfirst htag (List.cons_ne_nil d tag) hfront,
                    strip_of_comment hopening hclosing, strip_skip (text.drop _), htag] at hle
                  have hskipped := takeWhile_ne_nil hhead (htag ▸ List.cons_ne_nil d tag)
                  have hpositive := List.length_pos_iff.mpr hskipped
                  simp only [List.length_append] at hle
                  omega
        · have hstray : firstPlace closing (front ++ text) ≠ some (p + front.length + q) := by
            rw [hcloses, Ne, Option.map_eq_some_iff]
            rintro ⟨e, he, hsame⟩
            exact hfirst (he.trans (congrArg some (by omega)))
          have hwhole : firstPlace closing ((front ++ text).drop (p + front.length)) = some q :=
            (congrArg (firstPlace closing) (drop_shift front text p 0)).trans hclosing
          rw [run_of_exit (removeComment_of_stray hopens hwhole hstray)]
          refine iff_of_false ?_ fun h => hfirst h.1
          rintro ⟨hsame, -⟩
          rw [← List.append_cancel_left (Option.some.inj hsame)] at hlt
          exact lt_irrefl _ hlt
      · have hstrip := strip_of_not_hasComment hcomment
        have hwhole := not_hasComment_append hfront hcomment
        rw [hstrip, run_of_exit (removeComment_of_not_hasComment hwhole)]
        exact iff_of_true ⟨rfl, hwhole⟩ (commentsFit_of_not_hasComment hcomment)

theorem length_scanHeader_le {description category body : List Char}
    (hheader : scanHeader description = .accepted category body) :
    body.length ≤ description.length := by
  rw [scanHeader] at hheader
  cases hpointer : firstPlace "semantic_class".toList description with
  | none =>
      rw [hpointer] at hheader
      exact nomatch hheader
  | some pointer =>
      rw [hpointer] at hheader
      have hsuffix : ((description.drop pointer).dropWhile fun c => c ≠ '=').drop 1 <:+
          description :=
        (List.drop_suffix _ _).trans ((List.dropWhile_suffix _).trans (List.drop_suffix _ _))
      simp only at hheader
      split at hheader
      · exact nomatch hheader
      · rename_i c rest hended
        have hended' : c :: rest <:+ description := by
          rw [← hended]
          exact (List.dropWhile_suffix _).trans hsuffix
        split at hheader
        · exact nomatch hheader
        · split at hheader
          · exact nomatch hheader
          · have hbody := (Header.accepted.inj hheader).2
            rw [← hbody]
            split_ifs
            · exact le_refl _
            · exact ((List.dropWhile_suffix _).trans hended').length_le

/-- A template is cleaned of its comments exactly if its header is rejected or its comments fit. -/
theorem cleans_iff (file : List Char) : Cleans file ↔ Fits file := by
  rw [Cleans, Fits, describe]
  cases hheader : scanHeader (readTemplate file) with
  | rejected =>
      refine iff_of_true ⟨.rejected, rfl, fun category body h => nomatch h⟩ ?_
      exact fun category body h => nomatch h
  | accepted category body =>
      have hlength : body.length ≤ file.length :=
        (length_scanHeader_le hheader).trans (List.takeWhile_prefix _).length_le
      have hrun := run_eq_strip_iff (unmarked_nil body) hlength
      simp only [List.nil_append] at hrun
      constructor
      · rintro ⟨described, hdescribed, hclean⟩ _ _ h
        obtain ⟨rfl, rfl⟩ := Header.accepted.inj h
        obtain ⟨hstrip, hnone⟩ := hclean category body rfl
        rw [hstrip, Option.map_eq_some_iff] at hdescribed
        obtain ⟨text, htext, hsame⟩ := hdescribed
        rw [Described.description.inj hsame] at htext
        exact hrun.mp ⟨htext, hnone⟩
      · intro hfits
        obtain ⟨htext, hnone⟩ := hrun.mpr (hfits category body rfl)
        refine ⟨.description (strip body), congrArg (Option.map Described.description) htext, ?_⟩
        intro _ _ h
        obtain ⟨rfl, rfl⟩ := Header.accepted.inj h
        exact ⟨rfl, hnone⟩

/-- A template that ends with a comment is read past its end, and a closing mark of its own keeps
the comments behind it. -/
theorem not_cleans_device :
    ¬Cleans "<!--semantic_class=BinaryInput--><device/><!-- a switch -->".toList ∧
      ¬Cleans "<!--semantic_class=BinaryInput--><device/>--><!-- a switch --><x/>".toList := by
  constructor
  · rintro ⟨described, hdescribed, -⟩
    have hfault : describe
        "<!--semantic_class=BinaryInput--><device/><!-- a switch -->".toList.length
        "<!--semantic_class=BinaryInput--><device/><!-- a switch -->".toList = none := by
      decide +kernel
    rw [hfault] at hdescribed
    exact absurd hdescribed (Option.some_ne_none _).symm
  · rintro ⟨described, hdescribed, hclean⟩
    have hkept : describe
        "<!--semantic_class=BinaryInput--><device/>--><!-- a switch --><x/>".toList.length
        "<!--semantic_class=BinaryInput--><device/>--><!-- a switch --><x/>".toList =
          some (.description "<device/>--><!-- a switch --><x/>".toList) := by
      decide +kernel
    have hheader : scanHeader (readTemplate
        "<!--semantic_class=BinaryInput--><device/>--><!-- a switch --><x/>".toList) =
          .accepted "BinaryInput".toList
            "<!--semantic_class=BinaryInput--><device/>--><!-- a switch --><x/>".toList := by
      decide +kernel
    obtain ⟨hstrip, hnone⟩ := hclean _ _ hheader
    rw [hkept, Option.some.injEq, hstrip] at hdescribed
    rw [← Described.description.inj hdescribed] at hnone
    exact hnone ⟨12, by decide +kernel, 26, by decide, by decide +kernel⟩

end Hat.DeviceTemplate
