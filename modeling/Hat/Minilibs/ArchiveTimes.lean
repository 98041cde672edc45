import Hat.Minilibs.Hsrv
import Mathlib.Data.String.Basic

/-!
# Timestamps of the archive

Lines carry the time of their event in a compact form, whose year has two digits, or in a
full form.  `normalizeDateTime` brings both to minutes with a full year.  It takes a text
that begins with `20` for the full form, which the compact form of the year 2020 does, too.
-/

namespace Hat

open Hat.Hsrv

namespace Hsrv

/-- Numbers below one hundred, two digits each. -/
def digits (numbers : List ℕ) : List Char := numbers.flatMap twoDigits

@[simp]
theorem length_digits (numbers : List ℕ) : (digits numbers).length = numbers.length * 2 := by
  induction numbers with
  | nil => rfl
  | cons n rest ih =>
      rw [digits, List.flatMap_cons, List.length_append, ← digits, ih, List.length_cons,
        Nat.succ_mul, Nat.add_comm]
      rfl

theorem twenty_append (numbers : List ℕ) :
    "20" ++ String.ofList (digits numbers) = String.ofList (digits (20 :: numbers)) := by
  refine String.toList_inj.mp ?_
  simp only [String.toList_append, String.toList_ofList]
  rfl

/-- The local time as `YYMMDDhhmmss`. -/
def getasciitimecompact (tm : Tm) : String :=
  String.ofList (digits [tm.year % 100, tm.mon, tm.mday, tm.hour, tm.min, tm.sec])

theorem digitChar_lt_iff : ∀ a < 10, ∀ b < 10, Nat.digitChar a < Nat.digitChar b ↔ a < b := by
  decide

theorem digitChar_inj : ∀ a < 10, ∀ b < 10, Nat.digitChar a = Nat.digitChar b ↔ a = b := by
  decide

theorem twoDigits_inj {a b : ℕ} (ha : a < 100) (hb : b < 100) :
    twoDigits a = twoDigits b ↔ a = b := by
  rw [twoDigits, twoDigits, List.cons.injEq, List.cons.injEq,
    digitChar_inj (a / 10) (by omega) (b / 10) (by omega),
    digitChar_inj (a % 10) (by omega) (b % 10) (by omega), and_iff_left rfl]
  omega

/-- Texts of digits compare as the numbers do. -/
theorem digits_lt_digits {left right : List ℕ} (hleft : ∀ a ∈ left, a < 100)
    (hright : ∀ b ∈ right, b < 100) (hlength : left.length = right.length) :
    digits left < digits right ↔ left < right := by
  induction left generalizing right with
  | nil =>
      rw [List.length_eq_zero_iff.mp hlength.symm]
      exact iff_of_false (List.not_lt_nil _) (List.not_lt_nil _)
  | cons a left ih =>
      cases right with
      | nil => cases hlength
      | cons b right =>
          have ha := hleft a List.mem_cons_self
          have hb := hright b List.mem_cons_self
          have hrest := ih (fun c hc => hleft c (List.mem_cons_of_mem a hc))
            (fun c hc => hright c (List.mem_cons_of_mem b hc)) (Nat.succ.inj hlength)
          change Nat.digitChar (a / 10) :: Nat.digitChar (a % 10) :: digits left <
            Nat.digitChar (b / 10) :: Nat.digitChar (b % 10) :: digits right ↔ _
          rw [List.cons_lt_cons_iff, List.cons_lt_cons_iff, List.cons_lt_cons_iff, hrest,
            digitChar_lt_iff (a / 10) (by omega) (b / 10) (by omega),
            digitChar_lt_iff (a % 10) (by omega) (b % 10) (by omega),
            digitChar_inj (a / 10) (by omega) (b / 10) (by omega),
            digitChar_inj (a % 10) (by omega) (b % 10) (by omega)]
          by_cases hlt : left < right
          · simp only [hlt, and_true]
            omega
          · simp only [hlt, and_false, or_false]
            omega

end Hsrv

namespace ArchiveManager

/-- `substr`, from a place within the text. -/
def substr (text : List Char) (place count : ℕ) : List Char := (text.drop place).take count

def normalizeDateTime (tt : String) : String :=
  if tt.length < 10 then tt
  else
    let t := if substr tt.toList 0 2 = ['2', '0'] then tt.toList.drop 2 else tt.toList
    let y := '2' :: '0' :: substr t 0 2
    String.ofList (y ++ substr t 2 2 ++ substr t 4 2 ++ substr t 6 2 ++ substr t 8 2)

/-- The compact form is taken as it is unless its year is 20. -/
theorem normalizeDateTime_compact {yy mon mday hour min sec : ℕ} (hyy : yy < 100) :
    normalizeDateTime (String.ofList (digits [yy, mon, mday, hour, min, sec])) =
      String.ofList (digits (if yy = 20 then [20, mon, mday, hour, min, sec]
        else [20, yy, mon, mday, hour, min])) := by
  have hfront : substr (digits [yy, mon, mday, hour, min, sec]) 0 2 = ['2', '0'] ↔ yy = 20 :=
    twoDigits_inj (b := 20) hyy (by decide)
  rw [normalizeDateTime, String.length_ofList, String.toList_ofList, if_neg (by simp)]
  simp only [hfront]
  split <;> rename_i h
  · rw [h]
    rfl
  · rfl

theorem normalizeDateTime_full (yy mon mday hour min sec : ℕ) :
    normalizeDateTime (String.ofList (digits [20, yy, mon, mday, hour, min, sec])) =
      String.ofList (digits [20, yy, mon, mday, hour, min]) := by
  rw [normalizeDateTime, String.length_ofList, String.toList_ofList, if_neg (by simp)]
  rfl

end ArchiveManager

/-- A local time of a date from 2000 to 2099. -/
structure Instant extends Hsrv.Tm where
  year_ge : 2000 ≤ year
  year_le : year ≤ 2099
  mon_pos : 0 < mon
  mon_le : mon ≤ 12
  mday_pos : 0 < mday
  mday_le : mday ≤ 31

namespace Instant

/-- The instant in minutes: two of them compare field by field. -/
def minutes (instant : Instant) : List ℕ :=
  [instant.year, instant.mon, instant.mday, instant.hour, instant.min]

/-- The digits of the minute within its century. -/
def shortMinutes (instant : Instant) : List ℕ :=
  [instant.year % 100, instant.mon, instant.mday, instant.hour, instant.min]

/-- From the month on. -/
def fromMonth (instant : Instant) : List ℕ :=
  [instant.mon, instant.mday, instant.hour, instant.min, instant.sec]

end Instant

/-- A timestamp: an instant in the full or in the compact form. -/
structure Stamp where
  instant : Instant
  full : Bool

namespace Stamp

def text (stamp : Stamp) : String :=
  (if stamp.full then "20" else "") ++ getasciitimecompact stamp.instant.toTm

/-- The compact form of the year 2020 begins as a full form does. -/
def Misread (stamp : Stamp) : Prop := stamp.full = false ∧ stamp.instant.year = 2020

instance (stamp : Stamp) : Decidable stamp.Misread :=
  inferInstanceAs (Decidable (_ ∧ _))

/-- The numbers behind the century that `normalizeDateTime` leaves. -/
def readNumbers (stamp : Stamp) : List ℕ :=
  if stamp.Misread then stamp.instant.fromMonth else stamp.instant.shortMinutes

end Stamp

namespace ArchiveManager

open Stamp

theorem normalizeDateTime_stamp (stamp : Stamp) :
    normalizeDateTime stamp.text = String.ofList (digits (20 :: stamp.readNumbers)) := by
  obtain ⟨instant, full⟩ := stamp
  have hyear := instant.year_ge
  have hle := instant.year_le
  cases full with
  | true =>
      have htext : Stamp.text ⟨instant, true⟩ = "20" ++ getasciitimecompact instant.toTm := rfl
      rw [htext, getasciitimecompact, twenty_append, normalizeDateTime_full, readNumbers,
        if_neg fun h => Bool.noConfusion h.1]
      rfl
  | false =>
      have htext : Stamp.text ⟨instant, false⟩ = getasciitimecompact instant.toTm :=
        String.empty_append
      have hmisread : instant.year % 100 = 20 ↔ Stamp.Misread ⟨instant, false⟩ := by
        simp only [Misread, true_and]
        omega
      rw [htext, getasciitimecompact, normalizeDateTime_compact (Nat.mod_lt _ (by decide)),
        readNumbers]
      simp only [hmisread]
      split <;> rfl

theorem readNumbers_lt (stamp : Stamp) : ∀ n ∈ stamp.readNumbers, n < 100 := by
  have hmon := stamp.instant.mon_le
  have hmday := stamp.instant.mday_le
  have hhour := stamp.instant.hour_lt
  have hmin := stamp.instant.min_lt
  have hsec := stamp.instant.sec_le
  rw [readNumbers]
  split <;> intro n hn <;>
    simp only [Instant.fromMonth, Instant.shortMinutes, List.mem_cons, List.not_mem_nil,
      or_false] at hn <;> omega

theorem length_readNumbers (stamp : Stamp) : stamp.readNumbers.length = 5 := by
  rw [readNumbers]
  split <;> rfl

/-- Normalised texts compare as the numbers that are left. -/
theorem normalizeDateTime_lt_iff (stamp other : Stamp) :
    normalizeDateTime stamp.text < normalizeDateTime other.text ↔
      stamp.readNumbers < other.readNumbers := by
  have htwenty : ∀ {numbers : List ℕ}, (∀ n ∈ numbers, n < 100) → ∀ n ∈ 20 :: numbers, n < 100 :=
    fun h n hn => (List.mem_cons.mp hn).elim (fun heq => heq ▸ by decide) (h n)
  rw [normalizeDateTime_stamp, normalizeDateTime_stamp, String.lt_iff_toList_lt,
    String.toList_ofList, String.toList_ofList, digits_lt_digits (htwenty (readNumbers_lt stamp))
      (htwenty (readNumbers_lt other)) (by simp [length_readNumbers]), List.cons_lt_cons_self]

/-! ## The two forms and the order -/

/-- Both forms of the instant are normalised to one text. -/
def FormsAgree (instant : Instant) : Prop :=
  normalizeDateTime (Stamp.text ⟨instant, false⟩) = normalizeDateTime (Stamp.text ⟨instant, true⟩)

/-- The order of the texts is the order in minutes. -/
def OrderKept (stamp other : Stamp) : Prop :=
  stamp.instant.minutes < other.instant.minutes ↔
    normalizeDateTime stamp.text < normalizeDateTime other.text

/-- A misread stamp against one that is read right: it sorts by its month before the years
from 2013 on, which is right for the years after 2020. -/
def MisreadBefore (stamp other : Stamp) : Prop :=
  2020 < other.instant.year ∨
    other.instant.year = 2020 ∧ stamp.instant.minutes < other.instant.minutes ∨
    other.instant.year < 2013 ∧ ¬ stamp.instant.fromMonth < other.instant.shortMinutes

/-- The same against a stamp before it. -/
def MisreadAfter (stamp other : Stamp) : Prop :=
  2020 < stamp.instant.year ∨
    stamp.instant.year = 2020 ∧ ¬ stamp.instant.minutes < other.instant.minutes ∨
    stamp.instant.year < 2013 ∧ stamp.instant.shortMinutes < other.instant.fromMonth

/-- When the order is kept: neither stamp is misread, or chance has it. -/
def OrderSafe (stamp other : Stamp) : Prop :=
  if stamp.Misread then
    if other.Misread then
      stamp.instant.minutes = other.instant.minutes → other.instant.sec ≤ stamp.instant.sec
    else MisreadBefore stamp other
  else if other.Misread then MisreadAfter stamp other
  else True

theorem formsAgree_iff (instant : Instant) : FormsAgree instant ↔ instant.year ≠ 2020 := by
  have hfull : ¬ Stamp.Misread ⟨instant, true⟩ := fun h => Bool.noConfusion h.1
  rw [FormsAgree, normalizeDateTime_stamp, normalizeDateTime_stamp, ← String.toList_inj,
    String.toList_ofList, String.toList_ofList]
  rw [readNumbers, readNumbers, if_neg hfull]
  by_cases hyear : instant.year = 2020
  · -- the month cannot stand for the year
    have hmon := instant.mon_le
    rw [if_pos ⟨rfl, hyear⟩]
    refine iff_of_false (fun heq => ?_) (fun hne => hne hyear)
    have hdrop := congrArg (fun text => (text.drop 2).take 2) heq
    have hdigits : twoDigits instant.mon = twoDigits (instant.year % 100) := hdrop
    rw [twoDigits_inj (by omega) (Nat.mod_lt _ (by decide))] at hdigits
    omega
  · rw [if_neg fun h => hyear h.2]
    exact iff_of_true rfl hyear

/-- Five numbers compare by the first two that differ. -/
theorem five_lt_iff (a b c d e a' b' c' d' e' : ℕ) :
    [a, b, c, d, e] < [a', b', c', d', e'] ↔
      a < a' ∨ a = a' ∧ (b < b' ∨ b = b' ∧ (c < c' ∨ c = c' ∧ (d < d' ∨ d = d' ∧ e < e'))) := by
  simp only [List.cons_lt_cons_iff, List.not_lt_nil, and_false, or_false]

theorem minutes_lt_iff_short (left right : Instant) :
    left.minutes < right.minutes ↔ left.shortMinutes < right.shortMinutes := by
  have hleft := left.year_ge
  have hleftLe := left.year_le
  have hright := right.year_ge
  have hrightLe := right.year_le
  have hlt : left.year < right.year ↔ left.year % 100 < right.year % 100 := by omega
  have heq : left.year = right.year ↔ left.year % 100 = right.year % 100 := by omega
  rw [Instant.minutes, Instant.minutes, Instant.shortMinutes, Instant.shortMinutes, five_lt_iff,
    five_lt_iff, hlt, heq]

/-- Of two misread stamps the seconds decide within a minute. -/
theorem misread_both {left right : Instant} (hyear : left.year = right.year) :
    (left.minutes < right.minutes ↔ left.fromMonth < right.fromMonth) ↔
      (left.minutes = right.minutes → right.sec ≤ left.sec) := by
  simp only [Instant.minutes, Instant.fromMonth, five_lt_iff, List.cons.injEq, and_true, hyear,
    true_and, lt_irrefl, false_or]
  omega

theorem misread_left {left : Stamp} (hleft : left.Misread) (right : Stamp) :
    (left.instant.minutes < right.instant.minutes ↔
      left.instant.fromMonth < right.instant.shortMinutes) ↔ MisreadBefore left right := by
  have hyear := hleft.2
  have hmon := left.instant.mon_le
  have hge := right.instant.year_ge
  have hle := right.instant.year_le
  rw [MisreadBefore]
  rcases lt_trichotomy right.instant.year 2020 with hlt | heq | hgt
  · -- earlier years: the order in minutes is the other way round
    have hnot : ¬ left.instant.minutes < right.instant.minutes := by
      rw [Instant.minutes, Instant.minutes, five_lt_iff]
      omega
    have hlate : ¬ 2020 < right.instant.year := not_lt_of_gt hlt
    by_cases hshort : right.instant.year < 2013
    · simp only [hnot, hshort, hlate, hlt.ne, false_iff, true_and, false_and, false_or]
    · have hbefore : left.instant.fromMonth < right.instant.shortMinutes := by
        rw [Instant.fromMonth, Instant.shortMinutes, five_lt_iff]
        omega
      simp only [hnot, hbefore, hshort, hlate, hlt.ne, false_iff, not_true_eq_false, false_and,
        or_false]
  · have hbefore : left.instant.fromMonth < right.instant.shortMinutes := by
      rw [Instant.fromMonth, Instant.shortMinutes, five_lt_iff]
      omega
    simp only [hbefore, heq, iff_true, true_and, lt_irrefl, false_or, not_true_eq_false, and_false,
      or_false]
  · have hearlier : left.instant.minutes < right.instant.minutes := by
      rw [Instant.minutes, Instant.minutes, five_lt_iff]
      omega
    have hbefore : left.instant.fromMonth < right.instant.shortMinutes := by
      rw [Instant.fromMonth, Instant.shortMinutes, five_lt_iff]
      omega
    simp only [hearlier, hbefore, hgt, true_or]

theorem misread_right (left : Stamp) {right : Stamp} (hright : right.Misread) :
    (left.instant.minutes < right.instant.minutes ↔
      left.instant.shortMinutes < right.instant.fromMonth) ↔ MisreadAfter left right := by
  have hyear := hright.2
  have hmon := right.instant.mon_le
  have hge := left.instant.year_ge
  have hle := left.instant.year_le
  rw [MisreadAfter]
  rcases lt_trichotomy left.instant.year 2020 with hlt | heq | hgt
  · have hearlier : left.instant.minutes < right.instant.minutes := by
      rw [Instant.minutes, Instant.minutes, five_lt_iff]
      omega
    have hlate : ¬ 2020 < left.instant.year := not_lt_of_gt hlt
    by_cases hshort : left.instant.year < 2013
    · simp only [hearlier, hshort, hlate, hlt.ne, true_iff, true_and, false_and, false_or]
    · have hafter : ¬ left.instant.shortMinutes < right.instant.fromMonth := by
        rw [Instant.fromMonth, Instant.shortMinutes, five_lt_iff]
        omega
      simp only [hearlier, hafter, hshort, hlate, hlt.ne, true_iff, false_and, or_false]
  · have hafter : ¬ left.instant.shortMinutes < right.instant.fromMonth := by
      rw [Instant.fromMonth, Instant.shortMinutes, five_lt_iff]
      omega
    simp only [hafter, heq, iff_false, true_and, lt_irrefl, false_or, and_false, or_false]
  · have hnot : ¬ left.instant.minutes < right.instant.minutes := by
      rw [Instant.minutes, Instant.minutes, five_lt_iff]
      omega
    have hafter : ¬ left.instant.shortMinutes < right.instant.fromMonth := by
      rw [Instant.fromMonth, Instant.shortMinutes, five_lt_iff]
      omega
    simp only [hnot, hafter, hgt, true_or]

theorem orderKept_iff (stamp other : Stamp) :
    OrderKept stamp other ↔ OrderSafe stamp other := by
  rw [OrderKept, OrderSafe, normalizeDateTime_lt_iff, readNumbers, readNumbers]
  by_cases hstamp : stamp.Misread
  · by_cases hother : other.Misread
    · simp only [if_pos hstamp, if_pos hother]
      exact misread_both (hstamp.2.trans hother.2.symm)
    · simp only [if_pos hstamp, if_neg hother]
      exact misread_left hstamp other
  · by_cases hother : other.Misread
    · simp only [if_neg hstamp, if_pos hother]
      exact misread_right stamp hother
    · simp only [if_neg hstamp, if_neg hother]
      exact iff_of_true (minutes_lt_iff_short _ _) trivial

/-- The two halves: one text for both forms, and the order in minutes. -/
theorem normalizeDateTime_iff (instant : Instant) (stamp other : Stamp) :
    (FormsAgree instant ↔ instant.year ≠ 2020) ∧ (OrderKept stamp other ↔ OrderSafe stamp other) :=
  ⟨formsAgree_iff instant, orderKept_iff stamp other⟩

/-- The morning of the 5th of May. -/
def mayMorning (year : ℕ) (hge : 2000 ≤ year) (hle : year ≤ 2099) : Instant :=
  { sec := 30, min := 15, hour := 10, mday := 5, mon := 5, year, wday := 1
    sec_le := by decide
    min_lt := by decide
    hour_lt := by decide
    year_ge := hge
    year_le := hle
    mon_pos := Nat.succ_pos 4
    mon_le := show 5 ≤ 12 by decide
    mday_pos := Nat.succ_pos 4
    mday_le := show 5 ≤ 31 by decide }

/-- In 2020 the forms of an instant disagree, and the compact one sorts before 2019. -/
theorem not_forms_order_2020 :
    ¬ FormsAgree (mayMorning 2020 (by decide) (by decide)) ∧
      ¬ OrderKept ⟨mayMorning 2019 (by decide) (by decide), true⟩
        ⟨mayMorning 2020 (by decide) (by decide), false⟩ := by
  unfold FormsAgree OrderKept
  decide

end ArchiveManager

end Hat
