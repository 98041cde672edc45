import Hat.Core.CircularInterval
import Hat.Minilibs.ArchiveTimes
import Hat.Minilibs.PwrProgram

/-!
# The periods of a whole day

The periods of a day partition it as a circle, and one of them may run over midnight.  Times
are compared as texts, and midnight has two: a period begins at `00:00:00` and ends at
`24:00:00`.  A period that begins at midnight is found under both; one that runs over it is
not found at `24:00:00`.
-/

namespace Hat

open Hsrv

/-- `hh:mm:ss` of a second of the day. -/
def clockText (second : ℕ) : String :=
  String.ofList (twoDigits (second / 3600) ++ ':' :: (twoDigits (second / 60 % 60) ++
    ':' :: twoDigits (second % 60)))

/-- An end at midnight is written as the end of the day. -/
def stopText (second : ℕ) : String := clockText (if second = 0 then 86400 else second)

theorem clockText_zero : clockText 0 = "00:00:00" := by
  decide

theorem clockText_day : clockText 86400 = "24:00:00" := by
  decide

/-- Two digits compare before what stands behind them. -/
theorem twoDigits_append_lt_iff {a b : ℕ} (ha : a < 100) (hb : b < 100)
    (rest rest' : List Char) :
    twoDigits a ++ rest < twoDigits b ++ rest' ↔ a < b ∨ a = b ∧ rest < rest' := by
  rw [twoDigits, twoDigits, List.cons_append, List.cons_append, List.cons_append,
    List.cons_append, List.nil_append, List.nil_append, List.cons_lt_cons_iff,
    List.cons_lt_cons_iff, digitChar_lt_iff (a / 10) (by omega) (b / 10) (by omega),
    digitChar_lt_iff (a % 10) (by omega) (b % 10) (by omega),
    digitChar_inj (a / 10) (by omega) (b / 10) (by omega),
    digitChar_inj (a % 10) (by omega) (b % 10) (by omega)]
  have hlower : a < b ↔ a / 10 < b / 10 ∨ a / 10 = b / 10 ∧ a % 10 < b % 10 := by omega
  have hsame : a = b ↔ a / 10 = b / 10 ∧ a % 10 = b % 10 := by omega
  rw [hlower, hsame]
  tauto

theorem clockText_lt_iff {a b : ℕ} (ha : a ≤ 86400) (hb : b ≤ 86400) :
    clockText a < clockText b ↔ a < b := by
  have hnone : ∀ {s t : ℕ}, s < 100 → t < 100 → (twoDigits s < twoDigits t ↔ s < t) := by
    intro s t hs ht
    have hcompare := twoDigits_append_lt_iff hs ht [] []
    rw [List.append_nil, List.append_nil] at hcompare
    rw [hcompare, or_iff_left]
    exact fun hboth => List.not_lt_nil _ hboth.2
  rw [String.lt_iff_toList_lt, clockText, clockText, String.toList_ofList, String.toList_ofList,
    twoDigits_append_lt_iff (by omega) (by omega), List.cons_lt_cons_self,
    twoDigits_append_lt_iff (by omega) (by omega), List.cons_lt_cons_self,
    hnone (by omega) (by omega)]
  omega

theorem clockText_le_iff {a b : ℕ} (ha : a ≤ 86400) (hb : b ≤ 86400) :
    clockText a ≤ clockText b ↔ a ≤ b := by
  rw [← not_lt, clockText_lt_iff hb ha, not_lt]

theorem clockText_inj {a b : ℕ} (ha : a ≤ 86400) (hb : b ≤ 86400) :
    clockText a = clockText b ↔ a = b := by
  rw [le_antisymm_iff, clockText_le_iff ha hb, clockText_le_iff hb ha, ← le_antisymm_iff]

theorem clockText_ne_empty (second : ℕ) : clockText second ≠ "" := by
  intro hempty
  have hchars := congrArg String.toList hempty
  rw [clockText, String.toList_ofList] at hchars
  exact absurd hchars (List.cons_ne_nil _ _)

/-- A period by the seconds of the day; one that ends at midnight has the stop zero. -/
structure DayPeriod where
  start : ℕ
  stop : ℕ
  value : Option ℚ
  deriving DecidableEq

namespace DayPeriod

def arc (period : DayPeriod) : ℕ × ℕ := (period.start, period.stop)

/-- The period as the document writes it. -/
def written (period : DayPeriod) : PwrPeriod where
  start := clockText period.start
  stop := stopText period.stop
  value := period.value
  start_ne := clockText_ne_empty period.start
  stop_ne := clockText_ne_empty _

end DayPeriod

/-- The periods of a day, each of which ends where another one begins. -/
structure CircularDay where
  periods : List DayPeriod
  start_lt : ∀ period ∈ periods, period.start < 86400
  partitions : PartitionsCircle (periods.map DayPeriod.arc)

namespace CircularDay

theorem stop_lt (day : CircularDay) {period : DayPeriod} (hperiod : period ∈ day.periods) :
    period.stop < 86400 := by
  obtain ⟨arc, harc, hstop⟩ :=
    day.partitions.exists_fst_eq_snd (List.mem_map_of_mem hperiod)
  obtain ⟨next, hnext, rfl⟩ := List.mem_map.mp harc
  calc period.stop
    _ = next.start := hstop.symm
    _ < 86400 := day.start_lt next hnext

end CircularDay

namespace PwrProgram

/-- The comparison of the texts is one of the seconds. -/
theorem isInside_clockText {time start stop : ℕ} (htime : time ≤ 86400) (hstart : start ≤ 86400)
    (hstop : stop ≤ 86400) :
    isInside (clockText time) (clockText start) (clockText stop) = true ↔
      (time = 86400 ∧ start = 0) ∨
        if start < stop then start ≤ time ∧ time < stop
        else (start ≤ time ∧ time < 86400) ∨ time < stop := by
  have hday : clockText time = "24:00:00" ∧ clockText start = "00:00:00" ↔
      time = 86400 ∧ start = 0 := by
    rw [← clockText_day, ← clockText_zero, clockText_inj htime (le_refl _),
      clockText_inj hstart (Nat.zero_le _)]
  rw [isInside]
  by_cases hspecial : time = 86400 ∧ start = 0
  · rw [if_pos (hday.mpr hspecial)]
    exact iff_of_true rfl (Or.inl hspecial)
  · rw [if_neg (hday.not.mpr hspecial), or_iff_right hspecial]
    by_cases hlt : start < stop
    · rw [if_pos hlt, if_pos ((clockText_lt_iff hstart hstop).mpr hlt), decide_eq_true_iff,
        clockText_le_iff hstart htime, clockText_lt_iff htime hstop]
    · rw [if_neg hlt, if_neg ((clockText_lt_iff hstart hstop).not.mpr hlt), decide_eq_true_iff,
        clockText_le_iff hstart htime, clockText_lt_iff htime hstop, ← clockText_day,
        ← clockText_zero, clockText_lt_iff htime (le_refl _),
        clockText_le_iff (Nat.zero_le _) htime, and_iff_right (Nat.zero_le time)]

theorem isInside_written_iff {period : DayPeriod} (hstart : period.start < 86400)
    (hstop : period.stop < 86400) {time : ℕ} (htime : time ≤ 86400) :
    isInside (clockText time) period.written.start period.written.stop = true ↔
      if time = 86400 then period.start = 0 else InArc period.arc time := by
  obtain ⟨stop, hstopText, hcases⟩ : ∃ stop, stopText period.stop = clockText stop ∧
      (period.stop = 0 ∧ stop = 86400 ∨ period.stop ≠ 0 ∧ stop = period.stop) := by
    refine ⟨_, rfl, ?_⟩
    by_cases hmidnight : period.stop = 0
    · exact Or.inl ⟨hmidnight, if_pos hmidnight⟩
    · exact Or.inr ⟨hmidnight, if_neg hmidnight⟩
  have hinside := isInside_clockText htime hstart.le (show stop ≤ 86400 by omega)
  rw [← hstopText] at hinside
  refine Iff.trans hinside ?_
  rcases lt_or_ge period.start period.stop with hlt | hle
  · rw [DayPeriod.arc, inArc_of_lt hlt]
    split_ifs <;> omega
  · rw [DayPeriod.arc, inArc_of_le hle]
    split_ifs <;> omega

end PwrProgram

namespace CircularDay

open PwrProgram

/-- The periods that are found at a time, as it is written. -/
def found (day : CircularDay) (time : ℕ) : List DayPeriod :=
  day.periods.filter fun period =>
    isInside (clockText time) period.written.start period.written.stop

/-- At the time one period is found, the one that contains the instant, and `getPeriods`
returns a period of the day. -/
structure FindsOne (day : CircularDay) (time : ℕ) : Prop where
  one : (day.found time).length = 1
  contains : ∀ period ∈ day.periods, period ∈ day.found time ↔ InArc period.arc (time % 86400)
  getPeriods : ∀ key targets,
    (getPeriods (some (day.periods.map DayPeriod.written)) (clockText time) key targets).1 = true

theorem mem_found_iff (day : CircularDay) {time : ℕ} (htime : time ≤ 86400)
    {period : DayPeriod} (hperiod : period ∈ day.periods) :
    period ∈ day.found time ↔
      if time = 86400 then period.start = 0 else InArc period.arc time := by
  rw [found, List.mem_filter, and_iff_right hperiod]
  exact isInside_written_iff (day.start_lt period hperiod) (day.stop_lt hperiod) htime

/-- Where the periods that are found are those that contain the instant, there is one. -/
theorem findsOne_of_contains (day : CircularDay) {time : ℕ}
    (hcontains : ∀ period ∈ day.periods,
      period ∈ day.found time ↔ InArc period.arc (time % 86400)) : day.FindsOne time := by
  have hfound : day.found time =
      day.periods.filter fun period => InArc period.arc (time % 86400) := by
    apply List.filter_congr
    intro period hperiod
    have hmem := hcontains period hperiod
    rw [found, List.mem_filter, and_iff_right hperiod] at hmem
    rw [Bool.eq_iff_iff, hmem, decide_eq_true_iff]
  have hone : (day.found time).length = 1 := by
    have hcount := day.partitions.countP_eq_one (time % 86400)
    rw [List.countP_map, List.countP_eq_length_filter] at hcount
    rw [hfound]
    exact hcount
  refine ⟨hone, hcontains, fun key targets => ?_⟩
  obtain ⟨period, hperiod⟩ := List.exists_mem_of_length_pos (hone ▸ Nat.one_pos)
  obtain ⟨hmem, hinside⟩ := List.mem_filter.mp hperiod
  cases hfind : findPeriod (some (day.periods.map DayPeriod.written)) (clockText time) with
  | some target => rw [getPeriods_of_some hfind]
  | none =>
      rw [findPeriod, Option.map_eq_none_iff, List.find?_eq_none] at hfind
      exact absurd hinside (hfind period.written (List.mem_map_of_mem hmem))

/-- One period is found at every time but the end of the day, and there when a period begins
at midnight. -/
theorem findsOne_iff (day : CircularDay) {time : ℕ} (htime : time ≤ 86400) :
    day.FindsOne time ↔ time < 86400 ∨ ∃ period ∈ day.periods, period.start = 0 := by
  rcases htime.lt_or_eq with hlt | rfl
  · refine iff_of_true (day.findsOne_of_contains fun period hperiod => ?_) (Or.inl hlt)
    rw [day.mem_found_iff htime hperiod, if_neg hlt.ne, Nat.mod_eq_of_lt hlt]
  · rw [or_iff_right (lt_irrefl 86400)]
    constructor
    · intro hfinds
      obtain ⟨period, hperiod⟩ := List.exists_mem_of_length_pos (hfinds.one ▸ Nat.one_pos)
      have hmem := (List.mem_filter.mp hperiod).1
      have hstart := (day.mem_found_iff htime hmem).mp hperiod
      rw [if_pos rfl] at hstart
      exact ⟨period, hmem, hstart⟩
    · rintro ⟨midnight, hmidnight, hstart⟩
      apply day.findsOne_of_contains
      intro period hperiod
      rw [day.mem_found_iff htime hperiod, if_pos rfl, Nat.mod_self]
      -- An arc contains its own start, and no other arc contains it.
      have hself : ∀ other : DayPeriod, other.start = 0 → InArc other.arc 0 := by
        intro other hother
        rw [DayPeriod.arc, hother]
        exact inArc_self_left 0 other.stop
      constructor
      · exact hself period
      · intro hin
        have harc := day.partitions.eq_of_inArc (List.mem_map_of_mem hperiod)
          (List.mem_map_of_mem hmidnight) hin (hself midnight hstart)
        exact (congrArg Prod.fst harc).trans hstart

/-- From six in the morning to ten in the evening, and over midnight back. -/
def dayAndNight : CircularDay where
  periods := [⟨21600, 79200, some 20⟩, ⟨79200, 21600, some 16⟩]
  start_lt := by decide
  partitions := ⟨21600, [79200], by decide, List.Perm.refl _⟩

theorem findsOne_morning :
    dayAndNight.FindsOne 21600 ↔
      21600 < 86400 ∨ ∃ period ∈ dayAndNight.periods, period.start = 0 :=
  findsOne_iff dayAndNight (by decide)

/-- The night is not found at the end of the day. -/
theorem not_findsOne_midnight : ¬dayAndNight.FindsOne 86400 := by
  intro hfinds
  exact absurd hfinds.one (by decide)

end CircularDay

end Hat
