import Hat.Core.Timetable
import Hat.Minilibs.PwrTargets

/-!
# The target that follows

The next target of an area with a current period is searched at the end of that period, in the
entry of today and then in the entry of the day that follows.  A search at a time finds the period
that contains it, which is the earliest one from that time on only where there is no gap.
-/

namespace Hat

open Hat.Hsrv Hat.Timetable

namespace PwrProgram

open TargetKind

variable {doc : List Area} {env : Env} {name : String}

/-- The periods that an area has for a weekday. -/
def weekdayPeriods (doc : List Area) (name : String) (wday : ℤ) : List PwrPeriod :=
  (entriesOf doc name wday).flatMap fun periods => periods.getD []

def todayPeriods (doc : List Area) (env : Env) (name : String) : List PwrPeriod :=
  weekdayPeriods doc name env.localtime.wday

def tomorrowPeriods (doc : List Area) (env : Env) (name : String) : List PwrPeriod :=
  weekdayPeriods doc name (nextDay env.localtime.wday)

/-- One entry for a weekday, of periods in increasing order within the day. -/
structure WeekdaysOrdered (doc : List Area) (name : String) : Prop where
  single : ∀ wday, (entriesOf doc name wday).length ≤ 1
  ordered : ∀ wday, InOrder PwrPeriod.start PwrPeriod.stop (weekdayPeriods doc name wday)
  within : ∀ wday, ∀ period ∈ weekdayPeriods doc name wday, period.stop ≤ "24:00:00"

def currentPeriod (doc : List Area) (env : Env) (name : String) : Option PwrPeriod :=
  (todayPeriods doc env name).find? fun period =>
    isInside (getasciitimeday env) period.start period.stop

/-- The earliest period that starts at the end of the current one or later: in the rest of
today, or else at the beginning of the day that follows. -/
def Following (doc : List Area) (env : Env) (name : String) (period : PwrPeriod) :
    Option PwrPeriod → Prop
  | some later =>
      EarliestFrom PwrPeriod.start period.stop (todayPeriods doc env name) later ∨
        (∀ other ∈ todayPeriods doc env name, other.start < period.stop) ∧
          (tomorrowPeriods doc env name).head? = some later
  | none =>
      (∀ other ∈ todayPeriods doc env name, other.start < period.stop) ∧
        tomorrowPeriods doc env name = []

def followingPeriod (doc : List Area) (env : Env) (name : String) (period : PwrPeriod) :
    Option PwrPeriod :=
  (earliestFrom PwrPeriod.start period.stop (todayPeriods doc env name)).or
    (tomorrowPeriods doc env name).head?

theorem following_iff (hdoc : WeekdaysOrdered doc name) (env : Env) (period : PwrPeriod)
    (later : Option PwrPeriod) :
    Following doc env name period later ↔ followingPeriod doc env name period = later := by
  have hover : earliestFrom PwrPeriod.start period.stop (todayPeriods doc env name) = none ↔
      ∀ other ∈ todayPeriods doc env name, other.start < period.stop := earliestFrom_eq_none
  rw [followingPeriod]
  cases later with
  | none =>
      rw [Following, ← hover, Option.or_eq_none_iff, List.head?_eq_none_iff]
  | some later =>
      rw [Following, ← hover, todayPeriods, ← earliestFrom_eq_some_iff (hdoc.ordered _),
        Option.or_eq_some_iff]

theorem isInside_iff {time start stop : String} (hlt : start < stop) :
    isInside time start stop ↔
      time = "24:00:00" ∧ start = "00:00:00" ∨ start ≤ time ∧ time < stop := by
  rw [isInside]
  by_cases hmidnight : time = "24:00:00" ∧ start = "00:00:00"
  · rw [if_pos hmidnight]
    exact iff_of_true rfl (Or.inl hmidnight)
  · rw [if_neg hmidnight, if_pos hlt, decide_eq_true_iff, or_iff_right hmidnight]

theorem entriesOf_eq (hdoc : WeekdaysOrdered doc name) {wday : ℤ} {period : PwrPeriod}
    (hperiod : period ∈ weekdayPeriods doc name wday) :
    ∃ periods, entriesOf doc name wday = [periods] ∧
      weekdayPeriods doc name wday = periods.getD [] := by
  obtain ⟨periods, hperiods, -⟩ := List.mem_flatMap.mp hperiod
  have hsingle := hdoc.single wday
  rw [weekdayPeriods]
  cases hentries : entriesOf doc name wday with
  | nil => simp [hentries] at hperiods
  | cons first rest =>
      rw [hentries] at hsingle
      have hrest : rest = [] := List.length_eq_zero_iff.mp (by simpa using hsingle)
      exact ⟨first, by rw [hrest], by simp [hrest]⟩

/-- At the end of a period the rest of the day is searched for one that starts right there. -/
theorem find?_rest (hdoc : WeekdaysOrdered doc name) {wday : ℤ} {period : PwrPeriod}
    (hperiod : period ∈ weekdayPeriods doc name wday) (hstop : period.stop < "24:00:00") :
    (weekdayPeriods doc name wday).find? (fun other =>
        isInside period.stop other.start other.stop) =
      (earliestFrom PwrPeriod.start period.stop (weekdayPeriods doc name wday)).filter
        fun later => later.start = period.stop := by
  have hordered := hdoc.ordered wday
  rw [← find?_holds hordered (border_stop hordered hperiod)]
  refine List.find?_congr fun other hother => ?_
  rw [Bool.eq_iff_iff, isInside_iff (hordered.lt other hother), decide_eq_true_iff]
  exact or_iff_right fun hmidnight => hstop.ne hmidnight.1

/-- No period of a day starts at its end or later. -/
theorem earliestFrom_dayEnd (hdoc : WeekdaysOrdered doc name) {wday : ℤ} {time : String}
    (htime : "24:00:00" ≤ time) :
    earliestFrom PwrPeriod.start time (weekdayPeriods doc name wday) = none := by
  refine earliestFrom_eq_none.mpr fun other hother => ?_
  calc other.start < other.stop := (hdoc.ordered wday).lt other hother
    _ ≤ "24:00:00" := hdoc.within wday other hother
    _ ≤ time := htime

/-- The next target of today is the earliest period from the end of the current one on, if it
starts right there. -/
theorem todayTargets_next (hdoc : WeekdaysOrdered doc name) {period : PwrPeriod}
    (hcurrent : currentPeriod doc env name = some period) :
    todayTargets doc env name .next =
      ((earliestFrom PwrPeriod.start period.stop (todayPeriods doc env name)).filter
        fun later => later.start = period.stop).map PwrPeriod.target := by
  have hperiod := List.mem_of_find?_eq_some hcurrent
  obtain ⟨periods, hentries, hperiods⟩ := entriesOf_eq hdoc hperiod
  have hfound : findPeriod periods (getasciitimeday env) = some period.target := by
    rw [findPeriod, ← hperiods]
    exact congrArg (Option.map PwrPeriod.target) hcurrent
  rw [todayTargets, hentries, lastSome_singleton, AreaTargets.todayFollowing, hfound,
    Option.bind_some]
  by_cases hstop : period.stop < "24:00:00"
  · have hend : period.target.endTime < "24:00:00" := hstop
    rw [if_pos hend, findPeriod, ← hperiods]
    exact congrArg (Option.map PwrPeriod.target) (find?_rest hdoc hperiod hstop)
  · have hend : ¬period.target.endTime < "24:00:00" := hstop
    rw [if_neg hend, todayPeriods, earliestFrom_dayEnd hdoc (not_lt.mp hstop)]
    rfl

theorem todayTargets_current (hdoc : WeekdaysOrdered doc name) {period : PwrPeriod}
    (hcurrent : currentPeriod doc env name = some period) :
    todayTargets doc env name .current = some period.target := by
  obtain ⟨periods, hentries, hperiods⟩ := entriesOf_eq hdoc (List.mem_of_find?_eq_some hcurrent)
  rw [todayTargets, todayTarget, hentries, lastSome_singleton, findPeriod, ← hperiods]
  exact congrArg (Option.map PwrPeriod.target) hcurrent

theorem findSome?_findPeriod (entries : List (Option (List PwrPeriod))) (time : String) :
    entries.findSome? (findPeriod · time) =
      ((entries.flatMap fun periods => periods.getD []).find? fun period =>
        isInside time period.start period.stop).map PwrPeriod.target := by
  induction entries with
  | nil => rfl
  | cons periods entries ih =>
      rw [List.flatMap_cons, List.find?_append, List.findSome?_cons, ih, findPeriod]
      cases (periods.getD []).find? fun period => isInside time period.start period.stop <;> rfl

theorem followingTarget_eq (hdoc : WeekdaysOrdered doc name) {period : PwrPeriod}
    (hcurrent : currentPeriod doc env name = some period) :
    followingTarget doc env name =
      (((earliestFrom PwrPeriod.start period.stop (todayPeriods doc env name)).filter
          fun later => later.start = period.stop).or
        ((tomorrowPeriods doc env name).find? fun later =>
          isInside period.stop later.start later.stop)).map PwrPeriod.target := by
  rw [followingTarget, todayTargets_next hdoc hcurrent, AreaTargets.tomorrowFollowing,
    todayTargets_current hdoc hcurrent]
  refine (congrArg _ (findSome?_findPeriod _ period.stop)).trans ?_
  exact Option.map_or.symm

/-- The earliest period of the rest of today starts where the current one ends; or there is no
rest, and the first period of the day that follows contains that time. -/
structure NoGap (doc : List Area) (env : Env) (name : String) (period : PwrPeriod) : Prop where
  today : ∀ later ∈ earliestFrom PwrPeriod.start period.stop (todayPeriods doc env name),
    later.start = period.stop
  tomorrow : earliestFrom PwrPeriod.start period.stop (todayPeriods doc env name) = none →
    ∀ first ∈ (tomorrowPeriods doc env name).head?, isInside period.stop first.start first.stop

theorem start_eq_of_target_eq {period other : PwrPeriod} (h : period.target = other.target) :
    period.start = other.start :=
  congrArg FeatureValue.beginTime h

/-- No period behind a gap contains the time before it. -/
theorem not_isInside_of_lt {time : String} {later other : PwrPeriod} (hafter : time < later.start)
    (hother : other.start < other.stop) (hstart : other.start = later.start) :
    ¬isInside time other.start other.stop := by
  intro hinside
  rw [isInside_iff hother, hstart] at hinside
  rcases hinside with ⟨rfl, hmidnight⟩ | ⟨hle, -⟩
  · rw [hmidnight] at hafter
    exact absurd hafter (by decide)
  · exact absurd hle hafter.not_ge

theorem find?_tomorrow_iff (hdoc : WeekdaysOrdered doc name) (env : Env) (time : String) :
    ((tomorrowPeriods doc env name).find? fun later =>
        isInside time later.start later.stop).map PwrPeriod.target =
        (tomorrowPeriods doc env name).head?.map PwrPeriod.target ↔
      ∀ first ∈ (tomorrowPeriods doc env name).head?, isInside time first.start first.stop := by
  have hordered := hdoc.ordered (nextDay env.localtime.wday)
  rw [← tomorrowPeriods] at hordered
  cases htomorrow : tomorrowPeriods doc env name with
  | nil => simp
  | cons first rest =>
      rw [htomorrow] at hordered
      have hlater := (List.pairwise_cons.mp hordered.starts_lt).1
      rw [List.find?_cons, List.head?_cons]
      by_cases hinside : isInside time first.start first.stop
      · simp [hinside]
      · simp only [hinside, Option.mem_some_iff, forall_eq']
        refine iff_of_false (fun htarget => ?_) Bool.false_ne_true
        obtain ⟨other, hother, hsame⟩ := Option.map_eq_some_iff.mp htarget
        have hlt := hlater other (List.mem_of_find?_eq_some hother)
        exact hlt.ne (start_eq_of_target_eq hsame).symm

/-- Before a gap the search of the day that follows does not find the period behind it. -/
theorem find?_tomorrow_ne (hdoc : WeekdaysOrdered doc name) (env : Env) {time : String}
    {later : PwrPeriod} (hafter : time < later.start) :
    ((tomorrowPeriods doc env name).find? fun other =>
        isInside time other.start other.stop).map PwrPeriod.target ≠ some later.target := by
  intro htarget
  obtain ⟨other, hother, hsame⟩ := Option.map_eq_some_iff.mp htarget
  have hlt := (hdoc.ordered _).lt other (List.mem_of_find?_eq_some hother)
  have hinside := List.find?_some hother
  exact not_isInside_of_lt hafter hlt (start_eq_of_target_eq hsame) hinside

theorem followingTarget_iff (hdoc : WeekdaysOrdered doc name) {period : PwrPeriod}
    (hcurrent : currentPeriod doc env name = some period) :
    followingTarget doc env name =
        (followingPeriod doc env name period).map PwrPeriod.target ↔
      NoGap doc env name period := by
  rw [followingTarget_eq hdoc hcurrent, followingPeriod]
  cases hlater : earliestFrom PwrPeriod.start period.stop (todayPeriods doc env name) with
  | none =>
      rw [Option.filter_none, Option.none_or, Option.none_or, find?_tomorrow_iff hdoc]
      constructor
      · intro hinside
        exact ⟨by simp [hlater], fun _ => hinside⟩
      · intro hgap
        exact hgap.tomorrow hlater
  | some later =>
      have hfrom := earliestFrom_eq_some (hdoc.ordered _) hlater
      rw [Option.some_or, Option.map_some]
      by_cases hstart : later.start = period.stop
      · have hgap : NoGap doc env name period := by
          refine ⟨?_, fun hnone => ?_⟩
          · rw [hlater]
            simpa using hstart
          · exact absurd (hlater.symm.trans hnone) (Option.some_ne_none later)
        simp [Option.filter_some, hstart, hgap]
      · have hafter : period.stop < later.start := lt_of_le_of_ne hfrom.le (Ne.symm hstart)
        rw [Option.filter_some_neg (by simpa using hstart), Option.none_or]
        refine iff_of_false (find?_tomorrow_ne hdoc env hafter) ?_
        intro hgap
        exact hstart (hgap.today later hlater)

/-! ## The entries of the other kinds -/

/-- What the search for the next targets leaves: the next target of the name, and no current or
default entry but those that the time alone gives. -/
structure NextComputed (doc : List Area) (env : Env) (name : String) (period : PwrPeriod)
    (program : PwrProgram) : Prop where
  next : ∃ later, Following doc env name period later ∧
    program.targets.find? (next.key name) = later.map PwrPeriod.target
  current : ∀ other, program.targets.find? (current.key other) = todayTarget doc env other
  default : ∀ other, program.targets.find? (default.key other) = defaultTarget doc env other

theorem find?_current_iff {program : PwrProgram} (h : load doc env = some program)
    (other : String) :
    program.targets.find? (current.key other) = todayTarget doc env other ↔
      ¬Blanked doc env other := by
  have hview := congrFun (view_load h other) current
  rw [loadedTargets_current] at hview
  rw [show program.targets.find? (current.key other) = _ from hview]
  by_cases hblanked : Blanked doc env other
  · simp [hblanked, hblanked.1]
  · simp [hblanked]

theorem find?_default {program : PwrProgram} (h : load doc env = some program) (other : String) :
    program.targets.find? (default.key other) = defaultTarget doc env other :=
  (congrFun (view_load h other) .default).trans (loadedTargets_default doc env other)

theorem find?_next_iff {program : PwrProgram} (h : load doc env = some program)
    (hdoc : WeekdaysOrdered doc name) {period : PwrPeriod}
    (hcurrent : currentPeriod doc env name = some period) :
    (∃ later, Following doc env name period later ∧
        program.targets.find? (next.key name) = later.map PwrPeriod.target) ↔
      NoGap doc env name period := by
  have hnext : program.targets.find? (next.key name) = followingTarget doc env name :=
    (congrFun (view_load h name) .next).trans (loadedTargets_next doc env name)
  rw [← followingTarget_iff hdoc hcurrent, ← hnext]
  simp only [following_iff hdoc, exists_eq_left']

/-- The search is right if and only if each area keeps its defaults before its days, there is no
gap behind the current period, and no area is left with an empty current target. -/
theorem nextComputed_iff (hdoc : WeekdaysOrdered doc name) {period : PwrPeriod}
    (hcurrent : currentPeriod doc env name = some period) :
    (∃ program, load doc env = some program ∧ NextComputed doc env name period program) ↔
      (∀ area ∈ doc, area.days.isSome) ∧ NoGap doc env name period ∧
        ∀ other, ¬Blanked doc env other := by
  rw [← load_isSome_iff env, Option.isSome_iff_exists]
  constructor
  · rintro ⟨program, hload, hcomputed⟩
    refine ⟨⟨program, hload⟩, (find?_next_iff hload hdoc hcurrent).mp hcomputed.next, ?_⟩
    intro other
    exact (find?_current_iff hload other).mp (hcomputed.current other)
  · rintro ⟨⟨program, hload⟩, hgap, hkept⟩
    refine ⟨program, hload, (find?_next_iff hload hdoc hcurrent).mpr hgap, ?_, ?_⟩
    · intro other
      exact (find?_current_iff hload other).mpr (hkept other)
    · exact find?_default hload

/-- A document of one area with one entry. -/
def oneDay (name : String) (wday : ℤ) (periods : List PwrPeriod) : List Area :=
  [⟨name, [.day wday (some periods)]⟩]

theorem entriesOf_oneDay (name : String) (day wday : ℤ) (periods : List PwrPeriod) :
    entriesOf (oneDay name day periods) name wday = if day = wday then [some periods] else [] := by
  simp [entriesOf, oneDay, Area.days, Area.daysFrom]

theorem weekdaysOrdered_oneDay (name : String) (day : ℤ) {periods : List PwrPeriod}
    (hordered : InOrder PwrPeriod.start PwrPeriod.stop periods)
    (hwithin : ∀ period ∈ periods, period.stop ≤ "24:00:00") :
    WeekdaysOrdered (oneDay name day periods) name := by
  have hnone : InOrder PwrPeriod.start PwrPeriod.stop [] := ⟨by simp, List.Pairwise.nil⟩
  have hperiods : ∀ wday, weekdayPeriods (oneDay name day periods) name wday = periods ∨
      weekdayPeriods (oneDay name day periods) name wday = [] := by
    intro wday
    rw [weekdayPeriods, entriesOf_oneDay]
    by_cases hday : day = wday <;> simp [hday]
  refine ⟨fun wday => ?_, fun wday => ?_, fun wday => ?_⟩
  · rw [entriesOf_oneDay]
    split <;> simp
  · rcases hperiods wday with h | h <;> rw [h]
    · exact hordered
    · exact hnone
  · rcases hperiods wday with h | h <;> rw [h]
    · exact hwithin
    · simp

theorem not_blanked_oneDay (name : String) (day : ℤ) (periods : List PwrPeriod) (env : Env)
    (other : String) : ¬Blanked (oneDay name day periods) env other := by
  intro hblanked
  have hdefault := hblanked.2.1
  simp [defaultTarget, defaultsOf, oneDay, Area.firstDefault] at hdefault

def earlyPeriod : PwrPeriod := ⟨"06:00:00", "08:00:00", some 21, by decide, by decide⟩

def dayPeriod : PwrPeriod := ⟨"08:00:00", "23:30:00", some 18, by decide, by decide⟩

def eveningPeriod : PwrPeriod := ⟨"17:00:00", "22:00:00", some 21, by decide, by decide⟩

def fridayMorning : Env where
  gettime := 1717738872
  gettime_nonneg := by norm_num
  localtime :=
    { sec := 12, min := 41, hour := 7, mday := 7, mon := 6, year := 2024, wday := 5
      sec_le := by decide
      min_lt := by decide
      hour_lt := by decide }
  unsetInt := 0
  unsetDouble := 0

theorem inOrder_pair {first second : PwrPeriod} (hfirst : first.start < first.stop)
    (hsecond : second.start < second.stop) (hle : first.stop ≤ second.start) :
    InOrder PwrPeriod.start PwrPeriod.stop [first, second] :=
  ⟨List.forall_mem_cons.mpr ⟨hfirst, List.forall_mem_singleton.mpr hsecond⟩,
    List.pairwise_pair.mpr hle⟩

/-- Two periods that adjoin: the second is the next target of the first. -/
theorem nextComputed_adjoining :
    WeekdaysOrdered (oneDay "bath" 5 [earlyPeriod, dayPeriod]) "bath" ∧
      ∃ program, load (oneDay "bath" 5 [earlyPeriod, dayPeriod]) fridayMorning = some program ∧
        NextComputed (oneDay "bath" 5 [earlyPeriod, dayPeriod]) fridayMorning "bath" earlyPeriod
          program := by
  have hdoc : WeekdaysOrdered (oneDay "bath" 5 [earlyPeriod, dayPeriod]) "bath" :=
    weekdaysOrdered_oneDay "bath" 5
      (inOrder_pair (by decide +kernel) (by decide +kernel) (by decide +kernel))
      (by decide +kernel)
  have hcurrent : currentPeriod (oneDay "bath" 5 [earlyPeriod, dayPeriod]) fridayMorning "bath" =
      some earlyPeriod := by
    decide +kernel
  have hlater : earliestFrom PwrPeriod.start earlyPeriod.stop
      (todayPeriods (oneDay "bath" 5 [earlyPeriod, dayPeriod]) fridayMorning "bath") =
      some dayPeriod := by
    decide +kernel
  refine ⟨hdoc, (nextComputed_iff hdoc hcurrent).mpr ⟨by decide, ⟨?_, ?_⟩, ?_⟩⟩
  · rw [hlater]
    rintro later ⟨rfl⟩
    rfl
  · intro hnone
    exact absurd (hlater.symm.trans hnone) (Option.some_ne_none _)
  · exact not_blanked_oneDay "bath" 5 _ _

/-- The evening follows the morning after a gap, and no next target is found. -/
theorem not_nextComputed_gap :
    WeekdaysOrdered (oneDay "bath" 5 [earlyPeriod, eveningPeriod]) "bath" ∧
      currentPeriod (oneDay "bath" 5 [earlyPeriod, eveningPeriod]) fridayMorning "bath" =
        some earlyPeriod ∧
      ¬∃ program, load (oneDay "bath" 5 [earlyPeriod, eveningPeriod]) fridayMorning =
          some program ∧
        NextComputed (oneDay "bath" 5 [earlyPeriod, eveningPeriod]) fridayMorning "bath"
          earlyPeriod program := by
  have hdoc : WeekdaysOrdered (oneDay "bath" 5 [earlyPeriod, eveningPeriod]) "bath" :=
    weekdaysOrdered_oneDay "bath" 5
      (inOrder_pair (by decide +kernel) (by decide +kernel) (by decide +kernel))
      (by decide +kernel)
  have hcurrent : currentPeriod (oneDay "bath" 5 [earlyPeriod, eveningPeriod]) fridayMorning
      "bath" = some earlyPeriod := by
    decide +kernel
  have hlater : earliestFrom PwrPeriod.start earlyPeriod.stop
      (todayPeriods (oneDay "bath" 5 [earlyPeriod, eveningPeriod]) fridayMorning "bath") =
      some eveningPeriod := by
    decide +kernel
  refine ⟨hdoc, hcurrent, ?_⟩
  rintro ⟨program, hload, hcomputed⟩
  have hgap := (find?_next_iff hload hdoc hcurrent).mp hcomputed.next
  have hstart : eveningPeriod.start = earlyPeriod.stop := hgap.today eveningPeriod hlater
  exact absurd hstart (by decide)

end PwrProgram

end Hat
