import Hat.Core.Machine
import Mathlib.Logic.Function.Basic
import Mathlib.Algebra.Order.Ring.Int

/-!
# The change of the day in the archive

Lines are appended to the file `data` of a resource.  The first trigger of a day is to rename
it to `data.D`, where `D` is the day before.  Three days are compared for that: the one stored
at the last trigger, the one of 900 seconds ago, which decides whether the files are renamed,
and the one of 60 seconds ago, which they are named after.
-/

namespace Hat

/-- The local date of an instant, as the number of a day: it does not go back, and 900 seconds
contain one midnight at most. -/
structure Calendar where
  day : ℤ → ℤ
  mono : ∀ {earlier later}, earlier ≤ later → day earlier ≤ day later
  next_day : ∀ time, day time ≤ day (time - 900) + 1

structure ArchiveLine where
  time : ℤ
  text : String
  deriving DecidableEq

/-- The files of each resource, where one without lines does not exist, and the day of the
last trigger.  What has been written, and whether a trigger has come every day, is kept for
comparison. -/
structure DayArchive (ρ : Type) where
  now : ℤ
  stored : ℤ
  data : ρ → List ArchiveLine
  dated : ρ → ℤ → List ArchiveLine
  written : List (ρ × ArchiveLine)
  daily : Bool

inductive ArchiveEvent (ρ : Type)
  | tick (seconds : ℕ)
  | write (resource : ρ) (text : String)
  | trigger

namespace DayArchive

variable {ρ : Type} (cal : Calendar) (window : ρ → ℤ)

def getday (archive : DayArchive ρ) (delta : ℤ) : ℤ := cal.day (archive.now + delta)

/-- The file `data` is renamed over what has its new name, and dated files older than the
window are deleted.  Roots with a negative window are left alone. -/
def purge (archive : DayArchive ρ) : DayArchive ρ :=
  let datestr := archive.getday cal (-60)
  { archive with
    data := fun r => if window r < 0 then archive.data r else []
    dated := fun r ext =>
      if window r < 0 then archive.dated r ext
      else if ext = datestr ∧ archive.data r ≠ [] then archive.data r
      else if datestr - ext > window r then []
      else archive.dated r ext }

def update (archive : DayArchive ρ) : DayArchive ρ :=
  let currentday := archive.getday cal 0
  let yesterday := archive.getday cal (-900)
  let daily := archive.daily && decide (currentday ≤ archive.stored + 1)
  if currentday = archive.stored then archive
  else if yesterday ≠ archive.stored then { archive with stored := currentday, daily := daily }
  else { archive.purge cal window with stored := currentday, daily := daily }

def append [DecidableEq ρ] (r : ρ) (text : String) (archive : DayArchive ρ) : DayArchive ρ :=
  { archive with
    data := Function.update archive.data r (archive.data r ++ [⟨archive.now, text⟩])
    written := (r, ⟨archive.now, text⟩) :: archive.written }

def step [DecidableEq ρ] (archive : DayArchive ρ) : ArchiveEvent ρ → DayArchive ρ
  | .tick seconds => { archive with now := archive.now + seconds }
  | .write r text => archive.append r text
  | .trigger => archive.update cal window

/-- The archive at its installation. -/
def install (now : ℤ) : DayArchive ρ where
  now := now
  stored := cal.day now
  data _ := []
  dated _ _ := []
  written := []
  daily := true

/-- The trigger renames the files. -/
def Purges (archive : DayArchive ρ) : Prop :=
  archive.getday cal 0 ≠ archive.stored ∧ archive.getday cal (-900) = archive.stored

/-- The line is older than the window allows on the stored day. -/
def Expired (archive : DayArchive ρ) (r : ρ) (line : ArchiveLine) : Prop :=
  window r < archive.stored - cal.day line.time

/-- Every file that is renamed gets the date of all its lines, and what it replaces has no
line of another day. -/
def RenamesRight (archive : DayArchive ρ) : Prop :=
  archive.Purges cal → ∀ r, 0 ≤ window r → ∀ line,
    (line ∈ archive.data r → cal.day line.time = archive.getday cal (-60)) ∧
      (archive.data r ≠ [] → line ∈ archive.dated r (archive.getday cal (-60)) →
        cal.day line.time = archive.getday cal (-60))

/-- Every line that has not expired is in a file, and that is the file of its own date: `data`
is the file of the stored day. -/
def Filed (archive : DayArchive ρ) : Prop :=
  ∀ r, 0 ≤ window r → ∀ line, (r, line) ∈ archive.written → ¬ archive.Expired cal window r line →
    (line ∈ archive.data r ∨ ∃ ext, line ∈ archive.dated r ext) ∧
      (line ∈ archive.data r → cal.day line.time = archive.stored) ∧
        ∀ ext, line ∈ archive.dated r ext → cal.day line.time = ext

/-- A trigger renames right and, as long as triggers come every day, leaves every line in its
file. -/
def Right (archive : DayArchive ρ) : ArchiveEvent ρ → Prop
  | .trigger => archive.RenamesRight cal window ∧
      ((archive.update cal window).daily → (archive.update cal window).Filed cal window)
  | _ => True

/-- The day on which all lines of `data` should have been written: in the first 60 seconds of
a day nothing has been written since midnight, and nothing before midnight in the rest of the
first 900 seconds. -/
def dueDay (archive : DayArchive ρ) : ℤ :=
  if archive.getday cal (-60) = archive.stored then archive.stored else archive.getday cal 0

/-- What a trigger that renames must find. -/
def ReadyToPurge (archive : DayArchive ρ) (r : ρ) : Prop :=
  (∀ line ∈ archive.data r, cal.day line.time = archive.dueDay cal) ∧
    (archive.daily → archive.data r ≠ [] → ∀ line ∈ archive.dated r (archive.dueDay cal),
      archive.getday cal 0 - cal.day line.time ≤ window r → line ∈ archive.data r)

/-- What a trigger that comes too late to rename must find: nothing of the days before. -/
def ReadyToKeep (archive : DayArchive ρ) (r : ρ) : Prop :=
  archive.daily → archive.getday cal 0 ≤ archive.stored + 1 → ∀ line ∈ archive.data r,
    archive.getday cal 0 - cal.day line.time ≤ window r →
      cal.day line.time = archive.getday cal 0

def Timely (archive : DayArchive ρ) : ArchiveEvent ρ → Prop
  | .trigger => archive.getday cal 0 ≠ archive.stored → ∀ r, 0 ≤ window r →
      (archive.getday cal (-900) = archive.stored → archive.ReadyToPurge cal window r) ∧
        (archive.getday cal (-900) ≠ archive.stored → archive.ReadyToKeep cal window r)
  | _ => True

/-- What holds as long as every trigger has been timely. -/
structure Kept (archive : DayArchive ρ) : Prop where
  stored_le : archive.stored ≤ archive.getday cal 0
  past : ∀ r, ∀ line ∈ archive.data r, line.time ≤ archive.now
  data_written : ∀ r, ∀ line ∈ archive.data r, (r, line) ∈ archive.written
  dated_written : ∀ r ext, ∀ line ∈ archive.dated r ext, (r, line) ∈ archive.written
  dated_day : ∀ r, 0 ≤ window r → ∀ ext, ∀ line ∈ archive.dated r ext, cal.day line.time = ext
  complete : archive.daily → ∀ r, 0 ≤ window r → ∀ line, (r, line) ∈ archive.written →
    ¬ archive.Expired cal window r line →
      line ∈ archive.data r ∨ line ∈ archive.dated r (cal.day line.time)
  fresh : archive.daily → ∀ r, 0 ≤ window r → ∀ line ∈ archive.data r,
    ¬ archive.Expired cal window r line → archive.stored ≤ cal.day line.time

theorem kept_install (now : ℤ) : (install cal now : DayArchive ρ).Kept cal window where
  stored_le := by
    rw [getday, add_zero]
    exact le_refl _
  past r line hline := absurd hline List.not_mem_nil
  data_written r line hline := absurd hline List.not_mem_nil
  dated_written r ext line hline := absurd hline List.not_mem_nil
  dated_day r _ ext line hline := absurd hline List.not_mem_nil
  complete _ r _ line hline := absurd hline List.not_mem_nil
  fresh _ r _ line hline := absurd hline List.not_mem_nil

section Kept

variable {cal window} {archive : DayArchive ρ}

theorem Kept.tick (h : archive.Kept cal window) (seconds : ℕ) :
    ({ archive with now := archive.now + seconds } : DayArchive ρ).Kept cal window :=
  have hnow : archive.now ≤ archive.now + seconds := by omega
  { h with
    stored_le := h.stored_le.trans (cal.mono (Int.add_le_add_right hnow 0))
    past := fun r line hline => (h.past r line hline).trans hnow }

theorem mem_append_data [DecidableEq ρ] {r other : ρ} {text : String} {line : ArchiveLine} :
    line ∈ (archive.append r text).data other ↔
      line ∈ archive.data other ∨ other = r ∧ line = ⟨archive.now, text⟩ := by
  rw [append]
  by_cases hother : other = r
  · subst hother
    simp
  · simp [hother]

theorem Kept.append [DecidableEq ρ] (h : archive.Kept cal window) (r : ρ) (text : String) :
    (archive.append r text).Kept cal window where
  stored_le := h.stored_le
  past other line hline := by
    rcases mem_append_data.mp hline with hold | ⟨-, rfl⟩
    · exact h.past other line hold
    · exact le_refl _
  data_written other line hline := by
    rcases mem_append_data.mp hline with hold | ⟨rfl, rfl⟩
    · exact List.mem_cons_of_mem _ (h.data_written other line hold)
    · exact List.mem_cons_self
  dated_written other ext line hline :=
    List.mem_cons_of_mem _ (h.dated_written other ext line hline)
  dated_day := h.dated_day
  complete hdaily other hwindow line hline hexpired := by
    rcases List.mem_cons.mp hline with heq | hold
    · obtain ⟨rfl, rfl⟩ := Prod.mk.inj heq
      exact Or.inl (mem_append_data.mpr (Or.inr ⟨rfl, rfl⟩))
    · exact (h.complete hdaily other hwindow line hold hexpired).imp_left fun hdata =>
        mem_append_data.mpr (Or.inl hdata)
  fresh hdaily other hwindow line hline hexpired := by
    rcases mem_append_data.mp hline with hold | ⟨-, rfl⟩
    · exact h.fresh hdaily other hwindow line hold hexpired
    · have hstored := h.stored_le
      rw [getday, add_zero] at hstored
      exact hstored

variable (cal) in
theorem getday_sixty_le (archive : DayArchive ρ) :
    archive.getday cal (-60) ≤ archive.getday cal 0 :=
  cal.mono (by omega)

/-- The day changes between 900 seconds ago and now: it is the day after the stored one. -/
theorem Purges.today_eq (h : archive.Purges cal) :
    archive.getday cal 0 = archive.stored + 1 := by
  have hnext := cal.next_day archive.now
  have hmono : archive.getday cal (-900) ≤ archive.getday cal 0 := cal.mono (by omega)
  obtain ⟨hne, hyesterday⟩ := h
  rw [getday, ← sub_eq_add_neg] at hyesterday
  rw [getday, getday, ← sub_eq_add_neg, add_zero] at hmono
  rw [getday, add_zero] at hne ⊢
  omega

theorem Purges.dueDay_eq (h : archive.Purges cal) :
    archive.dueDay cal = archive.getday cal (-60) := by
  have htoday := h.today_eq
  have hle := getday_sixty_le cal archive
  have hge : archive.stored ≤ archive.getday cal (-60) := h.2 ▸ cal.mono (by omega)
  rw [dueDay]
  split
  · rename_i hstored
    exact hstored.symm
  · omega

theorem update_same (h : archive.getday cal 0 = archive.stored) :
    archive.update cal window = archive :=
  if_pos h

theorem update_late (h : archive.getday cal 0 ≠ archive.stored)
    (hlate : archive.getday cal (-900) ≠ archive.stored) :
    archive.update cal window = { archive with
      stored := archive.getday cal 0
      daily := archive.daily && decide (archive.getday cal 0 ≤ archive.stored + 1) } := by
  rw [update]
  simp only [if_neg h, if_pos hlate]

theorem update_purge (h : archive.Purges cal) :
    archive.update cal window = { archive.purge cal window with
      stored := archive.getday cal 0
      daily := archive.daily } := by
  have hdecide : decide (archive.getday cal 0 ≤ archive.stored + 1) = true :=
    decide_eq_true h.today_eq.le
  rw [update]
  simp only [if_neg h.1, if_neg (not_not_intro h.2), hdecide, Bool.and_true]

/-- What is not expired on a later day is not expired before. -/
theorem not_expired_of_le {r : ρ} {line : ArchiveLine} {today : ℤ} (hle : archive.stored ≤ today)
    (h : today - cal.day line.time ≤ window r) : ¬ archive.Expired cal window r line := by
  rw [Expired]
  omega

theorem Kept.day_le (h : archive.Kept cal window) {r : ρ} {line : ArchiveLine}
    (hline : line ∈ archive.data r) : cal.day line.time ≤ archive.getday cal 0 := by
  rw [getday, add_zero]
  exact cal.mono (h.past r line hline)

theorem Kept.filed_same (h : archive.Kept cal window)
    (hsame : archive.getday cal 0 = archive.stored) (hdaily : archive.daily) :
    archive.Filed cal window := by
  intro r hwindow line hwritten hexpired
  refine ⟨?_, fun hdata => ?_, fun ext hdated => h.dated_day r hwindow ext line hdated⟩
  · exact (h.complete hdaily r hwindow line hwritten hexpired).imp_right fun hdated => ⟨_, hdated⟩
  · exact le_antisymm (hsame ▸ h.day_le hdata) (h.fresh hdaily r hwindow line hdata hexpired)

theorem Kept.filed_late_iff (h : archive.Kept cal window) (hdaily : archive.daily) (daily : Bool) :
    ({ archive with stored := archive.getday cal 0, daily := daily } : DayArchive ρ).Filed
        cal window ↔
      ∀ r, 0 ≤ window r → ∀ line ∈ archive.data r,
        archive.getday cal 0 - cal.day line.time ≤ window r →
          cal.day line.time = archive.getday cal 0 := by
  constructor
  · intro hfiled r hwindow line hdata hfresh
    exact (hfiled r hwindow line (h.data_written r line hdata) (not_lt.mpr hfresh)).2.1 hdata
  · intro hdays r hwindow line hwritten hexpired
    have hfresh : archive.getday cal 0 - cal.day line.time ≤ window r := not_lt.mp hexpired
    have hbefore := not_expired_of_le h.stored_le hfresh
    refine ⟨?_, fun hdata => hdays r hwindow line hdata hfresh,
      fun ext hdated => h.dated_day r hwindow ext line hdated⟩
    exact (h.complete hdaily r hwindow line hwritten hbefore).imp_right fun hdated => ⟨_, hdated⟩

/-- A line of a dated file after the purge. -/
theorem mem_dated_purge {r : ρ} (hwindow : 0 ≤ window r) {ext : ℤ} {line : ArchiveLine} :
    line ∈ (archive.purge cal window).dated r ext ↔
      if ext = archive.getday cal (-60) ∧ archive.data r ≠ [] then line ∈ archive.data r
      else archive.getday cal (-60) - ext ≤ window r ∧ line ∈ archive.dated r ext := by
  have hnot : ¬ window r < 0 := not_lt.mpr hwindow
  simp only [purge, if_neg hnot]
  split
  · exact Iff.rfl
  · split
    · rename_i hold
      exact iff_of_false List.not_mem_nil fun hkept => not_lt.mpr hkept.1 hold
    · rename_i hold
      exact (and_iff_right (not_lt.mp hold)).symm

variable (cal) in
theorem not_mem_data_purge {r : ρ} (hwindow : 0 ≤ window r) (line : ArchiveLine) :
    line ∉ (archive.purge cal window).data r := by
  have hempty : (archive.purge cal window).data r = [] := if_neg (not_lt.mpr hwindow)
  rw [hempty]
  exact List.not_mem_nil

/-- A line of `data` is in the file that it becomes. -/
theorem mem_dated_of_mem_data {r : ρ} (hwindow : 0 ≤ window r) {line : ArchiveLine}
    (hdata : line ∈ archive.data r) :
    line ∈ (archive.purge cal window).dated r (archive.getday cal (-60)) := by
  rw [mem_dated_purge hwindow, if_pos ⟨rfl, List.ne_nil_of_mem hdata⟩]
  exact hdata

/-- The purge writes nothing new. -/
theorem mem_of_mem_dated_purge {r : ρ} {ext : ℤ} {line : ArchiveLine}
    (hline : line ∈ (archive.purge cal window).dated r ext) :
    line ∈ archive.data r ∨ line ∈ archive.dated r ext := by
  simp only [purge] at hline
  split at hline
  · exact Or.inr hline
  · split at hline
    · exact Or.inl hline
    · split at hline
      · exact absurd hline List.not_mem_nil
      · exact Or.inr hline

variable (cal) in
theorem mem_of_mem_data_purge {r : ρ} {line : ArchiveLine}
    (hline : line ∈ (archive.purge cal window).data r) : line ∈ archive.data r := by
  simp only [purge] at hline
  split at hline
  · exact hline
  · exact absurd hline List.not_mem_nil

/-- When `data` has lines of one day only, every dated file has. -/
theorem Kept.dated_day_purge (h : archive.Kept cal window) {r : ρ} (hwindow : 0 ≤ window r)
    (hdays : ∀ line ∈ archive.data r, cal.day line.time = archive.getday cal (-60)) {ext : ℤ}
    {line : ArchiveLine} (hline : line ∈ (archive.purge cal window).dated r ext) :
    cal.day line.time = ext := by
  have hold := (mem_dated_purge hwindow).mp hline
  split at hold
  · rename_i hnew
    exact (hdays line hold).trans hnew.1.symm
  · exact h.dated_day r hwindow ext line hold.2

theorem Kept.filed_purge_iff (h : archive.Kept cal window) (hdaily : archive.daily) (daily : Bool)
    (hdays : ∀ r, 0 ≤ window r → ∀ line ∈ archive.data r,
      cal.day line.time = archive.getday cal (-60)) :
    ({ archive.purge cal window with stored := archive.getday cal 0, daily := daily } :
        DayArchive ρ).Filed cal window ↔
      ∀ r, 0 ≤ window r → archive.data r ≠ [] →
        ∀ line ∈ archive.dated r (archive.getday cal (-60)),
          archive.getday cal 0 - cal.day line.time ≤ window r → line ∈ archive.data r := by
  have hsixty := getday_sixty_le cal archive
  constructor
  · intro hfiled r hwindow hdata line hdated hfresh
    have hline := (hfiled r hwindow line (h.dated_written r _ line hdated)
      (not_lt.mpr hfresh)).1
    rcases hline with hempty | ⟨ext, hext⟩
    · exact absurd hempty (not_mem_data_purge cal hwindow line)
    · rw [mem_dated_purge hwindow] at hext
      split at hext
      · exact hext
      · rename_i hother
        have hday := h.dated_day r hwindow _ line hdated
        have hsame := h.dated_day r hwindow _ line hext.2
        exact absurd ⟨hsame.symm.trans hday, hdata⟩ hother
  · intro hkept r hwindow line hwritten hexpired
    have hfresh : archive.getday cal 0 - cal.day line.time ≤ window r := not_lt.mp hexpired
    have hbefore := not_expired_of_le h.stored_le hfresh
    refine ⟨Or.inr ?_, fun hempty => absurd hempty (not_mem_data_purge cal hwindow line),
      fun ext hext => h.dated_day_purge hwindow (hdays r hwindow) hext⟩
    rcases h.complete hdaily r hwindow line hwritten hbefore with hdata | hdated
    · exact ⟨_, mem_dated_of_mem_data hwindow hdata⟩
    · by_cases hover : cal.day line.time = archive.getday cal (-60) ∧ archive.data r ≠ []
      · have hdata := hkept r hwindow hover.2 line (hover.1 ▸ hdated) hfresh
        exact ⟨_, mem_dated_of_mem_data hwindow hdata⟩
      · refine ⟨cal.day line.time, (mem_dated_purge hwindow).mpr ?_⟩
        have hkeep : archive.getday cal (-60) - cal.day line.time ≤ window r := by omega
        rw [if_neg hover]
        exact ⟨hkeep, hdated⟩

/-! ## Runs -/

theorem Kept.renamesRight_iff (h : archive.Kept cal window) (hpurges : archive.Purges cal) :
    archive.RenamesRight cal window ↔ ∀ r, 0 ≤ window r → ∀ line ∈ archive.data r,
      cal.day line.time = archive.getday cal (-60) := by
  constructor
  · intro hright r hwindow line hdata
    exact (hright hpurges r hwindow line).1 hdata
  · intro hdays _ r hwindow line
    exact ⟨hdays r hwindow line, fun _ hdated => h.dated_day r hwindow _ line hdated⟩

/-- A trigger does right exactly when it is timely. -/
theorem Kept.right_trigger_iff (h : archive.Kept cal window) :
    archive.Right cal window .trigger ↔ archive.Timely cal window .trigger := by
  rw [Right, Timely]
  by_cases hsame : archive.getday cal 0 = archive.stored
  · refine iff_of_true ⟨fun hpurges => absurd hsame hpurges.1, ?_⟩ fun hne => absurd hsame hne
    rw [update_same hsame]
    exact h.filed_same hsame
  · by_cases hlate : archive.getday cal (-900) = archive.stored
    · have hpurges : archive.Purges cal := ⟨hsame, hlate⟩
      rw [h.renamesRight_iff hpurges, update_purge hpurges]
      simp only [ReadyToPurge, hpurges.dueDay_eq, hsame, hlate, ne_eq, not_false_eq_true,
        not_true_eq_false, false_implies, forall_const, and_true]
      constructor
      · rintro ⟨hdays, hfiled⟩ r hwindow
        exact ⟨hdays r hwindow, fun hdaily =>
          (h.filed_purge_iff hdaily _ hdays).mp (hfiled hdaily) r hwindow⟩
      · intro hready
        have hdays := fun r hwindow => (hready r hwindow).1
        exact ⟨hdays, fun hdaily => (h.filed_purge_iff hdaily _ hdays).mpr
          fun r hwindow => (hready r hwindow).2 hdaily⟩
    · have hno : archive.RenamesRight cal window := fun hpurges => absurd hpurges.2 hlate
      rw [and_iff_right hno, update_late hsame hlate]
      simp only [ReadyToKeep, hsame, hlate, ne_eq, not_false_eq_true, false_implies,
        forall_const, true_and, Bool.and_eq_true, decide_eq_true_eq, and_imp]
      constructor
      · intro hfiled r hwindow hdaily hnext
        exact (h.filed_late_iff hdaily _).mp (hfiled hdaily hnext) r hwindow
      · intro hready hdaily hnext
        exact (h.filed_late_iff hdaily _).mpr fun r hwindow => hready r hwindow hdaily hnext

theorem Filed.complete (h : archive.Filed cal window) {r : ρ} (hwindow : 0 ≤ window r)
    {line : ArchiveLine} (hwritten : (r, line) ∈ archive.written)
    (hexpired : ¬ archive.Expired cal window r line) :
    line ∈ archive.data r ∨ line ∈ archive.dated r (cal.day line.time) := by
  obtain ⟨hplace, -, hdated⟩ := h r hwindow line hwritten hexpired
  exact hplace.imp_right fun ⟨ext, hext⟩ => (hdated ext hext) ▸ hext

theorem Filed.fresh (h : archive.Filed cal window) {r : ρ} (hwindow : 0 ≤ window r)
    {line : ArchiveLine} (hwritten : (r, line) ∈ archive.written)
    (hexpired : ¬ archive.Expired cal window r line) (hdata : line ∈ archive.data r) :
    archive.stored ≤ cal.day line.time :=
  ((h r hwindow line hwritten hexpired).2.1 hdata).ge

/-- A trigger that does right keeps what holds. -/
theorem Kept.trigger (h : archive.Kept cal window) (hright : archive.Right cal window .trigger) :
    (archive.update cal window).Kept cal window := by
  have hfiled := hright.2
  by_cases hsame : archive.getday cal 0 = archive.stored
  · rw [update_same hsame]
    exact h
  · by_cases hlate : archive.getday cal (-900) = archive.stored
    · have hpurges : archive.Purges cal := ⟨hsame, hlate⟩
      have hdays := (h.renamesRight_iff hpurges).mp hright.1
      rw [update_purge hpurges] at hfiled ⊢
      exact
        { stored_le := le_refl _
          past := fun r line hline => h.past r line (mem_of_mem_data_purge cal hline)
          data_written := fun r line hline =>
            h.data_written r line (mem_of_mem_data_purge cal hline)
          dated_written := fun r ext line hline => (mem_of_mem_dated_purge hline).elim
            (h.data_written r line) (h.dated_written r ext line)
          dated_day := fun r hwindow ext line hline =>
            h.dated_day_purge hwindow (hdays r hwindow) hline
          complete := fun hdaily r hwindow line => (hfiled hdaily).complete hwindow
          fresh := fun hdaily r hwindow line hline hexpired => (hfiled hdaily).fresh hwindow
            (h.data_written r line (mem_of_mem_data_purge cal hline)) hexpired hline }
    · rw [update_late hsame hlate] at hfiled ⊢
      exact
        { stored_le := le_refl _
          past := h.past
          data_written := h.data_written
          dated_written := h.dated_written
          dated_day := h.dated_day
          complete := fun hdaily r hwindow line => (hfiled hdaily).complete hwindow
          fresh := fun hdaily r hwindow line hline hexpired => (hfiled hdaily).fresh hwindow
            (h.data_written r line hline) hexpired hline }

end Kept

/-- In every run the triggers rename right and leave every line in the file of its date
exactly when they are all timely. -/
theorem right_iff_timely [DecidableEq ρ] (now : ℤ) (events : List (ArchiveEvent ρ)) :
    Machine.Along (Machine.total (step cal window)) (Right cal window) (install cal now) events ↔
      Machine.Along (Machine.total (step cal window)) (Timely cal window) (install cal now)
        events := by
  have hiff : ∀ (archive : DayArchive ρ) (event : ArchiveEvent ρ), archive.Kept cal window →
      (archive.Right cal window event ↔ archive.Timely cal window event) := by
    intro archive event h
    cases event with
    | tick seconds => exact Iff.rfl
    | write r text => exact Iff.rfl
    | trigger => exact h.right_trigger_iff
  refine Machine.along_iff_of_guarded hiff ?_ events (kept_install cal window now)
  intro archive event next h htimely hnext
  cases hnext
  cases event with
  | tick seconds => exact h.tick seconds
  | write r text => exact h.append r text
  | trigger => exact h.trigger ((hiff archive .trigger h).mpr htimely)

/-- Days of 86400 seconds. -/
def utc : Calendar where
  day time := time / 86400
  mono := fun hle => Int.ediv_le_ediv (by decide) hle
  next_day := fun time => by omega

/-- A line written at noon and the first trigger of the next day five minutes after midnight:
the file is named after the new day. -/
theorem not_right_fiveMinutes :
    ¬ Machine.Along (Machine.total (step utc fun _ : Unit => 30)) (Right utc fun _ => 30)
      (install utc 43200) [.write () "on", .tick 43500, .trigger] := by
  intro hright
  have hrename := (hright.2 _ rfl).2 _ rfl
  have hline := (hrename.1.1 (by unfold Purges; decide) () (by decide) ⟨43200, "on"⟩).1
  exact absurd (hline (by decide)) (by decide)

end DayArchive

end Hat
