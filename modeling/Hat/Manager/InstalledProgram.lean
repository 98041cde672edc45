import Hat.Core.Machine
import Hat.Manager.ProgramEngine

/-!
# Runs under an installed program

The programs that `install` writes for ON, MANUAL and AUTO are active from midnight
to one minute before midnight.  This module determines the runs in which such a
program stays armed.
-/

namespace Hat

open Hat.Hsrv

namespace Program

/-- A program with the content that `install` writes for ON, MANUAL and AUTO. -/
def installed (name : String) : Program where
  current := name
  doc := some (readDays "*" [
    { month := none
      day := none
      weekday := none
      periods := [⟨some "00:00:00", some "23:59:00", [some "ALL"]⟩] }])

/-- In a map with one key the lookup of several keys finds its value. -/
theorem findSome?_of_only {days : SortedMap String DayProgram} {key : String} {day : DayProgram}
    (honly : ∀ other, days.find? other = if key = other then some day else none)
    {keys : List String} (hkey : key ∈ keys) : keys.findSome? days.find? = some day := by
  induction keys with
  | nil => exact absurd hkey List.not_mem_nil
  | cons head rest ih =>
      rw [List.findSome?_cons, honly]
      by_cases hhead : key = head
      · rw [if_pos hhead]
      · rw [if_neg hhead]
        exact ih ((List.mem_cons.mp hkey).resolve_left hhead)

theorem getDay_installed (name : String) (tm : Tm) :
    (installed name).getDay (mkaccesskey tm) = some [⟨"00:00:00", "23:59:00", ["ALL"]⟩] := by
  rw [getDay, installed, Option.bind_some]
  refine findSome?_of_only ?_ (?_ : "*_*_*_*" ∈ mkaccesskey tm)
  · intro other
    rw [readDays, List.foldl_cons, List.foldl_nil, SortedMap.find?_insert, SortedMap.find?_empty]
    rfl
  · simp [mkaccesskey]

/-- An installed program is active except in the last minute of the day. -/
theorem isActive_installed (name : String) (env : Env) :
    (installed name).isActive env =
      if daysecond env.localtime ≤ 86340 then some ["ALL"] else none := by
  have hfrom : string2second "00:00:00" = 0 := by decide +kernel
  have hto : string2second "23:59:00" = 86340 := by decide +kernel
  have hnonneg := daysecond_nonneg env.localtime
  rw [isActive, getDay_installed, Option.bind_some, DayProgram.isActive, List.findSome?_cons,
    Period.isActive, hfrom, hto]
  by_cases hlate : daysecond env.localtime ≤ 86340
  · simp [hnonneg, hlate]
  · simp [hlate]

end Program

namespace ProgramEngine

/-- The program stays armed: the active list is not empty, and neither is one that
is notified. -/
def StaysArmed (engine : ProgramEngine) (turn : Turn) : Prop :=
  (engine.next turn).active ≠ [] ∧
    ∀ message ∈ engine.notified turn, message.getList "active" ≠ []

/-- A trigger of the time update does not fall in the last minute of the day. -/
def BeforeLastMinute (turn : Turn) : Prop :=
  IsPrgupdate turn.2 → daysecond turn.1.localtime ≤ 86340

/-- An installed program is in force and its active list is not empty. -/
structure InstalledArmed (name : String) (engine : ProgramEngine) : Prop where
  program : engine.program = Program.installed name
  active : engine.active ≠ []

theorem active_of_core {engine other : ProgramEngine} (h : engine.core = other.core) :
    engine.active = other.active :=
  (Prod.mk.inj (Prod.mk.inj h).2).2

theorem program_of_core {engine other : ProgramEngine} (h : engine.core = other.core) :
    engine.program = other.program :=
  (Prod.mk.inj h).1

theorem InstalledArmed.refreshed {name : String} {engine : ProgramEngine}
    (h : InstalledArmed name engine) (env : Env) :
    engine.refreshed env false =
      if daysecond env.localtime ≤ 86340 then
        if ["ALL"] ≠ engine.active then some ["ALL"] else none
      else some [] := by
  have hpos : 0 < engine.active.length := List.length_pos_iff.mpr h.active
  rw [ProgramEngine.refreshed, h.program, Program.isActive_installed]
  by_cases hlate : daysecond env.localtime ≤ 86340
  · simp [hlate]
  · simp [hlate, hpos]

theorem InstalledArmed.staysArmed_turn {name : String} {engine : ProgramEngine}
    (h : InstalledArmed name engine) {turn : Turn} (hkept : ¬IsSetprogram turn.2) :
    engine.StaysArmed turn ↔ BeforeLastMinute turn := by
  by_cases hupdate : IsPrgupdate turn.2
  · obtain ⟨hnotified, hcore⟩ := notified_of_prgupdate hupdate engine
    have hrefreshed := h.refreshed turn.1
    simp only [StaysArmed, BeforeLastMinute, hnotified, active_of_core hcore, hupdate,
      true_implies]
    by_cases hlate : daysecond turn.1.localtime ≤ 86340
    · simp only [hlate, iff_true]
      rw [if_pos hlate] at hrefreshed
      split at hrefreshed
      · obtain ⟨hmessages, _, hactive, _⟩ := programNotify_of_refreshed hrefreshed
        rw [hmessages, hactive]
        refine ⟨List.cons_ne_nil _ _, fun message hmessage => ?_⟩
        rw [List.mem_singleton.mp hmessage, getList_active_prgstatus]
        exact List.cons_ne_nil _ _
      · rw [programNotify_of_not_refreshed hrefreshed]
        exact ⟨h.active, fun message hmessage => absurd hmessage List.not_mem_nil⟩
    · simp only [hlate, iff_false, not_and]
      rw [if_neg hlate] at hrefreshed
      intro hactive
      rw [(programNotify_of_refreshed hrefreshed).2.2.1] at hactive
      exact absurd rfl hactive
  · obtain ⟨hnotified, hcore⟩ := notified_of_other hupdate hkept engine
    have hearly : BeforeLastMinute turn := fun hnow => absurd hnow hupdate
    simp only [StaysArmed, hnotified, active_of_core hcore, hearly, iff_true]
    exact ⟨h.active, fun message hmessage => absurd hmessage List.not_mem_nil⟩

theorem InstalledArmed.next {name : String} {engine : ProgramEngine}
    (h : InstalledArmed name engine) {turn : Turn} (hkept : ¬IsSetprogram turn.2)
    (hearly : BeforeLastMinute turn) : InstalledArmed name (engine.next turn) := by
  refine ⟨?_, ((h.staysArmed_turn hkept).mpr hearly).1⟩
  by_cases hupdate : IsPrgupdate turn.2
  · rw [program_of_core (notified_of_prgupdate hupdate engine).2, program_programNotify]
    exact h.program
  · rw [program_of_core (notified_of_other hupdate hkept engine).2]
    exact h.program

/-- The first notification under an installed program. -/
theorem refreshed_start {name : String} (hname : name ∈ ["ON", "MANUAL", "AUTO"])
    {engine : ProgramEngine} (hprogram : engine.program = Program.installed name)
    (hprevious : engine.previousProgram = "") (env : Env) :
    engine.refreshed env true =
      some (if daysecond env.localtime ≤ 86340 then ["ALL"] else []) := by
  have hoff : isOffName name = false ∧ "" ≠ name := by
    simp only [List.mem_cons, List.not_mem_nil, or_false] at hname
    rcases hname with rfl | rfl | rfl <;> decide
  have hcurrent : engine.program.current = name := by rw [hprogram, Program.installed]
  rw [ProgramEngine.refreshed, hcurrent, hprogram, Program.isActive_installed, hprevious]
  rw [if_neg (by simp [hoff.1]), if_pos ⟨rfl, hoff.2⟩]
  split <;> rfl

/-- In a run under one of the programs that `install` writes, without commands to
change it, the program stays armed exactly when neither the start nor any trigger of
the time update falls in the last minute of the day. -/
theorem staysArmed_iff {name startprg : String} {home : HomeDir}
    (hname : name ∈ ["ON", "MANUAL", "AUTO"])
    (hprogram : (new startprg home).program = Program.installed name) (env : Env)
    {turns : List Turn} (hkept : ∀ turn ∈ turns, ¬IsSetprogram turn.2) :
    (((new startprg home).start env).1.active ≠ [] ∧
      (∀ message ∈ ((new startprg home).start env).2.notified,
        message.getList "active" ≠ []) ∧
      Machine.Along (Machine.total next) StaysArmed ((new startprg home).start env).1 turns) ↔
    daysecond env.localtime ≤ 86340 ∧ ∀ turn ∈ turns, BeforeLastMinute turn := by
  have hrefreshed := refreshed_start hname hprogram rfl env
  obtain ⟨hnotified, hcore⟩ := start_eq env (new startprg home)
  obtain ⟨hmessages, _, hactive, _⟩ := programNotify_of_refreshed hrefreshed
  have hstart : ((new startprg home).start env).1.active =
      if daysecond env.localtime ≤ 86340 then ["ALL"] else [] := by
    rw [active_of_core hcore, hactive]
  have hsent : (∀ message ∈ ((new startprg home).start env).2.notified,
      message.getList "active" ≠ []) ↔
        (if daysecond env.localtime ≤ 86340 then ["ALL"] else ([] : List String)) ≠ [] := by
    rw [hnotified, hmessages]
    simp only [List.mem_singleton, forall_eq, getList_active_prgstatus]
  have hinstalled : ((new startprg home).start env).1.program = Program.installed name := by
    rw [program_of_core hcore, program_programNotify, hprogram]
  rw [hsent, hstart]
  by_cases hlate : daysecond env.localtime ≤ 86340
  · simp only [hlate, if_true, ne_eq, List.cons_ne_nil, not_false_eq_true, true_and]
    rw [if_pos hlate] at hstart
    have harmed : InstalledArmed name ((new startprg home).start env).1 :=
      ⟨hinstalled, by rw [hstart]; exact List.cons_ne_nil _ _⟩
    generalize ((new startprg home).start env).1 = engine at harmed
    clear hstart hinstalled hsent hnotified hcore hmessages hactive hrefreshed
    induction turns generalizing engine with
    | nil => simp [Machine.Along]
    | cons turn rest ih =>
        have hturn := hkept turn List.mem_cons_self
        have hrest : ∀ other ∈ rest, ¬IsSetprogram other.2 :=
          fun other hother => hkept other (List.mem_cons_of_mem turn hother)
        rw [List.forall_mem_cons, Machine.Along, harmed.staysArmed_turn hturn]
        apply and_congr_right
        intro hearly
        refine Iff.trans ?_ (ih hrest (engine.next turn) (harmed.next hturn hearly))
        simp only [Machine.total, Option.some.injEq, forall_eq']
  · simp [hlate]

/-- A home directory before the first start. -/
def emptyHome : HomeDir := ⟨[], none, none, none⟩

/-- Half a minute past a full minute, on a day that does not matter. -/
def atTime (hour min : ℕ) (hour_lt : hour < 24) (min_lt : min < 60) : Env where
  gettime := 0
  gettime_nonneg := le_refl 0
  localtime := ⟨30, min, hour, 1, 1, 1970, 4, Nat.le_add_left 30 30, min_lt, hour_lt⟩
  unsetInt := 0
  unsetDouble := 0

def noonHalf : Env := atTime 12 0 (Nat.lt_add_left 11 (Nat.lt_add_one 12)) (Nat.zero_lt_succ 59)

def lastMinute : Env := atTime 23 59 (Nat.lt_add_one 23) (Nat.lt_add_one 59)

def prgupdate : MMessage := MMessage.mk2 "trigger" "prgupdate"

theorem new_on : (new "ON" emptyHome).program = Program.installed "ON" := by
  decide +kernel

theorem staysArmed_noon :
    ((new "ON" emptyHome).start noonHalf).1.active ≠ [] ∧
      (∀ message ∈ ((new "ON" emptyHome).start noonHalf).2.notified,
        message.getList "active" ≠ []) ∧
      Machine.Along (Machine.total next) StaysArmed ((new "ON" emptyHome).start noonHalf).1
        [(noonHalf, prgupdate)] := by
  apply (staysArmed_iff (by decide) new_on noonHalf ?_).mpr
  · refine ⟨by decide, fun turn hturn _ => ?_⟩
    rw [List.mem_singleton.mp hturn]
    decide
  · intro turn hturn
    rw [List.mem_singleton.mp hturn]
    exact fun h => absurd h.1 (by decide)

/-- Half a minute before midnight the program ON is disarmed. -/
theorem not_staysArmed_lastMinute :
    ¬(((new "ON" emptyHome).start noonHalf).1.active ≠ [] ∧
      (∀ message ∈ ((new "ON" emptyHome).start noonHalf).2.notified,
        message.getList "active" ≠ []) ∧
      Machine.Along (Machine.total next) StaysArmed ((new "ON" emptyHome).start noonHalf).1
        [(lastMinute, prgupdate)]) := by
  rintro ⟨_, _, hrun⟩
  exact hrun.1.1 (by decide +kernel)

end ProgramEngine

end Hat
