import Hat.Core.Countdown
import Hat.Minilibs.MMessage
import Mathlib.Algebra.Order.Floor.Semifield
import Mathlib.Data.List.Nodup
import Mathlib.Data.Rat.Floor

/-!
# The trigger thread

A thread lowers the remaining time of every trigger at each tick and executes those that
have run out.  The tick is computed from the periods in tenths of a second, but as a
whole number of seconds, and `check_rpc_timeout` is not started anew.  The module
determines the tables for which every trigger is executed once in each of its periods.
-/

namespace Hat

open Hat.Hsrv

structure Trigger where
  /-- The values of the attributes of category `trigger`, one for each name. -/
  periods : SortedMap String String
  /-- The table of pending calls is there. -/
  rpctab : Bool

namespace Trigger

def tprecision : ℤ := 10

/-- A remainder by zero is not defined. -/
def euclide (a b : ℤ) : Option ℤ :=
  if _hb : b = 0 then none
  else if a.tmod b = 0 then some b
  else euclide b (a.tmod b)
termination_by b.natAbs
decreasing_by
  rw [Int.natAbs_tmod]
  exact Nat.mod_lt _ (Int.natAbs_pos.mpr ‹_›)

/-- The remaining times at the start. -/
def initSubject (env : Env) (trigger : Trigger) : SortedMap String ℚ :=
  trigger.periods.filterMapValues fun v => some (a2double env v)

/-- A period in tenths of a second. -/
def scaled (second : ℚ) : ℤ := toLong (second * tprecision)

def mcd (tm : SortedMap String ℚ) : Option ℤ :=
  match tm.entries with
  | [] => none
  | first :: rest =>
      (first :: rest).foldlM (fun mcd entry => euclide mcd (scaled entry.2)) (scaled first.2)

/-- The division of the two integers drops the fraction. -/
def cycle (mcd : ℤ) : ℚ := (mcd.tdiv tprecision : ℤ)

/-- What a trigger that has run out does. -/
inductive Execution
  | checkTimeOut
  | notify (event : MMessage)

/-- One trigger in the loop over the table: what is left, and what is executed. -/
def visit (env : Env) (trigger : Trigger) (cycle : ℚ) (name : String) (second : ℚ) :
    ℚ × Option Execution :=
  if Countdown.RunsOut cycle second then
    if name = "check_rpc_timeout" ∧ trigger.rpctab then (second - cycle, some .checkTimeOut)
    else
      let v := (trigger.periods.find? name).getD ""
      (a2double env v, some (.notify
        (((MMessage.mk2 "trigger" name).add "time" (double2a env.gettime)).add "period" v)))
  else (second - cycle, none)

/-- One pass of the loop over the table. -/
def tick (env : Env) (trigger : Trigger) (cycle : ℚ) (tm : SortedMap String ℚ) :
    SortedMap String ℚ × List (String × Execution) :=
  (tm.mapValues fun name second => (visit env trigger cycle name second).1,
    tm.entries.filterMap fun entry =>
      (visit env trigger cycle entry.1 entry.2).2.map fun execution => (entry.1, execution))

/-- The executions of a run that sees the given clock readings, one for each tick. -/
def run (trigger : Trigger) (cycle : ℚ) : SortedMap String ℚ → List Env →
    List (String × Execution)
  | _, [] => []
  | tm, env :: rest =>
      let passed := tick env trigger cycle tm
      passed.2 ++ run trigger cycle passed.1 rest

def executions (name : String) (log : List (String × Execution)) : ℕ :=
  (log.map Prod.fst).count name

/-- A positive common divisor that every common divisor divides. -/
structure Greatest (g a b : ℤ) : Prop where
  pos : 0 < g
  left : g ∣ a
  right : g ∣ b
  greatest : ∀ d, d ∣ a → d ∣ b → d ∣ g

theorem euclide_greatest {a b : ℤ} (ha : 0 < a) (hb : 0 < b) :
    ∃ g, euclide a b = some g ∧ Greatest g a b := by
  fun_induction euclide a b with
  | case1 a => exact absurd hb (lt_irrefl 0)
  | case2 a b _ hzero =>
      rw [Int.tmod_eq_emod_of_nonneg ha.le] at hzero
      exact ⟨b, rfl, hb, Int.dvd_of_emod_eq_zero hzero, dvd_refl b, fun _ _ hd => hd⟩
  | case3 a b hne hrest ih =>
      rw [Int.tmod_eq_emod_of_nonneg ha.le] at hrest ih ⊢
      have hpos : 0 < a % b := lt_of_le_of_ne (Int.emod_nonneg a hne) (Ne.symm hrest)
      obtain ⟨g, hg, hgreatest⟩ := ih hb hpos
      have hdvd : ∀ d, d ∣ b → (d ∣ a % b ↔ d ∣ a) := by
        intro d hd
        calc d ∣ a % b ↔ d ∣ a % b + b * (a / b) := (dvd_add_left (hd.mul_right _)).symm
          _ ↔ d ∣ a := by rw [Int.emod_add_mul_ediv]
      refine ⟨g, hg, hgreatest.pos, (hdvd g hgreatest.left).mp hgreatest.right, hgreatest.left, ?_⟩
      intro d hda hdb
      exact hgreatest.greatest d hdb ((hdvd d hdb).mpr hda)

/-- The loop over the table divides by no zero and computes the greatest common divisor
of what it starts from and all periods. -/
theorem foldlM_euclide {entries : List (String × ℚ)}
    (hentries : ∀ entry ∈ entries, 0 < scaled entry.2) {start : ℤ} (hstart : 0 < start) :
    ∃ g, entries.foldlM (fun mcd entry => euclide mcd (scaled entry.2)) start = some g ∧
      0 < g ∧ g ∣ start ∧ (∀ entry ∈ entries, g ∣ scaled entry.2) ∧
      ∀ d, d ∣ start → (∀ entry ∈ entries, d ∣ scaled entry.2) → d ∣ g := by
  induction entries generalizing start with
  | nil =>
      exact ⟨start, rfl, hstart, dvd_refl start, fun _ hmem => absurd hmem List.not_mem_nil,
        fun _ hd _ => hd⟩
  | cons entry rest ih =>
      obtain ⟨hentry, hrest⟩ := List.forall_mem_cons.mp hentries
      obtain ⟨next, hnext, hgreatest⟩ := euclide_greatest hstart hentry
      obtain ⟨g, hg, hpos, hdvd, hall, hmax⟩ := ih hrest hgreatest.pos
      refine ⟨g, ?_, hpos, hdvd.trans hgreatest.left, ?_, ?_⟩
      · rw [List.foldlM_cons, hnext]
        exact hg
      · exact List.forall_mem_cons.mpr ⟨hdvd.trans hgreatest.right, hall⟩
      · intro d hd hentriesDvd
        obtain ⟨hdentry, hdrest⟩ := List.forall_mem_cons.mp hentriesDvd
        exact hmax d (hgreatest.greatest d hd hdentry) hdrest

/-- The period of a trigger, as it is written in the table. -/
def HasPeriod (trigger : Trigger) (name : String) (period : ℚ) : Prop :=
  ∃ v, trigger.periods.find? name = some v ∧ scanDouble v.toList = some period

/-- Every period is a positive multiple of a tenth of a second. -/
def Decimal (trigger : Trigger) : Prop :=
  ∀ name v, trigger.periods.find? name = some v →
    ∃ tenths : ℕ, 0 < tenths ∧ scanDouble v.toList = some ((tenths : ℚ) / 10)

theorem find?_initSubject (env : Env) (trigger : Trigger) (name : String) :
    (trigger.initSubject env).find? name = (trigger.periods.find? name).map (a2double env) := by
  rw [initSubject, SortedMap.find?_filterMapValues]
  cases trigger.periods.find? name <;> rfl

theorem HasPeriod.find? {trigger : Trigger} {name : String} {period : ℚ}
    (h : trigger.HasPeriod name period) (env : Env) :
    (trigger.initSubject env).find? name = some period := by
  obtain ⟨v, hv, hscan⟩ := h
  rw [find?_initSubject, hv, Option.map_some, a2double, hscan, Option.getD_some]

theorem Decimal.hasPeriod_iff {trigger : Trigger} (h : trigger.Decimal) (env : Env)
    (name : String) (period : ℚ) :
    (trigger.initSubject env).find? name = some period ↔ trigger.HasPeriod name period := by
  refine ⟨fun hfind => ?_, fun hperiod => hperiod.find? env⟩
  rw [find?_initSubject, Option.map_eq_some_iff] at hfind
  obtain ⟨v, hv, hread⟩ := hfind
  obtain ⟨tenths, -, hscan⟩ := h name v hv
  rw [a2double, hscan, Option.getD_some] at hread
  exact ⟨v, hv, by rw [hscan, hread]⟩

theorem scaled_tenths (tenths : ℕ) : scaled (tenths / 10) = tenths := by
  have hmul : (tenths / 10 : ℚ) * (tprecision : ℤ) = (tenths : ℤ) := by
    simp [tprecision]
  have hnonneg : (0 : ℚ) ≤ ((tenths : ℤ) : ℚ) := Int.cast_nonneg (Int.natCast_nonneg tenths)
  rw [scaled, hmul, toLong, if_pos hnonneg, Int.floor_intCast]

theorem Decimal.eq_scaled {trigger : Trigger} (h : trigger.Decimal) {name : String} {period : ℚ}
    (hperiod : trigger.HasPeriod name period) :
    0 < scaled period ∧ period = scaled period / 10 := by
  obtain ⟨v, hv, hscan⟩ := hperiod
  obtain ⟨tenths, hpos, htenths⟩ := h name v hv
  rw [hscan, Option.some.injEq] at htenths
  rw [htenths, scaled_tenths]
  exact ⟨Int.natCast_pos.mpr hpos, by rw [Int.cast_natCast]⟩

/-- The number computed from the table is the greatest common divisor of the periods in
tenths of a second. -/
theorem Decimal.exists_mcd {trigger : Trigger} (h : trigger.Decimal) {first : String}
    (hfirst : trigger.periods.contains first) (env : Env) :
    ∃ g, mcd (trigger.initSubject env) = some g ∧ 0 < g ∧
      (∀ name period, trigger.HasPeriod name period → g ∣ scaled period) ∧
      ∀ d, (∀ name period, trigger.HasPeriod name period → d ∣ scaled period) → d ∣ g := by
  have hmem : ∀ entry, entry ∈ (trigger.initSubject env).entries ↔
      trigger.HasPeriod entry.1 entry.2 := by
    intro entry
    rw [← h.hasPeriod_iff env, ← SortedMap.mem_entries_iff]
  have hpos : ∀ entry ∈ (trigger.initSubject env).entries, 0 < scaled entry.2 := by
    intro entry hentry
    exact (h.eq_scaled ((hmem entry).mp hentry)).1
  rw [mcd]
  cases hentries : (trigger.initSubject env).entries with
  | nil =>
      obtain ⟨v, hv⟩ := SortedMap.contains_iff.mp hfirst
      obtain ⟨tenths, -, hscan⟩ := h first v hv
      have hnone := (hmem (first, (tenths : ℚ) / 10)).mpr ⟨v, hv, hscan⟩
      rw [hentries] at hnone
      exact absurd hnone List.not_mem_nil
  | cons head rest =>
      rw [hentries] at hmem hpos
      obtain ⟨g, hg, hgpos, -, hall, hmax⟩ :=
        foldlM_euclide hpos (hpos head List.mem_cons_self)
      refine ⟨g, hg, hgpos, fun name period hperiod => ?_, fun d hd => ?_⟩
      · exact hall (name, period) ((hmem (name, period)).mpr hperiod)
      · have hdall : ∀ entry ∈ head :: rest, d ∣ scaled entry.2 := by
          intro entry hentry
          exact hd entry.1 entry.2 ((hmem entry).mp hentry)
        exact hmax d (hdall head List.mem_cons_self) hdall

/-- What is left of a trigger after one tick. -/
def next (trigger : Trigger) (cycle : ℚ) (name : String) (period left : ℚ) : ℚ :=
  if name = "check_rpc_timeout" ∧ trigger.rpctab then left - cycle
  else Countdown.tick cycle period left

theorem visit_fst (env : Env) {trigger : Trigger} {name : String} {period : ℚ}
    (hperiod : trigger.HasPeriod name period) (cycle left : ℚ) :
    (visit env trigger cycle name left).1 = next trigger cycle name period left := by
  obtain ⟨v, hv, hscan⟩ := hperiod
  have hread : a2double env v = period := by
    rw [a2double, hscan, Option.getD_some]
  simp only [visit, next, Countdown.tick, hv, Option.getD_some, hread]
  by_cases hruns : Countdown.RunsOut cycle left
  · rw [if_pos hruns, if_pos hruns]
    split <;> rfl
  · rw [if_neg hruns, if_neg hruns]
    split <;> rfl

theorem isSome_visit_snd (env : Env) (trigger : Trigger) (cycle : ℚ) (name : String) (left : ℚ) :
    (visit env trigger cycle name left).2.isSome ↔ Countdown.RunsOut cycle left := by
  rw [visit]
  split
  · rename_i hruns
    split <;> exact iff_of_true rfl hruns
  · rename_i hruns
    exact iff_of_false Bool.false_ne_true hruns

/-- One tick executes a trigger of the table once if it has run out. -/
theorem executions_tick (env : Env) (trigger : Trigger) (cycle : ℚ) {tm : SortedMap String ℚ}
    {name : String} {left : ℚ} (hfind : tm.find? name = some left) :
    executions name (tick env trigger cycle tm).2 =
      if Countdown.RunsOut cycle left then 1 else 0 := by
  have hnames : (tick env trigger cycle tm).2.map Prod.fst =
      (tm.entries.filter fun entry =>
        (visit env trigger cycle entry.1 entry.2).2.isSome).map Prod.fst := by
    simp only [tick]
    induction tm.entries with
    | nil => rfl
    | cons entry rest ih =>
        rw [List.filterMap_cons, List.filter_cons]
        cases hvisit : (visit env trigger cycle entry.1 entry.2).2 with
        | none => simpa using ih
        | some execution => simpa using ih
  have hnodup : ((tick env trigger cycle tm).2.map Prod.fst).Nodup := by
    rw [hnames]
    exact tm.nodup_keys.sublist (List.filter_sublist.map Prod.fst)
  have hmem : name ∈ (tick env trigger cycle tm).2.map Prod.fst ↔
      Countdown.RunsOut cycle left := by
    rw [hnames, List.mem_map]
    constructor
    · rintro ⟨entry, hentry, rfl⟩
      obtain ⟨hentry, hvisit⟩ := List.mem_filter.mp hentry
      have hsame := (SortedMap.mem_entries_iff tm entry.1 entry.2).mp hentry
      rw [hfind, Option.some.injEq] at hsame
      rw [hsame]
      exact (isSome_visit_snd env trigger cycle entry.1 entry.2).mp hvisit
    · intro hruns
      refine ⟨(name, left), List.mem_filter.mpr ⟨?_, ?_⟩, rfl⟩
      · exact (SortedMap.mem_entries_iff tm name left).mpr hfind
      · exact (isSome_visit_snd env trigger cycle name left).mpr hruns
  rw [executions]
  by_cases hruns : Countdown.RunsOut cycle left
  · rw [if_pos hruns, List.count_eq_one_of_mem hnodup (hmem.mpr hruns)]
  · rw [if_neg hruns, List.count_eq_zero_of_not_mem fun hin => hruns (hmem.mp hin)]

/-- Over a run, a trigger is executed as often as its own countdown runs out. -/
theorem executions_run {trigger : Trigger} {name : String} {period : ℚ}
    (hperiod : trigger.HasPeriod name period) (cycle : ℚ) (envs : List Env)
    {tm : SortedMap String ℚ} {left : ℚ} (hfind : tm.find? name = some left) :
    executions name (run trigger cycle tm envs) =
      Countdown.runs cycle (next trigger cycle name period) left envs.length := by
  induction envs generalizing tm left with
  | nil => rfl
  | cons env rest ih =>
      have hnext : (tick env trigger cycle tm).1.find? name =
          some (next trigger cycle name period left) := by
        rw [tick, SortedMap.find?_mapValues, hfind, Option.map_some, visit_fst env hperiod]
      have hfirst := executions_tick env trigger cycle hfind
      rw [executions] at hfirst
      have hrest := ih hnext
      rw [executions] at hrest
      rw [executions, run, List.map_append, List.count_append, hfirst, hrest, List.length_cons,
        Countdown.runs_succ']

/-! ## Once in every period -/

/-- The tick divides every period, and every trigger is executed once in each of its full
periods, whatever the number of ticks. -/
structure KeepsPeriods (env : Env) (trigger : Trigger) (mcd : ℤ) : Prop where
  pos : 0 < cycle mcd
  divides : ∀ name period, trigger.HasPeriod name period → ∃ k : ℕ, period = k * cycle mcd
  once : ∀ envs name period, trigger.HasPeriod name period →
    executions name (run trigger (cycle mcd) (trigger.initSubject env) envs) =
      ⌊(envs.length : ℚ) * cycle mcd / period⌋₊

def WholeSeconds (trigger : Trigger) : Prop :=
  ∀ name period, trigger.HasPeriod name period → ∃ seconds : ℕ, period = seconds

/-- Where the table of pending calls is there, the period of `check_rpc_timeout` divides
all others. -/
def TimeoutFirst (trigger : Trigger) : Prop :=
  trigger.rpctab → ∀ period, trigger.HasPeriod "check_rpc_timeout" period →
    ∀ name other, trigger.HasPeriod name other → ∃ k : ℕ, other = k * period

/-- A trigger whose period is `k` ticks is executed once in each of its periods when it is
started anew; otherwise at every tick from the first period on. -/
theorem executions_eq {env : Env} {trigger : Trigger} {name : String} {period step : ℚ}
    (hperiod : trigger.HasPeriod name period) (hstep : 0 < step) {k : ℕ} (hk : 0 < k)
    (heq : period = k * step) (envs : List Env) :
    executions name (run trigger step (trigger.initSubject env) envs) =
      if name = "check_rpc_timeout" ∧ trigger.rpctab then envs.length + 1 - k
      else envs.length / k := by
  rw [executions_run hperiod step envs (hperiod.find? env), heq]
  split
  · rename_i htimeout
    have hnext : next trigger step name (k * step) = fun left => left - step := by
      funext left
      rw [next, if_pos htimeout]
    rw [hnext, Countdown.runs_sub hstep hk]
  · rename_i htimeout
    have hnext : next trigger step name (k * step) = Countdown.tick step (k * step) := by
      funext left
      rw [next, if_neg htimeout]
    rw [hnext, Countdown.runs_tick hstep hk]

theorem floor_periods {step : ℚ} (hstep : 0 < step) (n k : ℕ) :
    ⌊(n : ℚ) * step / (k * step)⌋₊ = n / k := by
  rw [mul_div_mul_right _ _ hstep.ne', Nat.floor_div_eq_div]

theorem cycle_eq (g : ℤ) (hg : 0 < g) (hdvd : tprecision ∣ g) : cycle g = g / 10 := by
  obtain ⟨c, rfl⟩ := hdvd
  rw [cycle, Int.mul_tdiv_cancel_left c (by decide)]
  simp [tprecision]

/-- A divisor of all periods in tenths of a second that is one of them is the greatest. -/
theorem Decimal.scaled_dvd {trigger : Trigger} (h : trigger.Decimal) {name other : String}
    {period p : ℚ} (hperiod : trigger.HasPeriod name period) (hp : trigger.HasPeriod other p)
    {k : ℕ} (heq : p = k * period) : scaled period ∣ scaled p := by
  have hcast : (scaled p : ℚ) = k * scaled period := by
    rw [(h.eq_scaled hp).2, (h.eq_scaled hperiod).2] at heq
    linarith
  refine ⟨k, ?_⟩
  rw [mul_comm]
  exact_mod_cast hcast

section

variable {env : Env} {trigger : Trigger} {g : ℤ}

theorem KeepsPeriods.wholeSeconds (h : KeepsPeriods env trigger g) : trigger.WholeSeconds := by
  intro name period hperiod
  obtain ⟨k, hk⟩ := h.divides name period hperiod
  have hseconds : 0 ≤ g.tdiv tprecision := by
    have hpos := h.pos
    rw [cycle] at hpos
    exact (Int.cast_pos.mp hpos).le
  obtain ⟨seconds, hcast⟩ := Int.eq_ofNat_of_zero_le hseconds
  refine ⟨k * seconds, ?_⟩
  rw [hk, cycle, hcast]
  push_cast
  rfl

/-- With a period of `k` ticks, `k` at least two, `check_rpc_timeout` is executed twice by
the tick that follows its first period. -/
theorem KeepsPeriods.timeoutFirst (h : KeepsPeriods env trigger g) (hdecimal : trigger.Decimal) :
    trigger.TimeoutFirst := by
  intro hrpctab period hperiod name other hother
  obtain ⟨k, hk⟩ := h.divides "check_rpc_timeout" period hperiod
  obtain ⟨j, hj⟩ := h.divides name other hother
  have hkpos : 0 < k := by
    apply Nat.pos_of_ne_zero
    rintro rfl
    have hscaled := (hdecimal.eq_scaled hperiod).1
    rw [hk, Nat.cast_zero, zero_mul] at hscaled
    exact absurd hscaled (by decide +kernel)
  have honce := h.once (List.replicate (k + 1) env) "check_rpc_timeout" period hperiod
  rw [executions_eq hperiod h.pos hkpos hk, if_pos ⟨rfl, hrpctab⟩, hk, floor_periods h.pos,
    List.length_replicate] at honce
  have hone : k = 1 := by
    by_contra hne
    rw [Nat.div_eq_of_lt_le (k := 1) (by omega) (by omega)] at honce
    omega
  refine ⟨j, ?_⟩
  rw [hj, hk, hone, Nat.cast_one, one_mul]

theorem keepsPeriods_of_wholeSeconds (hdecimal : trigger.Decimal) (hpos : 0 < g)
    (hdvd : ∀ name period, trigger.HasPeriod name period → g ∣ scaled period)
    (hmax : ∀ d, (∀ name period, trigger.HasPeriod name period → d ∣ scaled period) → d ∣ g)
    (hwhole : trigger.WholeSeconds) (hfirst : trigger.TimeoutFirst) :
    KeepsPeriods env trigger g := by
  have hten : tprecision ∣ g := by
    apply hmax
    intro name period hperiod
    obtain ⟨seconds, hseconds⟩ := hwhole name period hperiod
    refine ⟨seconds, ?_⟩
    have hscaled := (hdecimal.eq_scaled hperiod).2
    rw [hseconds] at hscaled ⊢
    have hcast : (scaled seconds : ℚ) = 10 * seconds := by
      linarith
    rw [tprecision]
    exact_mod_cast hcast
  have hcycle := cycle_eq g hpos hten
  have hcyclePos : 0 < cycle g := by
    rw [hcycle]
    exact div_pos (Int.cast_pos.mpr hpos) (by norm_num)
  have hticks : ∀ name period, trigger.HasPeriod name period →
      ∃ k : ℕ, 0 < k ∧ scaled period = g * k ∧ period = k * cycle g := by
    intro name period hperiod
    obtain ⟨hscaledPos, heq⟩ := hdecimal.eq_scaled hperiod
    obtain ⟨c, hc⟩ := hdvd name period hperiod
    have hcpos : 0 < c := by
      rw [hc] at hscaledPos
      exact (mul_pos_iff_of_pos_left hpos).mp hscaledPos
    obtain ⟨k, rfl⟩ := Int.eq_ofNat_of_zero_le hcpos.le
    refine ⟨k, Int.natCast_pos.mp hcpos, hc, ?_⟩
    rw [heq, hc, hcycle]
    push_cast
    ring
  refine ⟨hcyclePos, fun name period hperiod => ?_, fun envs name period hperiod => ?_⟩
  · obtain ⟨k, -, -, hk⟩ := hticks name period hperiod
    exact ⟨k, hk⟩
  · obtain ⟨k, hkpos, hscaled, hk⟩ := hticks name period hperiod
    rw [executions_eq hperiod hcyclePos hkpos hk, hk, floor_periods hcyclePos]
    split
    · rename_i htimeout
      obtain ⟨rfl, hrpctab⟩ := htimeout
      -- The period of the check divides all others, so it is one tick.
      have hall : scaled period ∣ g := by
        apply hmax
        intro other p hp
        obtain ⟨j, hj⟩ := hfirst hrpctab period hperiod other p hp
        exact hdecimal.scaled_dvd hperiod hp hj
      have hone : k = 1 := by
        have hsame : scaled period = g :=
          Int.dvd_antisymm (hdecimal.eq_scaled hperiod).1.le hpos.le hall
            (hdvd "check_rpc_timeout" period hperiod)
        rw [hscaled] at hsame
        have hcast : (k : ℤ) = 1 := by
          apply mul_left_cancel₀ hpos.ne'
          rw [hsame, mul_one]
        exact_mod_cast hcast
      rw [hone, Nat.div_one, Nat.add_sub_cancel]
    · rfl

end

/-- For every table of periods that are positive multiples of a tenth of a second, the
computation of the tick divides by no zero; the tick divides every period and every trigger
is executed once in each of its periods exactly when all periods are whole seconds and that
of `check_rpc_timeout`, if there are calls to check, divides the others. -/
theorem keepsPeriods_iff (env : Env) (trigger : Trigger) (first : String)
    (hfirst : trigger.periods.contains first) (hdecimal : trigger.Decimal) :
    ∃ g, mcd (trigger.initSubject env) = some g ∧
      (KeepsPeriods env trigger g ↔ trigger.WholeSeconds ∧ trigger.TimeoutFirst) := by
  obtain ⟨g, hg, hpos, hdvd, hmax⟩ := hdecimal.exists_mcd hfirst env
  refine ⟨g, hg, fun hkeeps => ⟨hkeeps.wholeSeconds, hkeeps.timeoutFirst hdecimal⟩, ?_⟩
  rintro ⟨hwhole, htimeout⟩
  exact keepsPeriods_of_wholeSeconds hdecimal hpos hdvd hmax hwhole htimeout

/-- Calls that are checked each second, and two triggers at whole seconds. -/
def checkedEachSecond : Trigger :=
  ⟨((SortedMap.empty.insert "check_rpc_timeout" "1").insert "poll" "2").insert "update" "3", true⟩

theorem decimal_checkedEachSecond : checkedEachSecond.Decimal := by
  intro name v hfind
  simp only [checkedEachSecond, SortedMap.find?_insert] at hfind
  split_ifs at hfind
  · exact Option.some.inj hfind ▸ ⟨30, by decide, by decide +kernel⟩
  · exact Option.some.inj hfind ▸ ⟨20, by decide, by decide +kernel⟩
  · exact Option.some.inj hfind ▸ ⟨10, by decide, by decide +kernel⟩
  · exact absurd hfind.symm (Option.some_ne_none v)

theorem keepsPeriods_iff_checkedEachSecond :
    ∃ g, mcd (checkedEachSecond.initSubject firstNight) = some g ∧
      (KeepsPeriods firstNight checkedEachSecond g ↔
        checkedEachSecond.WholeSeconds ∧ checkedEachSecond.TimeoutFirst) :=
  keepsPeriods_iff firstNight checkedEachSecond "poll" (by decide) decimal_checkedEachSecond

/-- One trigger, twice in a second. -/
def halfSecond : Trigger := ⟨SortedMap.empty.insert "poll" "0.5", true⟩

theorem decimal_halfSecond : halfSecond.Decimal := by
  intro name v hfind
  rw [halfSecond, SortedMap.find?_insert] at hfind
  split at hfind
  · rw [← Option.some.inj hfind]
    exact ⟨5, by decide, by decide +kernel⟩
  · exact absurd hfind.symm (Option.some_ne_none v)

/-- Five tenths of a second are no second: the tick is zero. -/
theorem not_keepsPeriods_halfSecond :
    halfSecond.periods.contains "poll" ∧ halfSecond.Decimal ∧
      mcd (halfSecond.initSubject firstNight) = some 5 ∧ ¬KeepsPeriods firstNight halfSecond 5 := by
  refine ⟨by decide, decimal_halfSecond, ?_, fun hkeeps => ?_⟩
  · have hscaled : scaled (a2double firstNight "0.5") = 5 := by
      decide +kernel
    have heuclide : euclide 5 5 = some 5 := by
      rw [euclide]
      decide
    have hentries : (halfSecond.initSubject firstNight).entries =
        [("poll", a2double firstNight "0.5")] := rfl
    simp only [mcd, hentries, List.foldlM_cons, List.foldlM_nil, hscaled, heuclide]
    rfl
  · have hzero : cycle 5 = 0 := by
      decide +kernel
    exact absurd hkeeps.pos (hzero ▸ lt_irrefl 0)

end Trigger

end Hat
