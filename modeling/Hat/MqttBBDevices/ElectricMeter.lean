import Hat.Core.Machine
import Hat.Minilibs.DoubleText
import Hat.Minilibs.MParams
import Hat.MqttBBDevices.Device

/-!
# The electric meter

A meter adds a quantum of energy for each pulse of its input and writes the sum to its file.
A measurement turns the energy since the last one into power.  A restart reads the sum again,
and starts with a silence in which pulses are not counted.
-/

namespace Hat

open Hat.Hsrv

structure ElectricMeter where
  params : MParams
  name : String
  input : String
  alpha : ℚ
  quantum : ℚ
  unit : String
  energy : ℚ
  ipower : ℚ
  apower : ℚ
  origin : ℚ
  currentTime : ℚ
  deltaEnergy : ℚ
  status : String
  deriving DecidableEq

namespace ElectricMeter

/-- `INITIALSILENCE`, in seconds. -/
def initialSilence : ℚ := 5

/-- The number in an attribute, or what stands for it when there is none. -/
def number (env : Env) (attr : String) (default : ℚ) (params : MParams) : ℚ :=
  if params.get attr = "" then default else a2double env (params.get attr)

/-- The input that the attributes name, the one of its own category before the other. -/
def wired (params : MParams) : String :=
  if params.getCategory "input" "input" = "" then params.get "input"
  else params.getCategory "input" "input"

def new (env : Env) (unloaded : MParams) (n : String) : ElectricMeter :=
  let params := unloaded.load
  { params := params
    name := n
    input := wired params
    alpha := number env "alpha" 0 params
    quantum := number env "quantum" 1 params
    unit := if params.get "unit" = "" then "Wh" else params.get "unit"
    energy := number env "energy" 0 params
    ipower := 0
    apower := 0
    origin := env.gettime
    currentTime := env.gettime
    deltaEnergy := 0
    status := if params.get "status" ≠ "" then params.get "status" else "ON" }

def update (env : Env) (channel value : String) (meter : ElectricMeter) : ElectricMeter × Bool :=
  if channel = meter.input ∧ value = "1" then
    let delta := meter.quantum * a2double env value
    if env.gettime < meter.origin + initialSilence then (meter, false)
    else
      let energy := meter.energy + delta
      let deltaEnergy := meter.deltaEnergy + delta
      ({ meter with
          energy := energy
          deltaEnergy := deltaEnergy
          params := ((meter.params.add "energy" (double2a energy)).add "deltaEnergy"
            (double2a deltaEnergy)).save }, true)
  else (meter, false)

def execcmd (env : Env) (m : MMessage) (meter : ElectricMeter) : ElectricMeter × Bool :=
  meter.update env m.msubtype (m.getString "value")

/-- No result where the quotients are not numbers: at the very time of the last measurement,
or of the start. -/
def doMeasure (env : Env) (meter : ElectricMeter) : Option ElectricMeter :=
  let tt := env.gettime
  if tt = meter.origin ∨ tt = meter.currentTime then none
  else
    some { meter with
      apower := meter.energy / (tt - meter.origin) * 3600
      ipower := meter.ipower * (1 - meter.alpha) +
        meter.alpha * (meter.deltaEnergy / (tt - meter.currentTime)) * 3600
      currentTime := tt
      deltaEnergy := 0 }

def reset (env : Env) (field : String) (meter : ElectricMeter) : ElectricMeter × Bool :=
  if field = "energy" then
    ({ meter with
        energy := 0
        origin := env.gettime - 1
        currentTime := env.gettime
        deltaEnergy := 0
        ipower := 0
        apower := 0
        params := ((meter.params.add "energy" (double2a 0)).add "deltaEnergy"
          (double2a 0)).save }, true)
  else (meter, false)

/-- The attributes are gone with the process, its files stay. -/
def unloaded (params : MParams) : MParams := { params with ty := "", attributes := [] }

def restart (env : Env) (meter : ElectricMeter) : ElectricMeter :=
  new env (unloaded meter.params) meter.name

/-- What the registry of devices calls, and the restart of the agent. -/
inductive Call
  | execcmd (m : MMessage)
  | doMeasure
  | reset (field : String)
  | restart
  deriving DecidableEq

def step (meter : ElectricMeter) (call : Env × Call) : Option ElectricMeter :=
  match call.2 with
  | .execcmd m => some (meter.execcmd call.1 m).1
  | .doMeasure => meter.doMeasure call.1
  | .reset field => some (meter.reset call.1 field).1
  | .restart => some (meter.restart call.1)

/-- A pulse of the input outside of the silence. -/
def Counts (env : Env) (m : MMessage) (meter : ElectricMeter) : Prop :=
  (m.msubtype = meter.input ∧ m.getString "value" = "1") ∧
    meter.origin + initialSilence ≤ env.gettime

instance (env : Env) (m : MMessage) (meter : ElectricMeter) : Decidable (meter.Counts env m) :=
  inferInstanceAs (Decidable ((_ ∧ _) ∧ _))

/-- The energy that a reading of the power stands for. -/
def reading (env : Env) (before after : ElectricMeter) : ℚ :=
  (after.ipower - before.ipower * (1 - before.alpha)) * (env.gettime - before.currentTime) /
    (3600 * before.alpha)

/-- What a bookkeeper writes down: the pulses since the last reset and the energy before them,
the readings since the last reset or restart and the energy before these. -/
structure Account where
  base : ℚ
  pulses : ℕ
  opening : ℚ
  measured : ℚ
  deriving DecidableEq

def Account.open (energy : ℚ) : Account := ⟨energy, 0, energy, 0⟩

def Account.next (meter after : ElectricMeter) (call : Env × Call) (account : Account) :
    Account :=
  match call.2 with
  | .execcmd m =>
      if meter.Counts call.1 m then { account with pulses := account.pulses + 1 } else account
  | .doMeasure => { account with measured := account.measured + reading call.1 meter after }
  | .reset field => if field = "energy" then Account.open 0 else account
  | .restart => { account with opening := meter.energy, measured := 0 }

def keep (books : ElectricMeter × Account) (call : Env × Call) :
    Option (ElectricMeter × Account) :=
  (books.1.step call).map fun after => (after, books.2.next books.1 after call)

/-- Every pulse is counted once, and goes into one reading or waits for it. -/
structure Balanced (meter : ElectricMeter) (account : Account) : Prop where
  counted : meter.energy = account.base + meter.quantum * account.pulses
  read : meter.energy = account.opening + account.measured + meter.deltaEnergy

/-- What five decimals can write. -/
def OnGrid (value : ℚ) : Prop := ∃ k : ℤ, value = k / 100000

theorem OnGrid.add {value other : ℚ} (hvalue : OnGrid value) (hother : OnGrid other) :
    OnGrid (value + other) := by
  obtain ⟨k, rfl⟩ := hvalue
  obtain ⟨l, rfl⟩ := hother
  exact ⟨k + l, by push_cast; ring⟩

theorem onGrid_zero : OnGrid 0 := ⟨0, by norm_num⟩

theorem roundHalfEven_natCast (n : ℕ) : roundHalfEven n = n := by
  simp [roundHalfEven]

theorem toFive_of_onGrid {value : ℚ} (hvalue : OnGrid value) : toFive value = value := by
  obtain ⟨k, rfl⟩ := hvalue
  have hscaled : |(k : ℚ) / 100000| * 100000 = (k.natAbs : ℕ) := by
    rw [abs_div, abs_of_pos (by norm_num : (0 : ℚ) < 100000), div_mul_cancel₀ _ (by norm_num),
      Nat.cast_natAbs, Int.cast_abs]
  rw [toFive, hscaled, roundHalfEven_natCast, Nat.cast_natAbs, Int.cast_abs]
  congr 1
  split
  · rename_i hneg
    have hk : (k : ℚ) < 0 := by
      by_contra hnot
      exact absurd hneg (not_lt.mpr (div_nonneg (not_lt.mp hnot) (by norm_num)))
    rw [abs_of_neg hk]
    ring
  · rename_i hnonneg
    have hk : 0 ≤ (k : ℚ) := by
      by_contra hnot
      exact hnonneg (div_neg_of_neg_of_pos (not_le.mp hnot) (by norm_num))
    rw [abs_of_nonneg hk, one_mul]

/-- The text of an attribute says a number, or there is none. -/
def Known (params : MParams) (attr : String) : Prop :=
  params.get attr = "" ∨ (scanDouble (params.get attr).toList).isSome

instance (params : MParams) (attr : String) : Decidable (Known params attr) :=
  inferInstanceAs (Decidable (_ ∨ _))

theorem Known.number_eq {params : MParams} {attr : String} (h : Known params attr)
    (env other : Env) (default : ℚ) :
    number env attr default params = number other attr default params := by
  rw [number, number]
  obtain hempty | hnumber := h
  · rw [if_pos hempty, if_pos hempty]
  · obtain ⟨value, hvalue⟩ := Option.isSome_iff_exists.mp hnumber
    rw [a2double, a2double, hvalue, Option.getD_some, Option.getD_some]

theorem number_congr {params changed : MParams} {attr : String}
    (hsame : changed.get attr = params.get attr) (env : Env) (default : ℚ) :
    number env attr default changed = number env attr default params := by
  rw [number, number, hsame]

/-- The parameters with the sums written to the file. -/
def stored (energy deltaEnergy : ℚ) (params : MParams) : MParams :=
  ((params.add "energy" (double2a energy)).add "deltaEnergy" (double2a deltaEnergy)).save

theorem double2a_ne_empty (value : ℚ) : double2a value ≠ "" := by
  intro hempty
  have hscan := scanDouble_double2a value
  rw [hempty] at hscan
  exact Option.some_ne_none _ hscan.symm

theorem get_stored_energy (energy deltaEnergy : ℚ) (params : MParams) :
    (stored energy deltaEnergy params).get "energy" = double2a energy := by
  rw [stored, MParams.get_save, MParams.get_add_of_ne _ _ (by decide),
    MParams.get_add_self _ _ (double2a_ne_empty energy)]

theorem get_stored_of_ne {attr : String} (henergy : "energy" ≠ attr)
    (hdelta : "deltaEnergy" ≠ attr) (energy deltaEnergy : ℚ) (params : MParams) :
    (stored energy deltaEnergy params).get attr = params.get attr := by
  rw [stored, MParams.get_save, MParams.get_add_of_ne _ _ hdelta,
    MParams.get_add_of_ne _ _ henergy]

/-- The file says what the meter knows, whatever else the memory holds. -/
structure Filed (meter : ElectricMeter) : Prop where
  reload : (unloaded meter.params).load = meter.params
  input : wired meter.params = meter.input
  alpha : ∀ env, number env "alpha" 0 meter.params = meter.alpha
  quantum : ∀ env, number env "quantum" 1 meter.params = meter.quantum
  energy : ∀ env, number env "energy" 0 meter.params = meter.energy
  gridQuantum : OnGrid meter.quantum
  gridEnergy : OnGrid meter.energy

theorem wired_stored (energy deltaEnergy : ℚ) (params : MParams) :
    wired (stored energy deltaEnergy params) = wired params := by
  have hcategory : (stored energy deltaEnergy params).getCategory "input" "input" =
      params.getCategory "input" "input" := by
    calc (stored energy deltaEnergy params).getCategory "input" "input"
      _ = ((params.add "energy" (double2a energy)).add "deltaEnergy"
            (double2a deltaEnergy)).getCategory "input" "input" := rfl
      _ = params.getCategory "input" "input" := by
          rw [MParams.getCategory_add _ _ _ _ (by decide), MParams.getCategory_add _ _ _ _ (by decide)]
  rw [wired, wired, hcategory, get_stored_of_ne (by decide) (by decide)]

/-- A sum that five decimals can write is filed as it is. -/
theorem Filed.stored {meter after : ElectricMeter} (h : meter.Filed) (henergy : OnGrid after.energy)
    (hparams : after.params = stored after.energy after.deltaEnergy meter.params)
    (hinput : after.input = meter.input) (halpha : after.alpha = meter.alpha)
    (hquantum : after.quantum = meter.quantum) : after.Filed where
  reload := by rw [hparams]; rfl
  input := by rw [hparams, wired_stored, h.input, hinput]
  alpha env := by
    rw [hparams, number_congr (get_stored_of_ne (by decide) (by decide) _ _ _), h.alpha, halpha]
  quantum env := by
    rw [hparams, number_congr (get_stored_of_ne (by decide) (by decide) _ _ _), h.quantum,
      hquantum]
  energy env := by
    rw [hparams, number, get_stored_energy, if_neg (double2a_ne_empty _), a2double_double2a,
      toFive_of_onGrid henergy]
  gridQuantum := hquantum ▸ h.gridQuantum
  gridEnergy := henergy

/-- A meter whose file is there, with numbers of at most five decimals. -/
theorem filed_new {params : MParams} (hfile : params.path.isSome ∨ params.pathh.isSome)
    (halpha : Known params.load "alpha") (hquantum : Known params.load "quantum")
    (henergy : Known params.load "energy") (env : Env) (n : String)
    (hgridQuantum : OnGrid (new env params n).quantum)
    (hgridEnergy : OnGrid (new env params n).energy) : (new env params n).Filed where
  reload := by
    change (unloaded params.load).load = params.load
    obtain ⟨ty, attributes, path, pathh⟩ := params
    cases pathh with
    | some file => rfl
    | none =>
        cases path with
        | some file => rfl
        | none => exact absurd hfile (not_or.mpr ⟨Bool.false_ne_true, Bool.false_ne_true⟩)
  input := rfl
  alpha other := halpha.number_eq other env 0
  quantum other := hquantum.number_eq other env 1
  energy other := henergy.number_eq other env 0
  gridQuantum := hgridQuantum
  gridEnergy := hgridEnergy

theorem a2double_one (env : Env) : a2double env "1" = 1 := by
  have hscan : scanDouble "1".toList = some 1 := by decide +kernel
  rw [a2double, hscan, Option.getD_some]

theorem execcmd_of_counts {env : Env} {m : MMessage} {meter : ElectricMeter}
    (hcounts : meter.Counts env m) :
    (meter.execcmd env m).1 =
      { meter with
        energy := meter.energy + meter.quantum
        deltaEnergy := meter.deltaEnergy + meter.quantum
        params := stored (meter.energy + meter.quantum) (meter.deltaEnergy + meter.quantum)
          meter.params } := by
  rw [execcmd, update, if_pos hcounts.1, if_neg (not_lt.mpr hcounts.2), hcounts.1.2, a2double_one,
    mul_one]
  rfl

theorem execcmd_of_not_counts {env : Env} {m : MMessage} {meter : ElectricMeter}
    (hnot : ¬meter.Counts env m) : (meter.execcmd env m).1 = meter := by
  rw [execcmd, update]
  split_ifs with hpulse hsilence
  · rfl
  · exact absurd ⟨hpulse, not_lt.mp hsilence⟩ hnot
  · rfl

/-- A reading stands for the energy since the last measurement. -/
theorem reading_of_doMeasure {env : Env} {meter after : ElectricMeter}
    (hafter : meter.doMeasure env = some after) (halpha : meter.alpha ≠ 0) :
    reading env meter after = meter.deltaEnergy := by
  rw [doMeasure] at hafter
  split_ifs at hafter with hsame
  obtain ⟨-, hcurrent⟩ := not_or.mp hsame
  have hspan : env.gettime - meter.currentTime ≠ 0 := sub_ne_zero.mpr hcurrent
  rw [reading, ← Option.some.inj hafter]
  field_simp
  ring

theorem Filed.restart {meter : ElectricMeter} (h : meter.Filed) (env : Env) :
    meter.restart env =
      { meter with
        unit := if meter.params.get "unit" = "" then "Wh" else meter.params.get "unit"
        ipower := 0
        apower := 0
        origin := env.gettime
        currentTime := env.gettime
        deltaEnergy := 0
        status := if meter.params.get "status" ≠ "" then meter.params.get "status" else "ON" } := by
  rw [ElectricMeter.restart, new, h.reload, h.input, h.alpha, h.quantum, h.energy]

/-! ## Whole runs -/

/-- The file agrees with the meter and the books with both. -/
structure Sound (books : ElectricMeter × Account) : Prop where
  filed : books.1.Filed
  balanced : Balanced books.1 books.2
  smooth : books.1.alpha ≠ 0

theorem sound_keep {books next : ElectricMeter × Account} (call : Env × Call)
    (h : Sound books) (hnext : keep books call = some next) : Sound next := by
  obtain ⟨meter, account⟩ := books
  obtain ⟨env, call⟩ := call
  obtain ⟨after, hafter, rfl⟩ := Option.map_eq_some_iff.mp hnext
  obtain ⟨hfiled, ⟨hcounted, hread⟩, hsmooth⟩ := h
  dsimp only at hfiled hcounted hread hsmooth hafter
  cases call with
  | execcmd m =>
      cases hafter
      by_cases hcounts : meter.Counts env m
      · rw [execcmd_of_counts hcounts]
        refine ⟨hfiled.stored (hfiled.gridEnergy.add hfiled.gridQuantum) rfl rfl rfl rfl, ?_, hsmooth⟩
        simp only [Account.next, if_pos hcounts]
        constructor
        · push_cast
          linarith
        · linarith
      · rw [execcmd_of_not_counts hcounts]
        simp only [Account.next, if_neg hcounts]
        exact ⟨hfiled, ⟨hcounted, hread⟩, hsmooth⟩
  | doMeasure =>
      have hreading := reading_of_doMeasure hafter hsmooth
      simp only [Account.next, hreading]
      simp only [step, doMeasure] at hafter
      split_ifs at hafter
      cases hafter
      exact ⟨⟨hfiled.reload, hfiled.input, hfiled.alpha, hfiled.quantum, hfiled.energy,
        hfiled.gridQuantum, hfiled.gridEnergy⟩, ⟨hcounted, by rw [hread]; ring⟩, hsmooth⟩
  | reset field =>
      cases hafter
      by_cases hfield : field = "energy"
      · simp only [Account.next, reset, if_pos hfield]
        refine ⟨hfiled.stored onGrid_zero rfl rfl rfl rfl, ⟨?_, ?_⟩, hsmooth⟩
        · simp [Account.open]
        · simp [Account.open]
      · simp only [Account.next, reset, if_neg hfield]
        exact ⟨hfiled, ⟨hcounted, hread⟩, hsmooth⟩
  | restart =>
      cases hafter
      rw [hfiled.restart]
      refine ⟨⟨hfiled.reload, hfiled.input, hfiled.alpha, hfiled.quantum, hfiled.energy,
        hfiled.gridQuantum, hfiled.gridEnergy⟩, ⟨hcounted, ?_⟩, hsmooth⟩
      simp [Account.next]

/-- A meter of half a watt hour for each pulse, that does not smooth the power. -/
def houseMeter : MParams where
  ty := ""
  attributes := []
  path := some ("ElectricMeter",
    [⟨"input", "input", "pulse_1"⟩, ⟨"quantum", "generic", "0.5"⟩, ⟨"alpha", "generic", "1"⟩])
  pathh := none

def pulse : MMessage := (MMessage.mk2 "local_event" "pulse_1").add "value" "1"

def meterClock (seconds : ℕ) : Env :=
  { firstNight with
    gettime := seconds
    gettime_nonneg := Rat.natCast_nonneg }

/-- A pulse in the silence, two that count, a measurement, and one pulse after a restart. -/
def houseRun : Option (ElectricMeter × Account) :=
  Machine.exec keep
    (new (meterClock 0) houseMeter "meter",
      Account.open (new (meterClock 0) houseMeter "meter").energy)
    [(meterClock 3, .execcmd pulse), (meterClock 10, .execcmd pulse),
      (meterClock 12, .execcmd pulse), (meterClock 20, .doMeasure), (meterClock 25, .restart),
      (meterClock 31, .execcmd pulse)]

end ElectricMeter

end Hat
