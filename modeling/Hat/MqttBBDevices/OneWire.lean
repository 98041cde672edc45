import Hat.Core.FreshName
import Hat.Core.Machine
import Hat.Minilibs.FileManager
import Hat.MqttBBDevices.GPIOThread

/-!
# One-wire probes

At its start the thread describes the probes that no description names yet.  It takes the
first free name of the form `PRn` for each of them, writes a description under that name and
loads it.  The names it compares are those inside the descriptions, not those of the files.
-/

namespace Hat

open Hat.Hsrv

/-- A file of attributes, as the XML reader delivers it. -/
abbrev AttributeFile := String × List MAttribute

/-- What the thread finds at its start. -/
structure OneWireSetup where
  env : Env
  /-- The files in the directory of descriptions. -/
  owdev : List String
  /-- The descriptions in the configuration and in the home directory, by their stems. -/
  config : String → Option AttributeFile
  home : String → Option AttributeFile
  /-- The template with a directory, a name and a probe filled in, if it can be read and the
  description can be written. -/
  template : Option (String → String → String → AttributeFile)

/-- The devices there were, and those the loop has defined, with the names it gave them. -/
structure OneWire where
  existing : List Gpio
  defined : List (String × Gpio)
  config : String → Option AttributeFile

namespace OneWireSetup

/-- The constructor of a device, which reads the file in the home directory first. -/
def gpio (setup : OneWireSetup) (config : String → Option AttributeFile) (stem : String) : Gpio :=
  Gpio.new setup.env ⟨stem, [], config stem, setup.home stem⟩

def start (setup : OneWireSetup) : OneWire where
  existing := setup.owdev.map fun file => setup.gpio setup.config (FileManager.getStem file)
  defined := []
  config := setup.config

end OneWireSetup

namespace OneWire

def onewire (wires : OneWire) : List Gpio := wires.existing ++ wires.defined.map Prod.snd

def names (wires : OneWire) : List String := wires.onewire.map Gpio.name

/-- The names in the order in which they are tried. -/
def tname (i : ℕ) : String := "PR" ++ unsigned2a (i + 1)

def mkName (names : List String) : String :=
  (((List.range names.length).find? fun i => tname i ∉ names).map tname).getD (tname names.length)

def isDefined (sysname : String) (wires : OneWire) : String :=
  ((wires.onewire.find? fun device => device.gpioname = sysname).map Gpio.name).getD ""

/-- The description is written, unless the template or the new file cannot be opened. -/
def owDefine (setup : OneWireSetup) (dir name gpioname : String)
    (config : String → Option AttributeFile) : String → Option AttributeFile :=
  match setup.template with
  | some templ => Function.update config name (some (templ dir name gpioname))
  | none => config

/-- A probe that is to be defined. -/
def IsNew (wires : OneWire) (sysname : String) : Prop :=
  sysname ≠ "w1_bus_master1" ∧ wires.isDefined sysname = ""

instance (wires : OneWire) (sysname : String) : Decidable (wires.IsNew sysname) :=
  inferInstanceAs (Decidable (_ ∧ _))

/-- One turn of the loop over the probes. -/
def next (setup : OneWireSetup) (dir : String) (wires : OneWire) (sysname : String) : OneWire :=
  if wires.IsNew sysname then
    let tmpname := mkName wires.names
    let config := owDefine setup dir tmpname sysname wires.config
    { wires with
      defined := wires.defined ++ [(tmpname, setup.gpio config tmpname)]
      config := config }
  else wires

/-- No probe is looked for without a directory or in a debugging session. -/
def mkOnewire (setup : OneWireSetup) (debug : ℤ) (dir : String) (sysowdev : List String) :
    OneWire :=
  if dir = "" then ⟨[], [], setup.config⟩
  else if 1 < debug then setup.start
  else sysowdev.foldl (next setup dir) setup.start

/-- The names given are pairwise distinct and distinct from those of the devices there were,
and no description that there was has been written over. -/
structure NamesApart (setup : OneWireSetup) (wires : OneWire) : Prop where
  distinct : (wires.defined.map Prod.fst).Nodup
  fresh : ∀ entry ∈ wires.defined, entry.1 ∉ wires.existing.map Gpio.name
  kept : setup.template.isSome → ∀ entry ∈ wires.defined, setup.config entry.1 = none

/-- The first free name is not that of a description there was, and the probes defined so far
have been read back under the names they were given. -/
structure Ready (setup : OneWireSetup) (wires : OneWire) (sysname : String) : Prop where
  free : wires.IsNew sysname → ∃ k, tname k ∉ wires.names
  unwritten : wires.IsNew sysname → setup.template.isSome →
    ∀ k, IsFirstFree tname wires.names k → setup.config (tname k) = none
  readBack : wires.IsNew sysname → ∀ entry ∈ wires.defined, entry.2.name = entry.1

theorem cycles_tname : Cycles tname (2 ^ 32) where
  pos := by decide
  injOn := by
    intro i hi j hj heq
    have hlists := congrArg String.toList heq
    rw [tname, tname, String.toList_append, String.toList_append] at hlists
    have hnumbers : unsigned2a (i + 1) = unsigned2a (j + 1) :=
      String.toList_inj.mp (List.append_cancel_left hlists)
    have hmod := mod_eq_of_unsigned2a_eq hnumbers
    omega
  supply_mod := by
    intro i
    have hmod : (i % 2 ^ 32 + 1) % 2 ^ 32 = (i + 1) % 2 ^ 32 := by
      omega
    rw [tname, tname, unsigned2a, unsigned2a, hmod]

theorem mkName_notMem_iff (names : List String) :
    mkName names ∉ names ↔ ∃ k, tname k ∉ names :=
  firstFrom_notMem_iff cycles_tname

theorem mkName_eq_of_isFirstFree {names : List String} {k : ℕ}
    (h : IsFirstFree tname names k) : mkName names = tname k :=
  firstFrom_eq h cycles_tname

/-- With every probe read back under its name, the names are those of the devices there were
and those that were given. -/
theorem names_of_readBack {wires : OneWire}
    (hread : ∀ entry ∈ wires.defined, entry.2.name = entry.1) :
    wires.names = wires.existing.map Gpio.name ++ wires.defined.map Prod.fst := by
  rw [names, onewire, List.map_append, List.map_map]
  exact congrArg _ (List.map_congr_left hread)

variable {setup : OneWireSetup} {dir : String} {wires : OneWire} {sysname : String}

/-- Either all probes have been read back under their names, or all but the last one, whose
name is then given again. -/
inductive Tracked (wires : OneWire) : Prop
  | readBack (hread : ∀ entry ∈ wires.defined, entry.2.name = entry.1)
  | again {front : List (String × Gpio)} {last : String × Gpio}
      (hdefined : wires.defined = front ++ [last]) (hread : last.2.name ≠ last.1)
      (hname : mkName wires.names = last.1)

theorem next_of_not_isNew (hnew : ¬wires.IsNew sysname) : next setup dir wires sysname = wires :=
  if_neg hnew

/-- A new probe gets the next name, and is loaded under it. -/
theorem defined_next (hnew : wires.IsNew sysname) :
    ∃ device, (next setup dir wires sysname).defined =
      wires.defined ++ [(mkName wires.names, device)] := by
  rw [next, if_pos hnew]
  exact ⟨_, rfl⟩

theorem existing_next (wires : OneWire) (sysname : String) :
    (next setup dir wires sysname).existing = wires.existing := by
  rw [next]
  split_ifs <;> rfl

theorem names_next {device : Gpio} (hdefined : (next setup dir wires sysname).defined =
    wires.defined ++ [(mkName wires.names, device)]) :
    (next setup dir wires sysname).names = wires.names ++ [device.name] := by
  rw [names, onewire, existing_next, hdefined, List.map_append (f := Prod.snd),
    ← List.append_assoc, List.map_append, List.map_singleton, List.map_singleton]
  rfl

theorem NamesApart.of_next (h : NamesApart setup (next setup dir wires sysname)) :
    NamesApart setup wires := by
  by_cases hnew : wires.IsNew sysname
  · obtain ⟨device, hdefined⟩ := @defined_next setup dir wires sysname hnew
    obtain ⟨hdistinct, hfresh, hkept⟩ := h
    rw [hdefined] at hdistinct hfresh hkept
    rw [existing_next] at hfresh
    rw [List.map_append] at hdistinct
    exact ⟨hdistinct.of_append_left,
      fun entry hentry => hfresh entry (List.mem_append_left _ hentry),
      fun htemplate entry hentry => hkept htemplate entry (List.mem_append_left _ hentry)⟩
  · rwa [next_of_not_isNew hnew] at h

/-- What the name of a new probe has to meet. -/
theorem namesApart_next_iff (hnew : wires.IsNew sysname) (h : NamesApart setup wires) :
    NamesApart setup (next setup dir wires sysname) ↔
      mkName wires.names ∉ wires.defined.map Prod.fst ∧
        mkName wires.names ∉ wires.existing.map Gpio.name ∧
          (setup.template.isSome → setup.config (mkName wires.names) = none) := by
  obtain ⟨device, hdefined⟩ := @defined_next setup dir wires sysname hnew
  constructor
  · rintro ⟨hdistinct, hfresh, hkept⟩
    rw [hdefined] at hdistinct hfresh hkept
    rw [List.map_append, List.map_singleton, List.nodup_append'] at hdistinct
    rw [existing_next] at hfresh
    have hlast : (mkName wires.names, device) ∈
        wires.defined ++ [(mkName wires.names, device)] := by
      simp
    exact ⟨List.disjoint_singleton.mp hdistinct.2.2, hfresh _ hlast,
      fun htemplate => hkept htemplate _ hlast⟩
  · rintro ⟨hgiven, hexisting, hconfig⟩
    refine ⟨?_, ?_, ?_⟩
    · rw [hdefined, List.map_append, List.map_singleton, List.nodup_append']
      exact ⟨h.distinct, List.nodup_singleton _, List.disjoint_singleton.mpr hgiven⟩
    · rw [hdefined, existing_next]
      intro entry hentry
      rcases List.mem_append.mp hentry with hentry | hentry
      · exact h.fresh entry hentry
      · rw [List.mem_singleton.mp hentry]
        exact hexisting
    · rw [hdefined]
      intro htemplate entry hentry
      rcases List.mem_append.mp hentry with hentry | hentry
      · exact h.kept htemplate entry hentry
      · rw [List.mem_singleton.mp hentry]
        exact hconfig htemplate

theorem Tracked.next (htracked : Tracked wires)
    (h : NamesApart setup (OneWire.next setup dir wires sysname)) :
    Tracked (OneWire.next setup dir wires sysname) := by
  by_cases hnew : wires.IsNew sysname
  · obtain ⟨hgiven, hexisting, -⟩ := (namesApart_next_iff hnew h.of_next).mp h
    obtain ⟨device, hdefined⟩ := @defined_next setup dir wires sysname hnew
    cases htracked with
    | again hold hread hname =>
        rw [hold, hname] at hgiven
        exact absurd (by simp) hgiven
    | readBack hread =>
        by_cases hdevice : device.name = mkName wires.names
        · apply Tracked.readBack
          rw [hdefined]
          intro entry hentry
          rcases List.mem_append.mp hentry with hentry | hentry
          · exact hread entry hentry
          · rw [List.mem_singleton.mp hentry]
            exact hdevice
        · -- the name is as free as before, whatever was read
          apply Tracked.again hdefined hdevice
          have hfresh : mkName wires.names ∉ wires.names := by
            rw [names_of_readBack hread, List.mem_append, not_or]
            rw [names_of_readBack hread] at hgiven hexisting
            exact ⟨hexisting, hgiven⟩
          rw [names_next hdefined]
          exact firstFrom_append cycles_tname hfresh hdevice
  · rwa [next_of_not_isNew hnew]

/-- A probe leaves the names apart exactly in a state that is ready for it. -/
theorem namesApart_next_iff_ready (htracked : Tracked wires) (h : NamesApart setup wires) :
    NamesApart setup (next setup dir wires sysname) ↔ Ready setup wires sysname := by
  by_cases hnew : wires.IsNew sysname
  · rw [namesApart_next_iff hnew h]
    cases htracked with
    | @again front last hdefined hread hname =>
        refine iff_of_false (fun hapart => hapart.1 ?_) (fun hready => hread ?_)
        · rw [hdefined, hname]
          simp
        · exact hready.readBack hnew last (by simp [hdefined])
    | readBack hread =>
        have hmem : mkName wires.names ∉ wires.names ↔
            mkName wires.names ∉ wires.existing.map Gpio.name ∧
              mkName wires.names ∉ wires.defined.map Prod.fst := by
          conv_lhs => rw [names_of_readBack hread]
          rw [← not_or, ← List.mem_append, names_of_readBack hread]
        constructor
        · rintro ⟨hgiven, hexisting, hconfig⟩
          refine ⟨fun _ => (mkName_notMem_iff _).mp (hmem.mpr ⟨hexisting, hgiven⟩), ?_,
            fun _ => hread⟩
          intro _ htemplate k hk
          rw [← mkName_eq_of_isFirstFree hk]
          exact hconfig htemplate
        · intro hready
          obtain ⟨k, hk⟩ := exists_isFirstFree (hready.free hnew)
          have hfresh := hmem.mp ((mkName_notMem_iff _).mpr (hready.free hnew))
          refine ⟨hfresh.2, hfresh.1, fun htemplate => ?_⟩
          rw [mkName_eq_of_isFirstFree hk]
          exact hready.unwritten hnew htemplate k hk
  · rw [next_of_not_isNew hnew]
    exact iff_of_true h ⟨fun hyes => absurd hyes hnew, fun hyes => absurd hyes hnew,
      fun hyes => absurd hyes hnew⟩

/-! ## All probes -/

theorem namesApart_of_foldl {probes : List String}
    (h : NamesApart setup (probes.foldl (next setup dir) wires)) : NamesApart setup wires := by
  induction probes generalizing wires with
  | nil => exact h
  | cons sysname rest ih => exact (ih h).of_next

theorem namesApart_foldl_iff (htracked : Tracked wires) (h : NamesApart setup wires)
    (probes : List String) :
    NamesApart setup (probes.foldl (next setup dir) wires) ↔
      Machine.Along (Machine.total (next setup dir)) (Ready setup) wires probes := by
  induction probes generalizing wires with
  | nil => exact iff_of_true h trivial
  | cons sysname rest ih =>
      have hready := @namesApart_next_iff_ready setup dir wires sysname htracked h
      constructor
      · intro hfinal
        have hnext : NamesApart setup (next setup dir wires sysname) :=
          namesApart_of_foldl hfinal
        refine ⟨hready.mp hnext, fun after hafter => ?_⟩
        rw [← Option.some.inj hafter]
        exact (ih (htracked.next hnext) hnext).mp hfinal
      · rintro ⟨hfirst, hrest⟩
        have hnext := hready.mpr hfirst
        exact (ih (htracked.next hnext) hnext).mpr (hrest _ rfl)

theorem namesApart_of_nothing {existing : List Gpio} {config : String → Option AttributeFile} :
    NamesApart setup ⟨existing, [], config⟩ where
  distinct := List.nodup_nil
  fresh := fun _ hentry => absurd hentry List.not_mem_nil
  kept := fun _ _ hentry => absurd hentry List.not_mem_nil

/-- A name is fresh unless all names are taken, and the loop over the probes keeps names and
descriptions apart exactly if each probe that it defines is met in a ready state. -/
theorem namesApart_iff (names : List String) (setup : OneWireSetup) (debug : ℤ) (dir : String)
    (sysowdev : List String) :
    (mkName names ∉ names ↔ ∃ k, tname k ∉ names) ∧
      (NamesApart setup (mkOnewire setup debug dir sysowdev) ↔
        (dir ≠ "" → debug ≤ 1 →
          Machine.Along (Machine.total (next setup dir)) (Ready setup) setup.start sysowdev)) := by
  refine ⟨mkName_notMem_iff names, ?_⟩
  rw [mkOnewire]
  split_ifs with hdir hdebug
  · exact iff_of_true namesApart_of_nothing fun hne => absurd hdir hne
  · exact iff_of_true namesApart_of_nothing fun _ hle => absurd hdebug (not_lt.mpr hle)
  · have hstart : Tracked setup.start :=
      Tracked.readBack fun _ hentry => absurd hentry List.not_mem_nil
    have hiff : NamesApart setup (sysowdev.foldl (next setup dir) setup.start) ↔
        Machine.Along (Machine.total (next setup dir)) (Ready setup) setup.start sysowdev :=
      namesApart_foldl_iff hstart namesApart_of_nothing sysowdev
    exact hiff.trans ⟨fun h _ _ => h, fun h => h hdir (not_lt.mp hdebug)⟩

def probeFile (name gpioname : String) : AttributeFile :=
  (name, [⟨"capename", "generic", name⟩, ⟨"gpioname", "generic", gpioname⟩])

/-- One probe is described in `PR1.xml`, where it is called `hall`. -/
def renamedProbe : OneWireSetup where
  env := firstNight
  owdev := ["PR1.xml"]
  config stem := if stem = "PR1" then some (probeFile "hall" "28-01") else none
  home _ := none
  template := some fun _ name gpioname => probeFile name gpioname

/-- The name `PR1` is free, and its description is written over. -/
theorem not_namesApart_renamedProbe :
    ¬NamesApart renamedProbe
      (mkOnewire renamedProbe 0 "/sys/bus/w1/devices" ["28-01", "28-02"]) := by
  intro h
  have hgiven : (mkOnewire renamedProbe 0 "/sys/bus/w1/devices" ["28-01", "28-02"]).defined.map
      Prod.fst = ["PR1"] := by
    decide +kernel
  obtain ⟨entry, hentry, hname⟩ := List.mem_map.mp (hgiven ▸ List.mem_singleton_self "PR1")
  have hkept := h.kept rfl entry hentry
  rw [hname] at hkept
  exact absurd hkept (by decide +kernel)

end OneWire

end Hat
