import Hat.Core.SortedMap
import Hat.Minilibs.Hsrv
import Mathlib.Data.List.Find
import Mathlib.Data.String.Basic

/-!
# Power programs

A power program gives each area a target by weekday and time of day.  `load` and `update` look
the targets of the moment up and leave them in one map, whose keys are made of a prefix and the
name of the area.  The entries of an area depend on that area alone: the map is the collection
of one record for each name.
-/

namespace Hat

open Hat.Hsrv

/-- A period has two times; a value that is missing reads as zero. -/
structure PwrPeriod where
  start : String
  stop : String
  value : Option ℚ
  start_ne : start ≠ ""
  stop_ne : stop ≠ ""
  deriving DecidableEq

/-- The children of an area, each with its periods if there is an element for them. -/
inductive AreaChild
  | default (periods : Option (List PwrPeriod))
  | day (weekday : ℤ) (periods : Option (List PwrPeriod))
  deriving DecidableEq

structure Area where
  name : String
  children : List AreaChild
  deriving DecidableEq

namespace Area

def firstDefault (area : Area) : Option (Option (List PwrPeriod)) :=
  area.children.findSome? fun child =>
    match child with
    | .default periods => some periods
    | .day _ _ => none

/-- The loop over the days goes on with all that follows the first of them.  A default there has
no weekday, and its missing attribute is not defined as a text. -/
def daysFrom : List AreaChild → Option (List (ℤ × Option (List PwrPeriod)))
  | [] => some []
  | .day weekday periods :: rest => (daysFrom rest).map ((weekday, periods) :: ·)
  | .default _ :: _ => none

def days (area : Area) : Option (List (ℤ × Option (List PwrPeriod))) :=
  daysFrom (area.children.dropWhile fun child =>
    match child with
    | .default _ => true
    | .day _ _ => false)

end Area

structure FeatureValue where
  value : ℚ
  beginTime : String
  endTime : String
  deriving DecidableEq

namespace FeatureValue

def empty : FeatureValue := ⟨0, "", ""⟩

def offValue : FeatureValue := ⟨-10000000000, "00:00:00", "23::59::00"⟩

end FeatureValue

def PwrPeriod.target (period : PwrPeriod) : FeatureValue :=
  ⟨period.value.getD 0, period.start, period.stop⟩

/-- The four prefixes. -/
inductive TargetKind
  | current
  | next
  | default
  | ndfault
  deriving DecidableEq

def TargetKind.key (name : String) : TargetKind → String
  | current => "current_" ++ name
  | next => "next_" ++ name
  | default => "default_" ++ name
  | ndfault => "ndfault_" ++ name

structure PwrProgram where
  doc : List Area
  targets : SortedMap String FeatureValue
  areas : List String

namespace PwrProgram

open TargetKind

abbrev Targets := SortedMap String FeatureValue

def isInside (t start stop : String) : Bool :=
  if t = "24:00:00" ∧ start = "00:00:00" then true
  else if start < stop then start ≤ t ∧ t < stop
  else (start ≤ t ∧ t < "24:00:00") ∨ ("00:00:00" ≤ t ∧ t < stop)

/-- The first period that contains the time. -/
def findPeriod (periods : Option (List PwrPeriod)) (ctime : String) : Option FeatureValue :=
  ((periods.getD []).find? fun period => isInside ctime period.start period.stop).map
    PwrPeriod.target

def getPeriods (periods : Option (List PwrPeriod)) (ctime key : String) (targets : Targets) :
    Bool × Targets :=
  match findPeriod periods ctime with
  | some target => (true, targets.insert key target)
  | none => (false, targets)

/-- `[]` of the map: under a new key there is an empty value from then on. -/
def index (key : String) (targets : Targets) : FeatureValue × Targets :=
  match targets.find? key with
  | some target => (target, targets)
  | none => (.empty, targets.insert key .empty)

/-- The turn of `getDefault` for one area. -/
def defaultTurn (ctime : String) (targets : Targets) (area : Area) : Targets :=
  match area.firstDefault with
  | none => targets
  | some periods =>
      let found := getPeriods periods ctime (default.key area.name) targets
      if found.1 then
        let entry := index (default.key area.name) found.2
        let following := getPeriods periods entry.1.endTime (ndfault.key area.name) entry.2
        if !following.1 && following.2.contains (default.key area.name) then
          let entry := index (default.key area.name) following.2
          entry.2.insert (ndfault.key area.name) entry.1
        else following.2
      else found.2

/-- The turn of the first loop of `getTargets` for one day of an area. -/
def todayTurn (ctime : String) (wday : ℤ) (name : String) (targets : Targets)
    (day : ℤ × Option (List PwrPeriod)) : Targets :=
  if day.1 = wday then
    let found := getPeriods day.2 ctime (current.key name) targets
    if found.1 then
      let entry := index (current.key name) found.2
      if entry.1.endTime < "24:00:00" then
        (getPeriods day.2 entry.1.endTime (next.key name) entry.2).2
      else entry.2
    else found.2
  else targets

/-- The turn of the second loop, for the day that follows. -/
def tomorrowTurn (nday : ℤ) (name : String) (targets : Targets)
    (day : ℤ × Option (List PwrPeriod)) : Targets :=
  if day.1 = nday then
    if targets.contains (next.key name) then targets
    else if targets.contains (current.key name) then
      let entry := index (current.key name) targets
      (getPeriods day.2 entry.1.endTime (next.key name) entry.2).2
    else if targets.contains (default.key name) then
      let entry := index (current.key name) targets
      (getPeriods day.2 entry.1.endTime (default.key name) entry.2).2
    else (getPeriods day.2 "00:00:00" (next.key name) targets).2
  else targets

def nextDay (wday : ℤ) : ℤ := if wday + 1 > 7 then 1 else wday + 1

/-- The areas with their days. -/
def schedule (doc : List Area) : Option (List (String × List (ℤ × Option (List PwrPeriod)))) :=
  doc.mapM fun area => area.days.map fun days => (area.name, days)

def getDefault (doc : List Area) (ctime : String) (targets : Targets) : Targets :=
  doc.foldl (defaultTurn ctime) targets

def getTargets (doc : List Area) (ctime : String) (wday : ℤ) (targets : Targets) :
    Option Targets :=
  (schedule doc).map fun areas =>
    let first := areas.foldl (fun targets area =>
      area.2.foldl (todayTurn ctime wday area.1) targets) targets
    areas.foldl (fun targets area =>
      area.2.foldl (tomorrowTurn (nextDay wday) area.1) targets) first

/-- What `load` leaves of a document, and `update` of the document that is loaded. -/
def load (doc : List Area) (env : Env) : Option PwrProgram :=
  let ctime := getasciitimeday env
  let wday := env.localtime.wday
  (getTargets doc ctime wday (getDefault doc ctime SortedMap.empty)).map fun targets =>
    { doc := doc
      targets := targets
      areas := (doc.map Area.name).filter fun name => name ≠ "" }

def update (program : PwrProgram) (env : Env) : Option PwrProgram := load program.doc env

def getCurrentTarget (program : PwrProgram) (feature : String) : FeatureValue :=
  match program.targets.find? (current.key feature) with
  | some target => target
  | none => (program.targets.find? "current_default").getD .offValue

def getNextTarget (program : PwrProgram) (feature : String) : FeatureValue :=
  match program.targets.find? (next.key feature) with
  | some target => target
  | none => (program.targets.find? "next_default").getD .offValue

theorem key_inj {kind other : TargetKind} {name name' : String} :
    kind.key name = other.key name' ↔ kind = other ∧ name = name' := by
  constructor
  · intro h
    have hchars := congrArg String.toList h
    cases kind <;> cases other <;> simp [TargetKind.key] at hchars <;>
      exact ⟨rfl, String.toList_inj.mp hchars⟩
  · rintro ⟨rfl, rfl⟩
    rfl

theorem getPeriods_of_some {periods : Option (List PwrPeriod)} {ctime : String}
    {target : FeatureValue} (h : findPeriod periods ctime = some target) (key : String)
    (targets : Targets) :
    getPeriods periods ctime key targets = (true, targets.insert key target) := by
  rw [getPeriods, h]

theorem getPeriods_of_none {periods : Option (List PwrPeriod)} {ctime : String}
    (h : findPeriod periods ctime = none) (key : String) (targets : Targets) :
    getPeriods periods ctime key targets = (false, targets) := by
  rw [getPeriods, h]

theorem index_of_some {key : String} {targets : Targets} {target : FeatureValue}
    (h : targets.find? key = some target) : index key targets = (target, targets) := by
  rw [index, h]

@[simp]
theorem index_insert (key : String) (target : FeatureValue) (targets : Targets) :
    index key (targets.insert key target) = (target, targets.insert key target) :=
  index_of_some (SortedMap.find?_insert_self _ _ _)

theorem index_of_none {key : String} {targets : Targets} (h : targets.find? key = none) :
    index key targets = (.empty, targets.insert key .empty) := by
  rw [index, h]

/-- No period contains the empty text. -/
theorem findPeriod_empty (periods : Option (List PwrPeriod)) : findPeriod periods "" = none := by
  rw [findPeriod, Option.map_eq_none_iff, List.find?_eq_none]
  intro period _
  have hstart : ¬ period.start ≤ "" := by
    intro hle
    exact period.start_ne (le_antisymm hle (show "" ≤ period.start by
      rw [← String.not_lt]
      intro hlt
      exact absurd (String.lt_iff_toList_lt.mp hlt) (List.not_lt_nil _)))
  have hmidnight : ¬ "00:00:00" ≤ "" := by
    decide
  rw [isInside, if_neg fun hboth => absurd hboth.1 (by decide)]
  split <;> simp [hstart, hmidnight]

end PwrProgram

end Hat
