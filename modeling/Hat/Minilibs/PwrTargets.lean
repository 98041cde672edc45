import Hat.Minilibs.PwrProgram
import Mathlib.Logic.Function.Basic

/-!
# The targets of one area

The entries of the map for one name are a record of four, and no turn changes the record of
another name.  The record that `load` leaves is therefore told by the entries of the document
for that name alone, each of its fields by a search.  What the readers answer follows from the
record of the name and, where it has no target, from the record of an area called default.
-/

namespace Hat

open Hat.Hsrv

section LastFound

variable {α β : Type*}

/-- The result for the last item that has one. -/
def lastSome (f : α → Option β) (items : List α) : Option β := items.reverse.findSome? f

@[simp]
theorem lastSome_nil (f : α → Option β) : lastSome f [] = none := rfl

theorem lastSome_cons (f : α → Option β) (item : α) (items : List α) :
    lastSome f (item :: items) = (lastSome f items).or (f item) := by
  rw [lastSome, List.reverse_cons, List.findSome?_append, List.findSome?_singleton, lastSome]

theorem lastSome_singleton (f : α → Option β) (item : α) : lastSome f [item] = f item := by
  rw [lastSome_cons, lastSome_nil, Option.none_or]

theorem foldl_or (f : α → Option β) (items : List α) (start : Option β) :
    items.foldl (fun found item => (f item).or found) start = (lastSome f items).or start := by
  induction items generalizing start with
  | nil => simp
  | cons item items ih => rw [List.foldl_cons, ih, lastSome_cons, Option.or_assoc]

theorem lastSome_eq_none_iff (f : α → Option β) (items : List α) :
    lastSome f items = none ↔ ∀ item ∈ items, f item = none := by
  rw [lastSome, List.findSome?_eq_none_iff]
  simp

end LastFound

/-- The entries of the map for one name. -/
abbrev AreaTargets := TargetKind → Option FeatureValue

namespace AreaTargets

open PwrProgram

def put (kind : TargetKind) (target : Option FeatureValue) (area : AreaTargets) : AreaTargets :=
  if target.isSome then Function.update area kind target else area

def defaultTurn (ctime : String) (area : AreaTargets) (periods : Option (List PwrPeriod)) :
    AreaTargets :=
  match findPeriod periods ctime with
  | none => area
  | some target => (area.put .default (some target)).put .ndfault
      (some ((findPeriod periods target.endTime).getD target))

def todayTurn (ctime : String) (area : AreaTargets) (periods : Option (List PwrPeriod)) :
    AreaTargets :=
  match findPeriod periods ctime with
  | none => area
  | some target =>
      if target.endTime < "24:00:00" then
        (area.put .current (some target)).put .next (findPeriod periods target.endTime)
      else area.put .current (some target)

/-- Without a current target, and with a default, the current target becomes an empty value. -/
def tomorrowTurn (area : AreaTargets) (periods : Option (List PwrPeriod)) : AreaTargets :=
  if (area .next).isSome then area
  else match area .current with
    | some target => area.put .next (findPeriod periods target.endTime)
    | none =>
        if (area .default).isSome then area.put .current (some .empty)
        else area.put .next (findPeriod periods "00:00:00")

@[simp]
theorem put_none (kind : TargetKind) (area : AreaTargets) : area.put kind none = area := rfl

@[simp]
theorem put_self (kind : TargetKind) (target : FeatureValue) (area : AreaTargets) :
    area.put kind (some target) kind = some target := by
  simp [put]

theorem put_apply (kind other : TargetKind) (target : Option FeatureValue) (area : AreaTargets) :
    area.put kind target other = if other = kind then target.or (area other) else area other := by
  cases target with
  | none => simp
  | some target => simp [put, Function.update_apply]

theorem put_of_ne {kind other : TargetKind} (hne : other ≠ kind) (target : Option FeatureValue)
    (area : AreaTargets) : area.put kind target other = area other := by
  rw [put_apply, if_neg hne]

section Fields

variable {ctime : String} {area : AreaTargets} {periods : Option (List PwrPeriod)}

/-- The target in the same entry that follows the one of the time; at the end the same again. -/
def defaultFollowing (ctime : String) (periods : Option (List PwrPeriod)) : Option FeatureValue :=
  (findPeriod periods ctime).map fun target => (findPeriod periods target.endTime).getD target

/-- The target of the same day that follows the one of the time. -/
def todayFollowing (ctime : String) (periods : Option (List PwrPeriod)) : Option FeatureValue :=
  (findPeriod periods ctime).bind fun target =>
    if target.endTime < "24:00:00" then findPeriod periods target.endTime else none

/-- The first target of the entries of the day that follows. -/
def tomorrowFollowing (area : AreaTargets) (entries : List (Option (List PwrPeriod))) :
    Option FeatureValue :=
  match area .current with
  | some target => entries.findSome? (findPeriod · target.endTime)
  | none =>
      if (area .default).isSome then none else entries.findSome? (findPeriod · "00:00:00")

theorem defaultTurn_apply (kind : TargetKind) :
    area.defaultTurn ctime periods kind =
      match kind with
      | .default => (findPeriod periods ctime).or (area .default)
      | .ndfault => (defaultFollowing ctime periods).or (area .ndfault)
      | .current => area .current
      | .next => area .next := by
  rw [defaultTurn, defaultFollowing]
  cases findPeriod periods ctime <;> cases kind <;> simp [put_apply]

theorem todayTurn_apply (kind : TargetKind) :
    area.todayTurn ctime periods kind =
      match kind with
      | .current => (findPeriod periods ctime).or (area .current)
      | .next => (todayFollowing ctime periods).or (area .next)
      | .default => area .default
      | .ndfault => area .ndfault := by
  rw [todayTurn, todayFollowing]
  cases findPeriod periods ctime with
  | none => cases kind <;> simp
  | some target =>
      rw [Option.bind_some]
      by_cases hend : target.endTime < "24:00:00"
      · rw [if_pos hend]
        simp only [if_pos hend]
        cases kind <;> simp [put_apply]
      · rw [if_neg hend]
        simp only [if_neg hend]
        cases kind <;> simp [put_apply]

theorem foldl_apply {α : Type*} {turn : AreaTargets → α → AreaTargets} {kind : TargetKind}
    {f : α → Option FeatureValue}
    (hturn : ∀ area item, turn area item kind = (f item).or (area kind))
    (items : List α) (area : AreaTargets) :
    items.foldl turn area kind = (lastSome f items).or (area kind) := by
  rw [← foldl_or]
  exact (List.foldl_hom (fun area : AreaTargets => area kind)
    fun area item => (hturn area item).symm).symm

theorem foldl_apply_of_same {α : Type*} {turn : AreaTargets → α → AreaTargets} {kind : TargetKind}
    (hturn : ∀ area item, turn area item kind = area kind) (items : List α) (area : AreaTargets) :
    items.foldl turn area kind = area kind := by
  induction items generalizing area with
  | nil => rfl
  | cons item items ih => rw [List.foldl_cons, ih, hturn]

theorem foldl_defaultTurn_apply (entries : List (Option (List PwrPeriod))) (kind : TargetKind) :
    entries.foldl (defaultTurn ctime) area kind =
      match kind with
      | .default => (lastSome (findPeriod · ctime) entries).or (area .default)
      | .ndfault => (lastSome (defaultFollowing ctime) entries).or (area .ndfault)
      | .current => area .current
      | .next => area .next := by
  cases kind with
  | current => exact foldl_apply_of_same (fun _ _ => defaultTurn_apply .current) entries area
  | next => exact foldl_apply_of_same (fun _ _ => defaultTurn_apply .next) entries area
  | default =>
      exact foldl_apply (f := (findPeriod · ctime)) (fun _ _ => defaultTurn_apply .default) entries
        area
  | ndfault =>
      exact foldl_apply (f := defaultFollowing ctime) (fun _ _ => defaultTurn_apply .ndfault)
        entries area

theorem foldl_todayTurn_apply (entries : List (Option (List PwrPeriod))) (kind : TargetKind) :
    entries.foldl (todayTurn ctime) area kind =
      match kind with
      | .current => (lastSome (findPeriod · ctime) entries).or (area .current)
      | .next => (lastSome (todayFollowing ctime) entries).or (area .next)
      | .default => area .default
      | .ndfault => area .ndfault := by
  cases kind with
  | current =>
      exact foldl_apply (f := (findPeriod · ctime)) (fun _ _ => todayTurn_apply .current) entries
        area
  | next =>
      exact foldl_apply (f := todayFollowing ctime) (fun _ _ => todayTurn_apply .next) entries area
  | default => exact foldl_apply_of_same (fun _ _ => todayTurn_apply .default) entries area
  | ndfault => exact foldl_apply_of_same (fun _ _ => todayTurn_apply .ndfault) entries area

theorem tomorrowTurn_of_next (hnext : (area .next).isSome) : area.tomorrowTurn periods = area := by
  rw [tomorrowTurn, if_pos hnext]

theorem foldl_tomorrowTurn_of_next (hnext : (area .next).isSome)
    (entries : List (Option (List PwrPeriod))) : entries.foldl tomorrowTurn area = area := by
  induction entries with
  | nil => rfl
  | cons periods entries ih => rw [List.foldl_cons, tomorrowTurn_of_next hnext, ih]

/-- Turns that look for the next target at a fixed time. -/
theorem foldl_tomorrowTurn_of_search {endTime : String}
    (hturn : ∀ periods, area.tomorrowTurn periods = area.put .next (findPeriod periods endTime))
    (entries : List (Option (List PwrPeriod))) :
    entries.foldl tomorrowTurn area =
      area.put .next (entries.findSome? (findPeriod · endTime)) := by
  induction entries with
  | nil => rfl
  | cons periods entries ih =>
      rw [List.foldl_cons, hturn, List.findSome?_cons]
      cases findPeriod periods endTime with
      | none => exact ih
      | some target => exact foldl_tomorrowTurn_of_next (by simp) entries

theorem foldl_tomorrowTurn_of_current {target : FeatureValue} (hnext : area .next = none)
    (hcurrent : area .current = some target) (entries : List (Option (List PwrPeriod))) :
    entries.foldl tomorrowTurn area =
      area.put .next (entries.findSome? (findPeriod · target.endTime)) := by
  refine foldl_tomorrowTurn_of_search (fun periods => ?_) entries
  rw [tomorrowTurn, hnext, hcurrent]
  rfl

/-- The first entry leaves an empty value, behind which no search finds a target. -/
theorem foldl_tomorrowTurn_of_default (hnext : area .next = none) (hcurrent : area .current = none)
    (hdefault : (area .default).isSome) (periods : Option (List PwrPeriod))
    (entries : List (Option (List PwrPeriod))) :
    (periods :: entries).foldl tomorrowTurn area = area.put .current (some .empty) := by
  have hturn : area.tomorrowTurn periods = area.put .current (some .empty) := by
    rw [tomorrowTurn, hnext, hcurrent]
    exact if_pos hdefault
  have hsearch : entries.findSome? (findPeriod · FeatureValue.empty.endTime) = none :=
    List.findSome?_eq_none_iff.mpr fun periods _ => findPeriod_empty periods
  have hstill : area.put .current (some .empty) .next = none := by
    rw [put_of_ne (by decide), hnext]
  rw [List.foldl_cons, hturn, foldl_tomorrowTurn_of_current hstill (put_self _ _ _), hsearch,
    put_none]

theorem foldl_tomorrowTurn_of_none (hnext : area .next = none) (hcurrent : area .current = none)
    (hdefault : ¬(area .default).isSome) (entries : List (Option (List PwrPeriod))) :
    entries.foldl tomorrowTurn area =
      area.put .next (entries.findSome? (findPeriod · "00:00:00")) := by
  refine foldl_tomorrowTurn_of_search (fun periods => ?_) entries
  rw [tomorrowTurn, hnext, hcurrent]
  exact if_neg hdefault

/-- Whether the turns of the day that follows put an empty value in the place of the current
target. -/
def BlankedBy (area : AreaTargets) (entries : List (Option (List PwrPeriod))) : Prop :=
  area .next = none ∧ area .current = none ∧ (area .default).isSome ∧ entries ≠ []

instance (area : AreaTargets) (entries : List (Option (List PwrPeriod))) :
    Decidable (area.BlankedBy entries) :=
  inferInstanceAs (Decidable (_ ∧ _ ∧ _ ∧ _))

theorem foldl_tomorrowTurn (area : AreaTargets) (entries : List (Option (List PwrPeriod))) :
    entries.foldl tomorrowTurn area =
      if (area .next).isSome then area
      else if area.BlankedBy entries then area.put .current (some .empty)
      else area.put .next (area.tomorrowFollowing entries) := by
  by_cases hnext : (area .next).isSome
  · rw [if_pos hnext, foldl_tomorrowTurn_of_next hnext]
  rw [if_neg hnext]
  rw [Option.not_isSome_iff_eq_none] at hnext
  cases hcurrent : area .current with
  | some target =>
      rw [if_neg fun hblanked => Option.some_ne_none target (hcurrent.symm.trans hblanked.2.1),
        foldl_tomorrowTurn_of_current hnext hcurrent, tomorrowFollowing, hcurrent]
  | none =>
      by_cases hdefault : (area .default).isSome
      · cases entries with
        | nil => simp [BlankedBy, tomorrowFollowing, hcurrent]
        | cons periods entries =>
            rw [if_pos ⟨hnext, hcurrent, hdefault, List.cons_ne_nil _ _⟩,
              foldl_tomorrowTurn_of_default hnext hcurrent hdefault]
      · rw [if_neg fun hblanked => hdefault hblanked.2.2.1,
          foldl_tomorrowTurn_of_none hnext hcurrent hdefault, tomorrowFollowing, hcurrent]
        simp only [if_neg hdefault]

end Fields

end AreaTargets

namespace PwrProgram

open TargetKind

/-! ## The turns on the record of a name -/

section View

variable {targets : Targets} {name other : String}

/-- The record of a name. -/
def view (targets : Targets) (name : String) : AreaTargets :=
  fun kind => targets.find? (kind.key name)

theorem contains_key (targets : Targets) (kind : TargetKind) (name : String) :
    targets.contains (kind.key name) = (view targets name kind).isSome := rfl

theorem view_insert_of_ne (hname : name ≠ other) (kind : TargetKind) (target : FeatureValue) :
    view (targets.insert (kind.key name) target) other = view targets other := by
  funext wanted
  exact SortedMap.find?_insert_of_ne _ _ fun hkey => hname (key_inj.mp hkey).2

theorem view_insert (kind : TargetKind) (target : FeatureValue) :
    view (targets.insert (kind.key name) target) name =
      (view targets name).put kind (some target) := by
  funext wanted
  by_cases hkind : kind = wanted
  · subst hkind
    rw [AreaTargets.put_self]
    exact SortedMap.find?_insert_self _ _ _
  · rw [AreaTargets.put_of_ne (Ne.symm hkind)]
    exact SortedMap.find?_insert_of_ne _ _ fun hkey => hkind (key_inj.mp hkey).1

theorem view_getPeriods_of_ne (hname : name ≠ other) (periods : Option (List PwrPeriod))
    (ctime : String) (kind : TargetKind) :
    view (getPeriods periods ctime (kind.key name) targets).2 other = view targets other := by
  rw [getPeriods]
  cases findPeriod periods ctime with
  | none => rfl
  | some target => exact view_insert_of_ne hname kind target

theorem view_getPeriods (periods : Option (List PwrPeriod)) (ctime : String) (kind : TargetKind) :
    view (getPeriods periods ctime (kind.key name) targets).2 name =
      (view targets name).put kind (findPeriod periods ctime) := by
  rw [getPeriods]
  cases findPeriod periods ctime with
  | none => rfl
  | some target => exact view_insert kind target

theorem view_index_of_ne (hname : name ≠ other) (kind : TargetKind) :
    view (index (kind.key name) targets).2 other = view targets other := by
  rw [index]
  split
  · rfl
  · exact view_insert_of_ne hname kind _

theorem view_defaultTurn_of_ne {area : Area} (hname : area.name ≠ other) (ctime : String) :
    view (defaultTurn ctime targets area) other = view targets other := by
  rw [defaultTurn]
  cases area.firstDefault with
  | none => rfl
  | some periods =>
      dsimp only
      split
      · split
        · rw [view_insert_of_ne hname .ndfault, view_index_of_ne hname .default,
            view_getPeriods_of_ne hname _ _ .ndfault, view_index_of_ne hname .default,
            view_getPeriods_of_ne hname _ _ .default]
        · rw [view_getPeriods_of_ne hname _ _ .ndfault, view_index_of_ne hname .default,
            view_getPeriods_of_ne hname _ _ .default]
      · exact view_getPeriods_of_ne hname _ _ .default

theorem view_defaultTurn {area : Area} {periods : Option (List PwrPeriod)}
    (hdefault : area.firstDefault = some periods) (ctime : String) :
    view (defaultTurn ctime targets area) area.name =
      (view targets area.name).defaultTurn ctime periods := by
  rw [defaultTurn, hdefault, AreaTargets.defaultTurn]
  cases htarget : findPeriod periods ctime with
  | none => simp [getPeriods_of_none htarget]
  | some target =>
      cases hfollowing : findPeriod periods target.endTime with
      | none =>
          simp [getPeriods_of_some htarget, getPeriods_of_none hfollowing, hfollowing, view_insert,
            SortedMap.contains_insert]
      | some following =>
          simp [getPeriods_of_some htarget, getPeriods_of_some hfollowing, hfollowing, view_insert]

theorem view_todayTurn_of_ne (hname : name ≠ other) (ctime : String) (wday : ℤ)
    (day : ℤ × Option (List PwrPeriod)) :
    view (todayTurn ctime wday name targets day) other = view targets other := by
  rw [todayTurn]
  split
  · dsimp only
    split
    · split
      · rw [view_getPeriods_of_ne hname _ _ .next, view_index_of_ne hname .current,
          view_getPeriods_of_ne hname _ _ .current]
      · rw [view_index_of_ne hname .current, view_getPeriods_of_ne hname _ _ .current]
    · exact view_getPeriods_of_ne hname _ _ .current
  · rfl

theorem view_todayTurn (ctime : String) (wday : ℤ) (periods : Option (List PwrPeriod)) :
    view (todayTurn ctime wday name targets (wday, periods)) name =
      (view targets name).todayTurn ctime periods := by
  rw [todayTurn, if_pos rfl, AreaTargets.todayTurn]
  cases htarget : findPeriod periods ctime with
  | none => simp [getPeriods_of_none htarget]
  | some target =>
      by_cases hend : target.endTime < "24:00:00"
      · simp [getPeriods_of_some htarget, hend, view_getPeriods, view_insert]
      · simp [getPeriods_of_some htarget, hend, view_insert]

theorem view_tomorrowTurn_of_ne (hname : name ≠ other) (nday : ℤ)
    (day : ℤ × Option (List PwrPeriod)) :
    view (tomorrowTurn nday name targets day) other = view targets other := by
  rw [tomorrowTurn]
  split
  · split
    · rfl
    · split
      · rw [view_getPeriods_of_ne hname _ _ .next, view_index_of_ne hname .current]
      · split
        · rw [view_getPeriods_of_ne hname _ _ .default, view_index_of_ne hname .current]
        · exact view_getPeriods_of_ne hname _ _ .next
  · rfl

/-- The search for the default at the end of the empty value finds nothing. -/
theorem view_tomorrowTurn (nday : ℤ) (periods : Option (List PwrPeriod)) :
    view (tomorrowTurn nday name targets (nday, periods)) name =
      (view targets name).tomorrowTurn periods := by
  rw [tomorrowTurn, if_pos rfl, AreaTargets.tomorrowTurn]
  rw [contains_key, contains_key, contains_key]
  by_cases hnext : (view targets name next).isSome
  · rw [if_pos hnext, if_pos hnext]
  · rw [if_neg hnext, if_neg hnext]
    obtain hcurrent | ⟨target, hcurrent⟩ := Option.eq_none_or_eq_some (view targets name current)
    · have hnone : ¬(view targets name current).isSome := by simp [hcurrent]
      rw [if_neg hnone, hcurrent]
      by_cases hdefault : (view targets name .default).isSome
      · rw [if_pos hdefault, if_pos hdefault, index_of_none hcurrent]
        change view (getPeriods periods "" _ (targets.insert (current.key name) .empty)).2 name = _
        rw [getPeriods_of_none (findPeriod_empty periods)]
        exact view_insert _ _
      · rw [if_neg hdefault, if_neg hdefault]
        exact view_getPeriods _ _ _
    · have hsome : (view targets name current).isSome := by simp [hcurrent]
      rw [if_pos hsome, hcurrent, index_of_some hcurrent]
      exact view_getPeriods _ _ _

end View

section Loops

variable {targets : Targets} {name : String} {doc : List Area}

/-- The default of each area of a name. -/
def defaultsOf (doc : List Area) (name : String) : List (Option (List PwrPeriod)) :=
  doc.flatMap fun area => if area.name = name then area.firstDefault.toList else []

/-- The entries of a weekday in the areas of a name. -/
def entriesOf (doc : List Area) (name : String) (wday : ℤ) : List (Option (List PwrPeriod)) :=
  doc.flatMap fun area =>
    if area.name = name then
      (area.days.getD []).flatMap fun day => if day.1 = wday then [day.2] else []
    else []

theorem view_foldl {α β : Type*} {turn : Targets → α → Targets}
    {change : AreaTargets → β → AreaTargets} {pick : α → List β}
    (hturn : ∀ targets item,
      view (turn targets item) name = (pick item).foldl change (view targets name))
    (items : List α) :
    view (items.foldl turn targets) name =
      (items.flatMap pick).foldl change (view targets name) := by
  rw [List.foldl_flatMap]
  exact (List.foldl_hom (view · name) fun targets item => (hturn targets item).symm).symm

theorem view_foldl_of_same {α : Type*} {turn : Targets → α → Targets}
    (hturn : ∀ targets item, view (turn targets item) name = view targets name)
    (items : List α) : view (items.foldl turn targets) name = view targets name := by
  induction items generalizing targets with
  | nil => rfl
  | cons item items ih => rw [List.foldl_cons, ih, hturn]

theorem view_getDefault (ctime : String) :
    view (getDefault doc ctime targets) name =
      (defaultsOf doc name).foldl (AreaTargets.defaultTurn ctime) (view targets name) := by
  refine view_foldl (fun targets area => ?_) doc
  by_cases hname : area.name = name
  · subst hname
    rw [if_pos rfl]
    cases hdefault : area.firstDefault with
    | none => rw [defaultTurn, hdefault]; rfl
    | some periods => exact view_defaultTurn hdefault ctime
  · rw [if_neg hname]
    exact view_defaultTurn_of_ne hname ctime

theorem schedule_cons (area : Area) (rest : List Area) :
    schedule (area :: rest) = area.days.bind fun days =>
      (schedule rest).map ((area.name, days) :: ·) := by
  rw [schedule, List.mapM_cons]
  cases area.days with
  | none => rfl
  | some days =>
      cases hrest : schedule rest with
      | none => simp_all [schedule]
      | some areas => simp_all [schedule]

theorem schedule_isSome_iff : (schedule doc).isSome ↔ ∀ area ∈ doc, area.days.isSome := by
  induction doc with
  | nil => simp [schedule]
  | cons area rest ih =>
      rw [schedule_cons, List.forall_mem_cons, ← ih]
      cases area.days with
      | none => simp
      | some days => simp

theorem schedule_eq {areas : List (String × List (ℤ × Option (List PwrPeriod)))}
    (h : schedule doc = some areas) :
    areas = doc.map fun area => (area.name, area.days.getD []) := by
  induction doc generalizing areas with
  | nil => simpa [schedule] using h.symm
  | cons area rest ih =>
      rw [schedule_cons, Option.bind_eq_some_iff] at h
      obtain ⟨days, hdays, h⟩ := h
      obtain ⟨others, hothers, rfl⟩ := Option.map_eq_some_iff.mp h
      rw [List.map_cons, hdays, ← ih hothers, Option.getD_some]

/-- A loop over the days of each area, whose turns leave other names and other weekdays alone. -/
theorem view_loop (turn : String → Targets → ℤ × Option (List PwrPeriod) → Targets)
    {change : AreaTargets → Option (List PwrPeriod) → AreaTargets} {wday : ℤ}
    (hname : ∀ area targets day, area ≠ name →
      view (turn area targets day) name = view targets name)
    (hday : ∀ targets day, day.1 ≠ wday → turn name targets day = targets)
    (hturn : ∀ targets periods,
      view (turn name targets (wday, periods)) name = change (view targets name) periods)
    {areas : List (String × List (ℤ × Option (List PwrPeriod)))} (h : schedule doc = some areas)
    (targets : Targets) :
    view (areas.foldl (fun targets area => area.2.foldl (turn area.1) targets) targets) name =
      (entriesOf doc name wday).foldl change (view targets name) := by
  rw [schedule_eq h, List.foldl_map]
  refine view_foldl (fun targets area => ?_) doc
  by_cases harea : area.name = name
  · subst harea
    rw [if_pos rfl]
    refine view_foldl (fun targets day => ?_) _
    by_cases hwday : day.1 = wday
    · subst hwday
      rw [if_pos rfl]
      exact hturn targets day.2
    · rw [if_neg hwday, hday targets day hwday]
      rfl
  · rw [if_neg harea]
    exact view_foldl_of_same (fun targets day => hname area.name targets day harea) _

theorem view_todayLoop {areas : List (String × List (ℤ × Option (List PwrPeriod)))}
    (h : schedule doc = some areas) (ctime : String) (wday : ℤ) (targets : Targets) :
    view (areas.foldl (fun targets area =>
      area.2.foldl (todayTurn ctime wday area.1) targets) targets) name =
      (entriesOf doc name wday).foldl (AreaTargets.todayTurn ctime) (view targets name) := by
  refine view_loop (todayTurn ctime wday) ?_ ?_ ?_ h targets
  · intro area targets day harea
    exact view_todayTurn_of_ne harea ctime wday day
  · intro targets day hday
    exact if_neg hday
  · intro targets periods
    exact view_todayTurn ctime wday periods

theorem view_tomorrowLoop {areas : List (String × List (ℤ × Option (List PwrPeriod)))}
    (h : schedule doc = some areas) (nday : ℤ) (targets : Targets) :
    view (areas.foldl (fun targets area =>
      area.2.foldl (tomorrowTurn nday area.1) targets) targets) name =
      (entriesOf doc name nday).foldl AreaTargets.tomorrowTurn (view targets name) := by
  refine view_loop (tomorrowTurn nday) ?_ ?_ ?_ h targets
  · intro area targets day harea
    exact view_tomorrowTurn_of_ne harea nday day
  · intro targets day hday
    exact if_neg hday
  · intro targets periods
    exact view_tomorrowTurn nday periods

end Loops

/-! ## What a load leaves -/

section Load

variable {doc : List Area} {env : Env} {program : PwrProgram}

/-- The period of today's entry of the name that contains the time. -/
def todayTarget (doc : List Area) (env : Env) (name : String) : Option FeatureValue :=
  lastSome (findPeriod · (getasciitimeday env)) (entriesOf doc name env.localtime.wday)

/-- The default period of the name that contains the time. -/
def defaultTarget (doc : List Area) (env : Env) (name : String) : Option FeatureValue :=
  lastSome (findPeriod · (getasciitimeday env)) (defaultsOf doc name)

/-- The default period that follows. -/
def followingDefault (doc : List Area) (env : Env) (name : String) : Option FeatureValue :=
  lastSome (AreaTargets.defaultFollowing (getasciitimeday env)) (defaultsOf doc name)

/-- The record of a name before the entries of the day that follows. -/
def todayTargets (doc : List Area) (env : Env) (name : String) : AreaTargets
  | .current => todayTarget doc env name
  | .next =>
      lastSome (AreaTargets.todayFollowing (getasciitimeday env))
        (entriesOf doc name env.localtime.wday)
  | .default => defaultTarget doc env name
  | .ndfault => followingDefault doc env name

def tomorrowEntries (doc : List Area) (env : Env) (name : String) :
    List (Option (List PwrPeriod)) :=
  entriesOf doc name (nextDay env.localtime.wday)

/-- The period of the name that follows, of today or of the day that follows. -/
def followingTarget (doc : List Area) (env : Env) (name : String) : Option FeatureValue :=
  (todayTargets doc env name .next).or
    ((todayTargets doc env name).tomorrowFollowing (tomorrowEntries doc env name))

theorem load_isSome_iff (env : Env) : (load doc env).isSome ↔ ∀ area ∈ doc, area.days.isSome := by
  rw [load, Option.isSome_map, getTargets, Option.isSome_map, schedule_isSome_iff]

/-- The record of a name once all turns are made. -/
def loadedTargets (doc : List Area) (env : Env) (name : String) : AreaTargets :=
  (tomorrowEntries doc env name).foldl AreaTargets.tomorrowTurn (todayTargets doc env name)

theorem view_load (h : load doc env = some program) (name : String) :
    view program.targets name = loadedTargets doc env name := by
  obtain ⟨targets, htargets, rfl⟩ := Option.map_eq_some_iff.mp h
  obtain ⟨areas, hareas, rfl⟩ := Option.map_eq_some_iff.mp htargets
  refine (view_tomorrowLoop hareas _ _).trans ?_
  refine congrArg ((tomorrowEntries doc env name).foldl AreaTargets.tomorrowTurn) ?_
  rw [view_todayLoop hareas, view_getDefault]
  funext kind
  cases kind <;>
    simp only [AreaTargets.foldl_todayTurn_apply, AreaTargets.foldl_defaultTurn_apply] <;>
    exact Option.or_none

/-- A name with a default but no target of today, and with an entry for the day that follows. -/
def Blanked (doc : List Area) (env : Env) (name : String) : Prop :=
  todayTarget doc env name = none ∧ (defaultTarget doc env name).isSome ∧
    tomorrowEntries doc env name ≠ []

instance (doc : List Area) (env : Env) (name : String) : Decidable (Blanked doc env name) :=
  inferInstanceAs (Decidable (_ ∧ _ ∧ _))

theorem todayTargets_next_of_none {name : String} (h : todayTarget doc env name = none) :
    todayTargets doc env name .next = none := by
  rw [todayTarget, lastSome_eq_none_iff] at h
  refine (lastSome_eq_none_iff _ _).mpr fun periods hperiods => ?_
  rw [AreaTargets.todayFollowing, h periods hperiods, Option.bind_none]

theorem blankedBy_iff (doc : List Area) (env : Env) (name : String) :
    (todayTargets doc env name).BlankedBy (tomorrowEntries doc env name) ↔ Blanked doc env name :=
  ⟨fun h => h.2, fun h => ⟨todayTargets_next_of_none h.1, h⟩⟩

theorem loadedTargets_current (doc : List Area) (env : Env) (name : String) :
    loadedTargets doc env name .current =
      if Blanked doc env name then some .empty else todayTarget doc env name := by
  rw [loadedTargets, AreaTargets.foldl_tomorrowTurn]
  by_cases hblanked : Blanked doc env name
  · have hby := (blankedBy_iff doc env name).mpr hblanked
    rw [if_neg (by simp [hby.1]), if_pos hby, if_pos hblanked, AreaTargets.put_self]
  · rw [if_neg (mt (blankedBy_iff doc env name).mp hblanked), if_neg hblanked]
    split
    · rfl
    · exact AreaTargets.put_of_ne (by decide) _ _

theorem loadedTargets_next (doc : List Area) (env : Env) (name : String) :
    loadedTargets doc env name .next = followingTarget doc env name := by
  rw [loadedTargets, AreaTargets.foldl_tomorrowTurn, followingTarget]
  by_cases hnext : (todayTargets doc env name .next).isSome
  · rw [if_pos hnext, Option.or_of_isSome hnext]
  rw [if_neg hnext]
  rw [Option.not_isSome_iff_eq_none] at hnext
  rw [hnext, Option.none_or]
  split
  next hby =>
    rw [AreaTargets.put_of_ne (by decide), hnext, AreaTargets.tomorrowFollowing, hby.2.1]
    exact (if_pos hby.2.2.1).symm
  next => rw [AreaTargets.put_apply, if_pos rfl, hnext, Option.or_none]

theorem loadedTargets_default (doc : List Area) (env : Env) (name : String) :
    loadedTargets doc env name .default = defaultTarget doc env name := by
  rw [loadedTargets, AreaTargets.foldl_tomorrowTurn]
  split
  · rfl
  · split <;> exact AreaTargets.put_of_ne (by decide) _ _

end Load

end PwrProgram

end Hat
