import Hat.Minilibs.PwrTargets

/-!
# The readers of the targets

`getCurrentTarget` and `getNextTarget` look a name up and, where it has no target, look for an
area that is called default.  The default of the name itself is kept under two other prefixes,
which no reader uses.
-/

namespace Hat

open Hat.Hsrv

namespace PwrProgram

open TargetKind

variable {doc : List Area} {env : Env} {program : PwrProgram}

theorem getCurrentTarget_eq (h : load doc env = some program) (name : String) :
    program.getCurrentTarget name =
      ((loadedTargets doc env name .current).or
        (loadedTargets doc env "default" .current)).getD .offValue := by
  rw [← view_load h, ← view_load h]
  rw [getCurrentTarget, view]
  cases program.targets.find? (current.key name) <;> rfl

theorem getNextTarget_eq (h : load doc env = some program) (name : String) :
    program.getNextTarget name =
      ((loadedTargets doc env name .next).or
        (loadedTargets doc env "default" .next)).getD .offValue := by
  rw [← view_load h, ← view_load h]
  rw [getNextTarget, view]
  cases program.targets.find? (next.key name) <;> rfl

/-- What a reader is to answer: the target of the name, or else its default, or else off. -/
def servedTarget (target default : Option FeatureValue) : FeatureValue :=
  (target.or default).getD .offValue

structure Served (doc : List Area) (env : Env) (name : String) (program : PwrProgram) : Prop where
  current : program.getCurrentTarget name =
    servedTarget (todayTarget doc env name) (defaultTarget doc env name)
  next : program.getNextTarget name =
    servedTarget (followingTarget doc env name) (followingDefault doc env name)

/-- The readers answer so after a load of the document, and after an update under it. -/
structure ServedAfterwards (doc : List Area) (env : Env) (name : String) : Prop where
  load : ∃ program, load doc env = some program ∧ Served doc env name program
  update : ∀ earlier : PwrProgram, earlier.doc = doc →
    ∃ program, earlier.update env = some program ∧ Served doc env name program

/-- What an area called default leaves in the place that the readers look at. -/
def sharedCurrent (doc : List Area) (env : Env) : Option FeatureValue :=
  if Blanked doc env "default" then some .empty else todayTarget doc env "default"

/-- A target of today; or no default that an empty value would hide, and in the shared place
what the default says. -/
def CurrentReached (doc : List Area) (env : Env) (name : String) : Prop :=
  (todayTarget doc env name).isSome ∨
    ¬Blanked doc env name ∧
      (sharedCurrent doc env).getD .offValue = (defaultTarget doc env name).getD .offValue

def NextReached (doc : List Area) (env : Env) (name : String) : Prop :=
  (followingTarget doc env name).isSome ∨
    (followingTarget doc env "default").getD .offValue =
      (followingDefault doc env name).getD .offValue

theorem beginTime_of_findPeriod {periods : Option (List PwrPeriod)} {ctime : String}
    {target : FeatureValue} (h : findPeriod periods ctime = some target) :
    target.beginTime ≠ "" := by
  obtain ⟨period, -, rfl⟩ := Option.map_eq_some_iff.mp h
  exact period.start_ne

theorem beginTime_defaultTarget {name : String} {target : FeatureValue}
    (h : defaultTarget doc env name = some target) : target.beginTime ≠ "" := by
  obtain ⟨periods, -, hperiods⟩ := List.exists_of_findSome?_eq_some h
  exact beginTime_of_findPeriod hperiods

theorem getCurrentTarget_iff (h : load doc env = some program) (name : String) :
    program.getCurrentTarget name =
        servedTarget (todayTarget doc env name) (defaultTarget doc env name) ↔
      CurrentReached doc env name := by
  rw [getCurrentTarget_eq h, loadedTargets_current, loadedTargets_current, servedTarget,
    CurrentReached, sharedCurrent]
  cases htoday : todayTarget doc env name with
  | some target =>
      have hkept : ¬Blanked doc env name := fun hblanked =>
        Option.some_ne_none target (htoday.symm.trans hblanked.1)
      simp [hkept]
  | none =>
      by_cases hblanked : Blanked doc env name
      · obtain ⟨target, htarget⟩ := Option.isSome_iff_exists.mp hblanked.2.1
        have hne : FeatureValue.empty ≠ target := by
          rintro rfl
          exact beginTime_defaultTarget htarget rfl
        simp [hblanked, htarget, hne]
      · simp [hblanked]

theorem getNextTarget_iff (h : load doc env = some program) (name : String) :
    program.getNextTarget name =
        servedTarget (followingTarget doc env name) (followingDefault doc env name) ↔
      NextReached doc env name := by
  rw [getNextTarget_eq h, loadedTargets_next, loadedTargets_next, servedTarget, NextReached]
  cases followingTarget doc env name with
  | some target => simp
  | none => simp

theorem served_iff (h : load doc env = some program) (name : String) :
    Served doc env name program ↔ CurrentReached doc env name ∧ NextReached doc env name := by
  rw [← getCurrentTarget_iff h, ← getNextTarget_iff h]
  exact ⟨fun hserved => ⟨hserved.current, hserved.next⟩, fun ⟨hcurrent, hnext⟩ => ⟨hcurrent, hnext⟩⟩

theorem exists_served_iff (doc : List Area) (env : Env) (name : String) :
    (∃ program, load doc env = some program ∧ Served doc env name program) ↔
      (∀ area ∈ doc, area.days.isSome) ∧ CurrentReached doc env name ∧
        NextReached doc env name := by
  rw [← load_isSome_iff env, Option.isSome_iff_exists]
  constructor
  · rintro ⟨program, hload, hserved⟩
    exact ⟨⟨program, hload⟩, (served_iff hload name).mp hserved⟩
  · rintro ⟨⟨program, hload⟩, hreached⟩
    exact ⟨program, hload, (served_iff hload name).mpr hreached⟩

/-- The readers are right if and only if each area keeps its defaults before its days, and each
of them finds a target of the name or, in the shared place, what the default says. -/
theorem servedAfterwards_iff (doc : List Area) (env : Env) (name : String) :
    ServedAfterwards doc env name ↔
      (∀ area ∈ doc, area.days.isSome) ∧ CurrentReached doc env name ∧
        NextReached doc env name := by
  rw [← exists_served_iff]
  constructor
  · intro h
    exact h.load
  · intro h
    refine ⟨h, ?_⟩
    rintro earlier rfl
    exact h

/-- The program that the installation writes: one area with a default for the whole day. -/
def allDay : List Area :=
  [⟨"ALL", [.default (some [⟨"00:00:00", "24:00:00", some 20, by decide, by decide⟩])]⟩]

def mondayMorning : Env where
  gettime := 1717400231
  gettime_nonneg := by norm_num
  localtime :=
    { sec := 11, min := 37, hour := 9, mday := 3, mon := 6, year := 2024, wday := 1
      sec_le := by decide
      min_lt := by decide
      hour_lt := by decide }
  unsetInt := 0
  unsetDouble := 0

/-- The area has a default of twenty degrees and is served as off. -/
theorem not_served_allDay : ¬ServedAfterwards allDay mondayMorning "ALL" := by
  intro h
  obtain ⟨program, hload, hserved⟩ := h.load
  have hreached := (getCurrentTarget_iff hload "ALL").mp hserved.current
  have hhidden : ¬CurrentReached allDay mondayMorning "ALL" := by
    rw [CurrentReached]
    decide +kernel
  exact hhidden hreached

end PwrProgram

end Hat
