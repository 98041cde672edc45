import Hat.Manager.WindowCalls

/-!
# Windows from construction on

The calls on the windows of rules and of timed rules, from a file and whatever the memory of a
new object holds.
-/

namespace Hat

open Hat.Hsrv

/-- What is required of a file and of the calls that follow: the construction computes its
seconds without overflow, and the object is consistent at once and after every call. -/
structure WindowClass.SoundRun {R : Type} (cls : WindowClass R) (file : MParams)
    (start : WindowRun R) (calls : List WindowCall) : Prop where
  computable : (checkedSecond (WindowCall.stored.texts file).1).isSome = true ∧
    (checkedSecond (WindowCall.stored.texts file).2).isSome = true
  consistent : cls.Consistent start
  sound : Machine.Along (Machine.total cls.next) cls.Sound start calls

/-- The texts of the file and of all calls are small, and every start can be read back. -/
structure WindowClass.CarefulRun {R : Type} (cls : WindowClass R) (file : MParams)
    (start : WindowRun R) (calls : List WindowCall) : Prop where
  from_small : SmallFields (WindowCall.stored.texts file).1
  to_small : SmallFields (WindowCall.stored.texts file).2
  careful : Machine.Along (Machine.total cls.next) cls.Careful start calls

theorem WindowClass.Lawful.soundRun_iff {R : Type} {cls : WindowClass R} (hcls : cls.Lawful)
    (file : MParams) {start : WindowRun R} (hkept : cls.Kept start) (calls : List WindowCall) :
    cls.SoundRun file start calls ↔ cls.CarefulRun file start calls := by
  have halong := hcls.sound_along_iff hkept calls
  constructor
  · intro hsound
    exact ⟨(isSome_checkedSecond_iff _).mp hsound.computable.1,
      (isSome_checkedSecond_iff _).mp hsound.computable.2, halong.mp hsound.sound⟩
  · intro hcareful
    exact ⟨⟨(isSome_checkedSecond_iff _).mpr hcareful.from_small,
      (isSome_checkedSecond_iff _).mpr hcareful.to_small⟩,
      hcls.consistent_of_kept hkept, halong.mpr hcareful.careful⟩

namespace Rule

def window (rule : Rule) : TimeWindow := ⟨rule.params, rule.fromTime, rule.toTime⟩

def callWindow (call : WindowCall) (rule : Rule) : Bool × Rule :=
  match call with
  | .stored => rule.setStoredValidityTime
  | .given asfrom asto => rule.setValidityTime asfrom asto

theorem setValidityTime_of_invalid {asfrom asto : String}
    (hinvalid : ¬ValidWindow (string2second asfrom) (string2second asto)) (rule : Rule) :
    rule.setValidityTime asfrom asto = (false, { rule with midnight := 86400 }) := by
  simp only [setValidityTime, string2second_midnight]
  exact if_neg fun h => hinvalid ⟨h.1, h.2.1, h.2.2.1, h.2.2.2⟩

/-- Both overloads validate the texts of the call. -/
theorem callWindow_eq (call : WindowCall) (rule : Rule) :
    rule.callWindow call = rule.setValidityTime (call.texts rule.params).1
      (call.texts rule.params).2 := by
  cases call <;> rfl

def windowClass : WindowClass Rule where
  window := window
  call := callWindow
  Unrestricted := fun rule => ∀ env, (rule.isActive env).1 = true
  Unset := fun rule => rule.fromTime < 0 ∧ ¬rule.window.Accepts .stored

theorem windowClass_lawful : windowClass.Lawful where
  accepted := by
    intro rule call haccepts
    have hcall := (callWindow_eq call rule).trans (setValidityTime_of_valid haccepts rule)
    exact ⟨congrArg Prod.fst hcall, congrArg (fun result => result.2.window) hcall⟩
  refused := by
    intro rule call hrefused
    have hcall := (callWindow_eq call rule).trans (setValidityTime_of_invalid hrefused rule)
    refine ⟨congrArg Prod.fst hcall, congrArg (fun result => result.2.window) hcall, ?_⟩
    intro hunset
    show (rule.callWindow call).2.fromTime < 0 ∧ ¬(rule.callWindow call).2.window.Accepts .stored
    rw [hcall]
    exact hunset
  unrestricted := by
    intro rule hunset env
    have hcall := (callWindow_eq .stored rule).trans (setValidityTime_of_invalid hunset.2 rule)
    have hstored : rule.setStoredValidityTime = (false, { rule with midnight := 86400 }) := hcall
    rw [isActive, if_pos (Or.inr hunset.1), hstored, isInWindow, if_pos (Or.inl hunset.1)]

/-- The rule as constructed, and whether construction has accepted its window. -/
def windowStart (env : Env) (memory : RuleMemory) (unloaded : MParams) (nm : String) :
    WindowRun Rule :=
  ⟨new env memory unloaded nm, (unset env memory unloaded nm).setStoredValidityTime.1⟩

theorem window_new (env : Env) (memory : RuleMemory) (unloaded : MParams) (nm : String) :
    (new env memory unloaded nm).window =
      (unset env memory unloaded nm).setStoredValidityTime.2.window := by
  simp only [new, window]

/-- A rule with the window that a call on the stored attributes leaves is consistent. -/
theorem kept_of_window {rule start : Rule} (hunset : start.fromTime < 0)
    (hwindow : rule.window = start.setStoredValidityTime.2.window) :
    windowClass.Kept ⟨rule, start.setStoredValidityTime.1⟩ := by
  by_cases haccepts : start.window.Accepts .stored
  · have hset : start.setStoredValidityTime.2.window = start.window.set .stored :=
      (windowClass_lawful.accepted start .stored haccepts).2
    refine Or.inl ?_
    show rule.window.Denoted
    rw [hwindow, hset]
    exact (TimeWindow.denoted_set_iff haccepts).mpr (TimeWindow.readable_stored _)
  · obtain ⟨hrejected, hsame, _⟩ := windowClass_lawful.refused start .stored haccepts
    have hstill : rule.window = start.window := hwindow.trans hsame
    refine Or.inr ⟨hrejected, ?_⟩
    show rule.window.fromTime < 0 ∧ ¬rule.window.Accepts .stored
    rw [hstill]
    exact ⟨hunset, haccepts⟩

theorem kept_windowStart (env : Env) (memory : RuleMemory) (unloaded : MParams) (nm : String) :
    windowClass.Kept (windowStart env memory unloaded nm) := by
  have hunset : (unset env memory unloaded nm).fromTime < 0 := by
    have hfrom : (unset env memory unloaded nm).fromTime = -1 := rfl
    rw [hfrom]
    decide
  exact kept_of_window hunset (window_new env memory unloaded nm)

end Rule

namespace TimedRule

def window (rule : TimedRule) : TimeWindow := ⟨rule.params, rule.fromTime, rule.toTime⟩

def callWindow (call : WindowCall) (rule : TimedRule) : Bool × TimedRule :=
  match call with
  | .stored => rule.setStoredValidityTime
  | .given asfrom asto => rule.setValidityTime asfrom asto

theorem setValidityTime_of_invalid {asfrom asto : String}
    (hinvalid : ¬ValidWindow (string2second asfrom) (string2second asto)) (rule : TimedRule) :
    rule.setValidityTime asfrom asto = (false, { rule with midnight := 86400 }) := by
  simp only [setValidityTime, string2second_midnight]
  exact if_neg fun h => hinvalid ⟨h.1, h.2.1, h.2.2.1, h.2.2.2⟩

theorem callWindow_eq (call : WindowCall) (rule : TimedRule) :
    rule.callWindow call = rule.setValidityTime (call.texts rule.params).1
      (call.texts rule.params).2 := by
  cases call <;> rfl

/-- The range test holds at every time of day. -/
def AllDay (fromTime toTime : ℤ) : Prop :=
  ∀ env : Env, isInRange (daysecond env.localtime) fromTime toTime = true

def windowClass : WindowClass TimedRule where
  window := window
  call := callWindow
  Unrestricted := fun rule => AllDay rule.fromTime rule.toTime
  Unset := fun rule => AllDay rule.fromTime rule.toTime

theorem windowClass_lawful : windowClass.Lawful where
  accepted := by
    intro rule call haccepts
    have hcall := (callWindow_eq call rule).trans (setValidityTime_of_valid haccepts rule)
    exact ⟨congrArg Prod.fst hcall, congrArg (fun result => result.2.window) hcall⟩
  refused := by
    intro rule call hrefused
    have hcall := (callWindow_eq call rule).trans (setValidityTime_of_invalid hrefused rule)
    refine ⟨congrArg Prod.fst hcall, congrArg (fun result => result.2.window) hcall, ?_⟩
    intro hunset
    show AllDay (rule.callWindow call).2.fromTime (rule.callWindow call).2.toTime
    rw [hcall]
    exact hunset
  unrestricted := fun _ hunset => hunset

/-- The bounds that leave a timed rule open all day: both negative, or the whole day. -/
def OpenBounds (fromTime toTime : ℤ) : Prop :=
  (fromTime < 0 ∧ toTime < 0) ∨ (fromTime ≤ 0 ∧ 86400 ≤ toTime)

theorem allDay_iff (fromTime toTime : ℤ) : AllDay fromTime toTime ↔ OpenBounds fromTime toTime := by
  have hrange : ∀ t, isInRange t fromTime toTime = true ↔
      (fromTime < t ∧ toTime < 0) ∨ (fromTime ≤ t ∧ t ≤ toTime) := by
    intro t
    rw [isInRange]
    split
    · rename_i hopen
      simp [hopen]
    · rename_i hbounded
      rw [decide_eq_true_iff, or_iff_right hbounded]
  constructor
  · intro hallday
    have hfirst := (hrange _).mp (hallday
      { firstNight with localtime := ⟨0, 0, 0, 1, 1, 1970, 4, by decide, by decide, by decide⟩ })
    have hlast := (hrange _).mp (hallday
      { firstNight with localtime := ⟨60, 59, 23, 1, 1, 1970, 4, by decide, by decide, by decide⟩ })
    simp only [daysecond] at hfirst hlast
    rw [OpenBounds]
    push_cast at hfirst hlast
    omega
  · intro hopen env
    have hnonneg := daysecond_nonneg env.localtime
    have hle := daysecond_le env.localtime
    rw [hrange]
    rw [OpenBounds] at hopen
    omega

/-- The timed rule before the constructor looks at the validity window. -/
def unset (memory : TimedRuleMemory) (unloaded : MParams) (nm : String) : TimedRule where
  params := unloaded.load
  name := if unloaded.load.get "name" = "" then nm else unloaded.load.get "name"
  aliasName := if unloaded.load.get "alias" = ""
    then unloaded.load.get "set" ++ "_" ++ unloaded.load.get "reset" else unloaded.load.get "alias"
  status := .off
  enablingCondition := []
  behavior := unloaded.load.get "mode"
  reftime := 0
  cTime := 0
  fromTime := memory.fromTime
  toTime := memory.toTime
  cycle := -1
  nextcyclestart := -1
  midnight := 0
  active := .off
  exec := false

/-- The timed rule as constructed, and whether construction has accepted its window. -/
def windowStart (env : Env) (memory : TimedRuleMemory) (unloaded : MParams) (nm : String) :
    WindowRun TimedRule :=
  ⟨new env memory unloaded nm, (unset memory unloaded nm).setStoredValidityTime.1⟩

theorem window_new (env : Env) (memory : TimedRuleMemory) (unloaded : MParams) (nm : String) :
    (new env memory unloaded nm).window =
      (unset memory unloaded nm).setStoredValidityTime.2.window := by
  simp only [new, window, unset]

/-- A timed rule with the window that a call on the stored attributes leaves is consistent
exactly when the call is accepted or the bounds before it are open. -/
theorem kept_iff_of_window {rule start : TimedRule}
    (hwindow : rule.window = start.setStoredValidityTime.2.window) :
    windowClass.Kept ⟨rule, start.setStoredValidityTime.1⟩ ↔
      start.window.Accepts .stored ∨ OpenBounds start.fromTime start.toTime := by
  by_cases haccepts : start.window.Accepts .stored
  · have hset : start.setStoredValidityTime.2.window = start.window.set .stored :=
      (windowClass_lawful.accepted start .stored haccepts).2
    refine iff_of_true (Or.inl ?_) (Or.inl haccepts)
    show rule.window.Denoted
    rw [hwindow, hset]
    exact (TimeWindow.denoted_set_iff haccepts).mpr (TimeWindow.readable_stored _)
  · obtain ⟨hrejected, hsame, _⟩ := windowClass_lawful.refused start .stored haccepts
    have hstill : rule.window = start.window := hwindow.trans hsame
    rw [or_iff_right haccepts, ← allDay_iff]
    constructor
    · rintro (hdenoted | ⟨_, hallday⟩)
      · have hstart : start.window.Denoted := by
          rw [← hstill]
          exact hdenoted
        have hvalid := hstart.valid
        rw [← hstart.from_eq, ← hstart.to_eq] at hvalid
        exact absurd (TimeWindow.accepts_stored_of_valid hvalid) haccepts
      · have hopen : AllDay rule.window.fromTime rule.window.toTime := hallday
        rw [hstill] at hopen
        exact hopen
    · intro hallday
      refine Or.inr ⟨hrejected, ?_⟩
      show AllDay rule.window.fromTime rule.window.toTime
      rw [hstill]
      exact hallday

theorem kept_of_consistent {run : WindowRun TimedRule} (hrun : windowClass.Consistent run) :
    windowClass.Kept run := hrun

end TimedRule

/-- From any file and through any calls, a rule is sound exactly when all texts are small and
can be read back; a timed rule needs a valid window in its file or open bounds in its memory
besides. -/
theorem soundRun_iff_carefulRun (env : Env) (memory : RuleMemory)
    (timedMemory : TimedRuleMemory) (unloaded : MParams) (nm : String) (calls : List WindowCall) :
    (Rule.windowClass.SoundRun unloaded.load (Rule.windowStart env memory unloaded nm) calls ↔
      Rule.windowClass.CarefulRun unloaded.load (Rule.windowStart env memory unloaded nm)
        calls) ∧
    (TimedRule.windowClass.SoundRun unloaded.load
        (TimedRule.windowStart env timedMemory unloaded nm) calls ↔
      ((⟨unloaded.load, timedMemory.fromTime, timedMemory.toTime⟩ : TimeWindow).Accepts .stored ∨
        TimedRule.OpenBounds timedMemory.fromTime timedMemory.toTime) ∧
      TimedRule.windowClass.CarefulRun unloaded.load
        (TimedRule.windowStart env timedMemory unloaded nm) calls) := by
  constructor
  · exact Rule.windowClass_lawful.soundRun_iff unloaded.load
      (Rule.kept_windowStart env memory unloaded nm) calls
  · have hkept := TimedRule.kept_iff_of_window (TimedRule.window_new env timedMemory unloaded nm)
    constructor
    · intro hsound
      have hstart := TimedRule.kept_of_consistent hsound.consistent
      exact ⟨hkept.mp hstart,
        (TimedRule.windowClass_lawful.soundRun_iff unloaded.load hstart calls).mp hsound⟩
    · rintro ⟨hstart, hcareful⟩
      exact (TimedRule.windowClass_lawful.soundRun_iff unloaded.load (hkept.mpr hstart) calls).mpr
        hcareful

/-- A file whose window starts after the end of the day. -/
def lateFile : MParams := ⟨"rule", [⟨"from", "generic", "25:00:00"⟩], none, none⟩

/-- A timed rule over cleared memory is closed but for one second of the day, and a rule
multiplies beyond an `int`. -/
theorem not_soundRun_lateFile :
    ¬TimedRule.windowClass.SoundRun lateFile.load
        (TimedRule.windowStart firstNight ⟨0, 0⟩ lateFile "late") [] ∧
      ¬Rule.windowClass.SoundRun lateFile.load
        (Rule.windowStart firstNight ⟨0, false, false, false, 0⟩ lateFile "late")
        [.given "600000:00:00" "06:00:00"] := by
  constructor
  · intro hsound
    rcases hsound.consistent with hdenoted | ⟨_, hallday⟩
    · exact absurd hdenoted.valid (by decide +kernel)
    · exact absurd (hallday firstNight) (by decide +kernel)
  · intro hsound
    exact absurd hsound.sound.1.computable.1 (by decide +kernel)

end Hat
