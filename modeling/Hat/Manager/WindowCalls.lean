import Hat.Core.Machine
import Hat.Manager.TimedWindow
import Hat.Minilibs.SecondText

/-!
# Calls that set a window

Rules and timed rules validate and store their windows in the same way, but are constructed
differently: a rule starts from an open window, a timed rule from whatever its memory holds.
The part of both that the calls work on is a `TimeWindow`.
-/

namespace Hat

open Hat.Hsrv

instance (fromTime toTime : ℤ) : Decidable (ValidWindow fromTime toTime) :=
  decidable_of_iff (0 ≤ fromTime ∧ fromTime < 86400 ∧ 0 < toTime ∧ toTime ≤ 86400)
    ⟨fun h => ⟨h.1, h.2.1, h.2.2.1, h.2.2.2⟩,
      fun h => ⟨h.from_nonneg, h.from_lt, h.to_pos, h.to_le⟩⟩

/-- The attributes and the window in force. -/
structure TimeWindow where
  params : MParams
  fromTime : ℤ
  toTime : ℤ

/-- A call of `setValidityTime`, with the stored attributes or with two texts. -/
inductive WindowCall
  | stored
  | given (asfrom asto : String)

/-- The two texts that a call validates. -/
def WindowCall.texts (params : MParams) : WindowCall → String × String
  | .stored =>
      (if params.get "from" = "" ∨ params.get "from" = "-INF" then "00:00:00"
        else params.get "from",
      if params.get "to" = "" ∨ params.get "to" = "INF" then "24:00:00" else params.get "to")
  | .given asfrom asto => (asfrom, asto)

namespace TimeWindow

/-- A call is accepted when its texts denote a valid window. -/
def Accepts (window : TimeWindow) (call : WindowCall) : Prop :=
  ValidWindow (string2second (call.texts window.params).1)
    (string2second (call.texts window.params).2)

instance (window : TimeWindow) (call : WindowCall) : Decidable (window.Accepts call) :=
  inferInstanceAs (Decidable (ValidWindow _ _))

/-- What an accepted call makes of a window. -/
def set (window : TimeWindow) (call : WindowCall) : TimeWindow where
  params := ((window.params.add "from" (call.texts window.params).1).add "to"
    (call.texts window.params).2).save
  fromTime := string2second (call.texts window.params).1
  toTime := string2second (call.texts window.params).2

/-- The window is valid, and its bounds are those that the attributes denote. -/
structure Denoted (window : TimeWindow) : Prop where
  valid : ValidWindow window.fromTime window.toTime
  from_eq : string2second (window.params.get "from") = window.fromTime
  to_eq : string2second (window.params.get "to") = window.toTime

/-- No second attribute shows through behind an empty start. -/
def Readable (window : TimeWindow) (call : WindowCall) : Prop :=
  window.Accepts call → (call.texts window.params).1 = "" →
    string2second ((window.params.add "from" "").get "from") = 0

theorem denoted_set_iff {window : TimeWindow} {call : WindowCall}
    (haccepts : window.Accepts call) : (window.set call).Denoted ↔ window.Readable call := by
  obtain ⟨asfrom, asto, htexts⟩ : ∃ asfrom asto, call.texts window.params = (asfrom, asto) :=
    ⟨_, _, rfl⟩
  have hvalid := haccepts
  rw [Accepts, htexts] at hvalid
  have hto : asto ≠ "" := by
    intro hempty
    have hpos : 0 < string2second asto := hvalid.to_pos
    rw [hempty] at hpos
    exact absurd hpos (by decide)
  have hget_to : ((window.params.add "from" asfrom).add "to" asto).save.get "to" = asto := by
    rw [MParams.get_save, MParams.get_add_self _ _ hto]
  have hget_from : ((window.params.add "from" asfrom).add "to" asto).save.get "from" =
      (window.params.add "from" asfrom).get "from" := by
    rw [MParams.get_save, MParams.get_add_of_ne _ _ (by decide)]
  rw [set, Readable, htexts]
  constructor
  · intro hdenoted _ hempty
    have hfrom := hdenoted.from_eq
    dsimp only at hfrom hempty
    rw [hget_from, hempty] at hfrom
    exact hfrom
  · intro hreadable
    refine ⟨hvalid, ?_, ?_⟩
    · dsimp only
      rw [hget_from]
      by_cases hempty : asfrom = ""
      · rw [hempty]
        exact hreadable haccepts hempty
      · rw [MParams.get_add_self _ _ hempty]
    · dsimp only
      rw [hget_to]

theorem readable_stored (window : TimeWindow) : window.Readable .stored := by
  intro _ hempty
  simp only [WindowCall.texts] at hempty
  split at hempty
  · exact absurd hempty (by decide)
  · rename_i hset
    exact absurd (Or.inl hempty) hset

/-- Attributes that denote a window are accepted. -/
theorem accepts_stored_of_valid {window : TimeWindow}
    (hvalid : ValidWindow (string2second (window.params.get "from"))
      (string2second (window.params.get "to"))) : window.Accepts .stored := by
  have hfirst : string2second "00:00:00" = 0 := by decide
  have hto : ¬(window.params.get "to" = "" ∨ window.params.get "to" = "INF") := by
    intro hempty
    have hpos := hvalid.to_pos
    rcases hempty with hempty | hempty
    · rw [hempty] at hpos
      exact absurd hpos (by decide)
    · rw [hempty] at hpos
      exact absurd hpos (by decide)
  rw [Accepts, WindowCall.texts, if_neg hto]
  refine ⟨?_, ?_, hvalid.to_pos, hvalid.to_le⟩
  · split
    · exact hfirst.ge
    · exact hvalid.from_nonneg
  · split
    · rw [hfirst]
      decide
    · exact hvalid.from_lt

end TimeWindow

/-- What a class of rules consists of, as far as its window is concerned: the window, a call
with its result, whether the time of day does not restrict it, and how it is before a window
has been set. -/
structure WindowClass (R : Type) where
  window : R → TimeWindow
  call : WindowCall → R → Bool × R
  Unrestricted : R → Prop
  Unset : R → Prop

/-- An object with a window, and whether a call has been accepted so far. -/
structure WindowRun (R : Type) where
  object : R
  accepted : Bool

namespace WindowClass

variable {R : Type} (cls : WindowClass R)

/-- Texts of a valid window are accepted and stored; others leave the window, and an object
without one as it was. -/
structure Lawful : Prop where
  accepted : ∀ object call, (cls.window object).Accepts call →
    (cls.call call object).1 = true ∧
      cls.window (cls.call call object).2 = (cls.window object).set call
  refused : ∀ object call, ¬(cls.window object).Accepts call →
    (cls.call call object).1 = false ∧ cls.window (cls.call call object).2 = cls.window object ∧
      (cls.Unset object → cls.Unset (cls.call call object).2)
  unrestricted : ∀ object, cls.Unset object → cls.Unrestricted object

def next (run : WindowRun R) (call : WindowCall) : WindowRun R :=
  ⟨(cls.call call run.object).2, run.accepted || (cls.call call run.object).1⟩

/-- The window is the one that the attributes denote, or none has been set and the time of
day does not restrict the object. -/
def Consistent (run : WindowRun R) : Prop :=
  (cls.window run.object).Denoted ∨ (run.accepted = false ∧ cls.Unrestricted run.object)

/-- The texts of a call have seconds. -/
def Computable (run : WindowRun R) (call : WindowCall) : Prop :=
  (checkedSecond (call.texts (cls.window run.object).params).1).isSome = true ∧
    (checkedSecond (call.texts (cls.window run.object).params).2).isSome = true

/-- A rejected call leaves the window and its attributes, a call computes its seconds without
overflow, and what it leaves is consistent. -/
structure Sound (run : WindowRun R) (call : WindowCall) : Prop where
  rejected : (cls.call call run.object).1 = false →
    (cls.window (cls.next run call).object).fromTime = (cls.window run.object).fromTime ∧
    (cls.window (cls.next run call).object).toTime = (cls.window run.object).toTime ∧
    (cls.window (cls.next run call).object).params.get "from" =
      (cls.window run.object).params.get "from" ∧
    (cls.window (cls.next run call).object).params.get "to" =
      (cls.window run.object).params.get "to"
  computable : cls.Computable run call
  consistent : cls.Consistent (cls.next run call)

/-- The texts of a call are small, and its start can be read back. -/
structure Careful (run : WindowRun R) (call : WindowCall) : Prop where
  start : SmallFields (call.texts (cls.window run.object).params).1
  stop : SmallFields (call.texts (cls.window run.object).params).2
  readable : (cls.window run.object).Readable call

/-- The invariant: the window is denoted, or the object is still as it was before any window. -/
def Kept (run : WindowRun R) : Prop :=
  (cls.window run.object).Denoted ∨ (run.accepted = false ∧ cls.Unset run.object)

variable {cls} (hcls : cls.Lawful)
include hcls

theorem Lawful.consistent_of_kept {run : WindowRun R} (hkept : cls.Kept run) :
    cls.Consistent run := by
  rcases hkept with hdenoted | ⟨hnone, hunset⟩
  · exact Or.inl hdenoted
  · exact Or.inr ⟨hnone, hcls.unrestricted _ hunset⟩

theorem Lawful.kept_next {run : WindowRun R} (hkept : cls.Kept run) {call : WindowCall}
    (hreadable : (cls.window run.object).Readable call) : cls.Kept (cls.next run call) := by
  by_cases haccepts : (cls.window run.object).Accepts call
  · refine Or.inl ?_
    rw [next, (hcls.accepted _ _ haccepts).2]
    exact (TimeWindow.denoted_set_iff haccepts).mpr hreadable
  · obtain ⟨hrejected, hsame, hstill⟩ := hcls.refused _ _ haccepts
    rcases hkept with hdenoted | ⟨hnone, hunset⟩
    · refine Or.inl ?_
      rwa [next, hsame]
    · refine Or.inr ⟨?_, hstill hunset⟩
      rw [next, hnone, hrejected]
      rfl

/-- A call is sound exactly when its texts are small and its start can be read back. -/
theorem Lawful.sound_iff_careful {run : WindowRun R} (hkept : cls.Kept run) (call : WindowCall) :
    cls.Sound run call ↔ cls.Careful run call := by
  constructor
  · intro hsound
    refine ⟨(isSome_checkedSecond_iff _).mp hsound.computable.1,
      (isSome_checkedSecond_iff _).mp hsound.computable.2, ?_⟩
    intro haccepts
    have haccepted : (cls.next run call).accepted = true := by
      rw [next, (hcls.accepted _ _ haccepts).1, Bool.or_true]
    have hdenoted : ((cls.window run.object).set call).Denoted := by
      rcases hsound.consistent with hdenoted | ⟨hnone, _⟩
      · rwa [next, (hcls.accepted _ _ haccepts).2] at hdenoted
      · exact Bool.noConfusion (haccepted.symm.trans hnone)
    exact (TimeWindow.denoted_set_iff haccepts).mp hdenoted haccepts
  · intro hcareful
    refine ⟨?_, ⟨(isSome_checkedSecond_iff _).mpr hcareful.start,
      (isSome_checkedSecond_iff _).mpr hcareful.stop⟩, ?_⟩
    · intro hrejected
      have hrefused : ¬(cls.window run.object).Accepts call := by
        intro haccepts
        exact Bool.noConfusion ((hcls.accepted _ _ haccepts).1.symm.trans hrejected)
      rw [next, (hcls.refused _ _ hrefused).2.1]
      exact ⟨rfl, rfl, rfl, rfl⟩
    · exact hcls.consistent_of_kept (hcls.kept_next hkept hcareful.readable)

/-- Along any calls the object is sound exactly when all calls are careful. -/
theorem Lawful.sound_along_iff {run : WindowRun R} (hkept : cls.Kept run)
    (calls : List WindowCall) :
    Machine.Along (Machine.total cls.next) cls.Sound run calls ↔
      Machine.Along (Machine.total cls.next) cls.Careful run calls := by
  apply Machine.along_iff_of_guarded (I := cls.Kept) _ _ _ hkept
  · intro reached call hreached
    exact hcls.sound_iff_careful hreached call
  · intro reached call after hreached hcareful hafter
    rw [Machine.total, Option.some.injEq] at hafter
    rw [← hafter]
    exact hcls.kept_next hreached hcareful.readable

end WindowClass

end Hat
