import Hat.Core.Machine
import Hat.Minilibs.AttributeValues
import Hat.MqttBBDevices.BinaryOutput

/-!
# One value, four views

When the value of an output changes, the channel gets an order, an event is sent, the file is
saved and the page is published.  The event repeats the value of the message, which for a wait
end is the condition that the timer was given, and not the value the output has gone back to.
-/

namespace Hat

open Hat.Hsrv

namespace BinaryOutput

/-- The value that a message gives the output, when it is another one. -/
def newValue (output : BinaryOutput) (msg : MMessage) : Option String :=
  if msg.msubtype = output.name then
    if output.currentValue ≠ msg.getString "value" then some (msg.getString "value") else none
  else if msg.mtype = "wait" ∧ msg.msubtype = "end" then
    if output.currentValue ≠ output.defaultValue then some output.defaultValue else none
  else none

/-- A message to the channel or an event. -/
def isReport (m : MMessage) : Bool := m.mtype = "devcmd" || m.mtype = "event"

/-- A message to the channel of the output. -/
def IsDevcmd (output : BinaryOutput) (m : MMessage) : Prop :=
  m.mtype = "devcmd" ∧ m.msubtype = output.out

/-- An event under the event name of the output. -/
def IsEvent (output : BinaryOutput) (m : MMessage) : Prop :=
  m.mtype = "event" ∧ m.msubtype = output.params.get "eventname"

instance (output : BinaryOutput) : DecidablePred output.IsDevcmd := fun _ =>
  inferInstanceAs (Decidable (_ ∧ _))

instance (output : BinaryOutput) : DecidablePred output.IsEvent := fun _ =>
  inferInstanceAs (Decidable (_ ∧ _))

/-- The output with another value. -/
def withValue (output : BinaryOutput) (value : String) : BinaryOutput :=
  { output with currentValue := value }

variable (host : DeviceHost)

theorem filter_isReport_respond (env : Env) (msg : MMessage) (notified : List MMessage)
    (published : Option (String × String)) (output : BinaryOutput) :
    (respond host env msg notified published output).notified.filter isReport =
      notified.filter isReport := by
  rw [respond, List.filter_append]
  split_ifs
  · simp [isReport]
  · rw [List.filter_nil, List.append_nil]

theorem isReport_wait (subtype : String) (output : BinaryOutput) :
    isReport (output.wait subtype) = false := by
  simp [isReport, wait]

theorem filter_isReport_switch (env : Env) (msg : MMessage) (output : BinaryOutput) :
    (output.switch env msg).filter isReport = output.switch env msg := by
  simp [switch, isReport]

/-- A message that changes nothing is not reported. -/
theorem execcmd_of_none (env : Env) {msg : MMessage} {output : BinaryOutput}
    (hnone : output.newValue msg = none) :
    (output.execcmd host env msg).1 = output ∧
      (output.execcmd host env msg).2.published = none ∧
      (output.execcmd host env msg).2.notified.filter isReport = [] := by
  rw [newValue] at hnone
  simp only [execcmd]
  split_ifs at hnone ⊢
  all_goals
    refine ⟨rfl, rfl, ?_⟩
    simp [filter_isReport_respond, isReport_wait]

/-- A message that changes the value is reported, saved and published. -/
theorem execcmd_of_some (env : Env) {msg : MMessage} {output : BinaryOutput} {value : String}
    (hsome : output.newValue msg = some value) :
    (output.execcmd host env msg).1 = (output.withValue value).save ∧
      (output.execcmd host env msg).2.published = some (output.withValue value).save.page ∧
      (output.execcmd host env msg).2.notified.filter isReport =
        (output.withValue value).switch env msg := by
  rw [newValue] at hsome
  simp only [execcmd]
  split_ifs at hsome ⊢
  all_goals
    rw [Option.some.injEq] at hsome
    subst hsome
  all_goals refine ⟨rfl, rfl, ?_⟩
  all_goals
    simp only [filter_isReport_respond, List.filter_append, filter_isReport_switch]
    simp [isReport_wait, withValue]

/-- The order that the channel gets. -/
def order (env : Env) (output : BinaryOutput) : MMessage :=
  ({ MMessage.blank with mtype := "devcmd", msubtype := output.out }.add "value"
    (output.remap output.currentValue)).add "time" (double2a env.gettime)

/-- The event, which is the order filled anew. -/
def report (env : Env) (msg : MMessage) (output : BinaryOutput) : MMessage :=
  { output.order env with mtype := "event", msubtype := output.params.get "eventname" }.add "value"
    (msg.getString "value")

theorem switch_eq (env : Env) (msg : MMessage) (output : BinaryOutput) :
    output.switch env msg = [output.order env, output.report env msg] := rfl

theorem getString_order (env : Env) (output : BinaryOutput) :
    (output.order env).getString "value" = output.remap output.currentValue := by
  rw [order, MMessage.getString_add_of_ne _ _ (by decide)]
  apply MMessage.getString_add_self
  intro items h
  cases h

/-- The value of the order is overwritten by that of the message. -/
theorem getString_report (env : Env) (msg : MMessage) (output : BinaryOutput) :
    (output.report env msg).getString "value" = msg.getString "value" := by
  apply MMessage.getString_add_self
  intro items
  change (output.order env).fields.find? "value" ≠ _
  rw [order, MMessage.find?_add_of_ne _ _ (by decide), MMessage.find?_add, if_pos rfl]
  intro h
  cases h

theorem isDevcmd_order (env : Env) (output : BinaryOutput) :
    output.IsDevcmd (output.order env) := by
  simp [IsDevcmd, order]

theorem isEvent_report (env : Env) (msg : MMessage) (output : BinaryOutput) :
    output.IsEvent (output.report env msg) := by
  simp [IsEvent, report]

theorem not_isEvent_order (env : Env) (output : BinaryOutput) (other : BinaryOutput) :
    ¬other.IsEvent (output.order env) := by
  simp [IsEvent, order]

theorem not_isDevcmd_report (env : Env) (msg : MMessage) (output : BinaryOutput)
    (other : BinaryOutput) : ¬other.IsDevcmd (output.report env msg) := by
  simp [IsDevcmd, report]

theorem isReport_of_isDevcmd {output : BinaryOutput} {m : MMessage} (h : output.IsDevcmd m) :
    isReport m = true := by
  simp [isReport, h.1]

theorem isReport_of_isEvent {output : BinaryOutput} {m : MMessage} (h : output.IsEvent m) :
    isReport m = true := by
  simp [isReport, h.1]

/-- Saving changes the value and not the remapping. -/
theorem remap_save_withValue (output : BinaryOutput) (value other : String) :
    (output.withValue value).save.remap other = output.remap other := by
  have hsaved : (output.withValue value).save.params.getCategory other "remap" =
      output.params.getCategory other "remap" :=
    MParams.getCategory_add output.params "value" value other (by decide)
  rw [remap, remap, hsaved]

/-- What the file holds after the value has been saved. -/
theorem get_save_withValue (output : BinaryOutput) (value : String) :
    (output.withValue value).save.params.load.get "value" =
      MParams.firstFull (value :: (output.params.values "value" "generic").tail) := by
  change (output.params.add "value" value).get "value" = _
  rw [MParams.get_eq, MParams.values_add, if_pos ⟨rfl, rfl⟩]

end BinaryOutput

/-! ## The views of the value -/

/-- An output with what was last sent to its channel and in an event, and with its page. -/
structure OutputSite where
  output : BinaryOutput
  devcmd : Option String
  event : Option String
  page : String × String
  deriving DecidableEq

namespace OutputSite

variable (host : DeviceHost)

/-- The value of the last of the messages that are meant, or what was known before. -/
def lastValue (p : MMessage → Bool) (notified : List MMessage) (before : Option String) :
    Option String :=
  (((notified.filter p).map (MMessage.getString "value")).getLast?).or before

def next (site : OutputSite) (input : Env × MMessage) : OutputSite :=
  let called := site.output.execcmd host input.1 input.2
  { output := called.1
    devcmd := lastValue site.output.IsDevcmd called.2.notified site.devcmd
    event := lastValue site.output.IsEvent called.2.notified site.event
    page := called.2.published.getD site.page }

/-- The program starts; nothing has been sent yet. -/
def start (params : MParams) (n : String) : OutputSite :=
  ⟨.new params n, none, none, (BinaryOutput.new params n).page⟩

/-- The value in the file of the output. -/
def saved (site : OutputSite) : String := site.output.params.load.get "value"

/-- The page shows the value, and after an event the three other views do. -/
structure Agrees (site : OutputSite) : Prop where
  page : site.page = site.output.page
  views : site.event ≠ none →
    site.devcmd = some (site.output.remap site.output.currentValue) ∧
      site.event = some site.output.currentValue ∧ site.saved = site.output.currentValue

/-- Every event that is sent carries the value of the output after the message, and the views
agree with it. -/
structure Describes (site : OutputSite) (input : Env × MMessage) : Prop where
  events : ∀ m ∈ (site.output.execcmd host input.1 input.2).2.notified, site.output.IsEvent m →
    m.getString "value" = (site.next host input).output.currentValue
  agrees : (site.next host input).Agrees

/-- A wait end finds the output off its default value. -/
def EndsWait (output : BinaryOutput) (msg : MMessage) : Prop :=
  (msg.msubtype ≠ output.name ∧ msg.mtype = "wait" ∧ msg.msubtype = "end") ∧
    output.currentValue ≠ output.defaultValue

/-- A command for the empty text finds another value. -/
def Empties (output : BinaryOutput) (msg : MMessage) : Prop :=
  msg.msubtype = output.name ∧ msg.getString "value" = "" ∧ output.currentValue ≠ ""

/-- A wait end that changes the output has the default value for its text; and where the value
becomes the empty text, the file has no other value that shows through. -/
structure Harmless (site : OutputSite) (input : Env × MMessage) : Prop where
  ends : EndsWait site.output input.2 →
    input.2.getString "value" = site.output.defaultValue
  empty : (EndsWait site.output input.2 ∧ site.output.defaultValue = "") ∨
      Empties site.output input.2 →
    ∀ other ∈ (site.output.params.values "value" "generic").tail, other = ""

theorem agrees_start (params : MParams) (n : String) : (start params n).Agrees :=
  ⟨rfl, fun hne => absurd rfl hne⟩

section Next

/-- Only the reports count. -/
theorem lastValue_filter {p : MMessage → Bool}
    (hp : ∀ m, p m = true → BinaryOutput.isReport m = true) (notified : List MMessage)
    (before : Option String) :
    lastValue p (notified.filter BinaryOutput.isReport) before = lastValue p notified before := by
  have hboth : notified.filter (fun m => p m && BinaryOutput.isReport m) = notified.filter p := by
    refine List.filter_congr fun m _ => ?_
    cases hm : p m with
    | true => rw [hp m hm, Bool.and_true]
    | false => rw [Bool.false_and]
  rw [lastValue, lastValue, List.filter_filter, hboth]

variable {site : OutputSite} {input : Env × MMessage}

theorem next_eq (site : OutputSite) (input : Env × MMessage) :
    site.next host input =
      let called := site.output.execcmd host input.1 input.2
      let reports := called.2.notified.filter BinaryOutput.isReport
      { output := called.1
        devcmd := lastValue site.output.IsDevcmd reports site.devcmd
        event := lastValue site.output.IsEvent reports site.event
        page := called.2.published.getD site.page } := by
  have hdevcmd := lastValue_filter (p := site.output.IsDevcmd)
    (fun m hm => BinaryOutput.isReport_of_isDevcmd (of_decide_eq_true hm))
    (site.output.execcmd host input.1 input.2).2.notified site.devcmd
  have hevent := lastValue_filter (p := site.output.IsEvent)
    (fun m hm => BinaryOutput.isReport_of_isEvent (of_decide_eq_true hm))
    (site.output.execcmd host input.1 input.2).2.notified site.event
  simp only [next, ← hdevcmd, ← hevent]

theorem next_of_none (hnone : site.output.newValue input.2 = none) :
    site.next host input = site := by
  obtain ⟨houtput, hpublished, hreports⟩ := BinaryOutput.execcmd_of_none host input.1 hnone
  simp only [next_eq, hreports, houtput, hpublished]
  rfl

theorem next_of_some {value : String} (hsome : site.output.newValue input.2 = some value) :
    site.next host input =
      { output := (site.output.withValue value).save
        devcmd := some (site.output.remap value)
        event := some (input.2.getString "value")
        page := (site.output.withValue value).save.page } := by
  obtain ⟨houtput, hpublished, hreports⟩ := BinaryOutput.execcmd_of_some host input.1 hsome
  have horder : site.output.IsDevcmd ((site.output.withValue value).order input.1) :=
    BinaryOutput.isDevcmd_order input.1 (site.output.withValue value)
  have hreport : site.output.IsEvent ((site.output.withValue value).report input.1 input.2) :=
    BinaryOutput.isEvent_report input.1 input.2 (site.output.withValue value)
  have hvalue := BinaryOutput.getString_order input.1 (site.output.withValue value)
  simp only [next_eq, hreports, houtput, hpublished, BinaryOutput.switch_eq]
  simp [lastValue, horder, hreport, BinaryOutput.not_isEvent_order,
    BinaryOutput.not_isDevcmd_report, BinaryOutput.getString_report, hvalue]
  rfl

/-- After a change the views agree exactly when the message has carried the new value. -/
theorem agrees_changed_iff (output : BinaryOutput) (value carried : String) :
    (OutputSite.mk (output.withValue value).save (some (output.remap value)) (some carried)
      (output.withValue value).save.page).Agrees ↔
      carried = value ∧
        (value = "" → ∀ other ∈ (output.params.values "value" "generic").tail, other = "") := by
  have hremap := BinaryOutput.remap_save_withValue output value value
  have hsaved := BinaryOutput.get_save_withValue output value
  have hread := MParams.firstFull_cons_iff value (output.params.values "value" "generic").tail
  constructor
  · intro h
    obtain ⟨-, hevent, hfile⟩ := h.views (Option.some_ne_none carried)
    exact ⟨Option.some.inj hevent, hread.mp (hsaved.symm.trans hfile)⟩
  · rintro ⟨rfl, hshown⟩
    refine ⟨rfl, fun _ => ⟨?_, rfl, hsaved.trans (hread.mpr hshown)⟩⟩
    exact congrArg some hremap.symm

theorem harmless_of_none (hnone : site.output.newValue input.2 = none) : site.Harmless input := by
  rw [BinaryOutput.newValue] at hnone
  have hends : ¬EndsWait site.output input.2 := by
    rintro ⟨⟨hname, hwait⟩, hvalue⟩
    rw [if_neg hname, if_pos hwait, if_pos hvalue] at hnone
    cases hnone
  refine ⟨fun h => absurd h hends, fun h => ?_⟩
  obtain ⟨hname, hempty, hvalue⟩ := h.resolve_left fun h => hends h.1
  rw [if_pos hname, hempty, if_pos hvalue] at hnone
  cases hnone

/-- A message that changes the value is harmless when it carries the new one, and when no
other value of the file shows through it. -/
theorem harmless_iff_of_some {value : String} (hsome : site.output.newValue input.2 = some value) :
    site.Harmless input ↔ input.2.getString "value" = value ∧
      (value = "" →
        ∀ other ∈ (site.output.params.values "value" "generic").tail, other = "") := by
  rw [BinaryOutput.newValue] at hsome
  split_ifs at hsome with hname hchanged hwait hchanged
  · have hends : ¬EndsWait site.output input.2 := fun h => h.1.1 hname
    rw [← Option.some.inj hsome, and_iff_right rfl]
    constructor
    · exact fun h hempty => h.empty (Or.inr ⟨hname, hempty, hempty ▸ hchanged⟩)
    · exact fun h => ⟨fun hend => absurd hend hends, fun hempty =>
        h (hempty.resolve_left fun hend => hends hend.1).2.1⟩
  · have hends : EndsWait site.output input.2 := ⟨⟨hname, hwait⟩, hchanged⟩
    rw [← Option.some.inj hsome]
    constructor
    · exact fun h => ⟨h.ends hends, fun hempty => h.empty (Or.inl ⟨hends, hempty⟩)⟩
    · refine fun h => ⟨fun _ => h.1, fun hempty => h.2 ?_⟩
      exact (hempty.resolve_right fun hcommand => hname hcommand.1).2

theorem describes_iff (hagrees : site.Agrees) :
    site.Describes host input ↔ site.Harmless input := by
  cases hvalue : site.output.newValue input.2 with
  | none =>
      have hreports := (BinaryOutput.execcmd_of_none host input.1 hvalue).2.2
      refine iff_of_true ⟨fun m hm hevent => ?_, ?_⟩ (harmless_of_none hvalue)
      · have hreport := List.mem_filter.mpr ⟨hm, BinaryOutput.isReport_of_isEvent hevent⟩
        rw [hreports] at hreport
        exact absurd hreport List.not_mem_nil
      · rw [next_of_none host hvalue]
        exact hagrees
  | some value =>
      have hreports := (BinaryOutput.execcmd_of_some host input.1 hvalue).2.2
      rw [harmless_iff_of_some hvalue, ← agrees_changed_iff,
        ← next_of_some host hvalue]
      refine ⟨fun h => h.agrees, fun h => ⟨fun m hm hevent => ?_, h⟩⟩
      have hreport := List.mem_filter.mpr ⟨hm, BinaryOutput.isReport_of_isEvent hevent⟩
      rw [hreports, BinaryOutput.switch_eq, List.mem_pair] at hreport
      rw [next_of_some host hvalue] at h ⊢
      obtain rfl | rfl := hreport
      · exact absurd hevent (BinaryOutput.not_isEvent_order _ _ _)
      · rw [BinaryOutput.getString_report]
        exact ((agrees_changed_iff _ _ _).mp h).1

end Next

/-- From the start on every event carries the value of the output and the views agree exactly
when every message is harmless. -/
theorem describes_run_iff (params : MParams) (n : String) (inputs : List (Env × MMessage)) :
    Machine.Along (Machine.total (next host)) (Describes host) (start params n) inputs ↔
      Machine.Along (Machine.total (next host)) Harmless (start params n) inputs := by
  apply Machine.along_iff_of_guarded (I := Agrees)
  · exact fun site input hagrees => describes_iff host hagrees
  · intro site input after hagrees hharmless hnext
    rw [Machine.total, Option.some.injEq] at hnext
    rw [← hnext]
    exact ((describes_iff host hagrees).mpr hharmless).agrees
  · exact agrees_start params n

/-- A lamp that goes off after ten seconds. -/
def lamp : MParams where
  ty := "output"
  attributes := []
  path := some ("output",
    [⟨"name", "generic", "lamp"⟩, ⟨"status", "generic", "ON"⟩, ⟨"duration", "generic", "10"⟩,
      ⟨"default", "generic", "OFF"⟩, ⟨"eventname", "generic", "light"⟩,
      ⟨"output", "output", "rel1"⟩, ⟨"ON", "remap", "1"⟩])
  pathh := none

def command (value : String) : Env × MMessage :=
  (firstNight, (MMessage.mk2 "cmd" "lamp").add "value" value)

def waitEnd : Env × MMessage :=
  (firstNight, (MMessage.mk2 "wait" "end").add "value" "10_lamp")

/-- The timer ends the light, and the event says so with the condition of the wait. -/
theorem not_describes_lamp :
    ¬∀ (host : DeviceHost) (params : MParams) (n : String) (inputs : List (Env × MMessage)),
      Machine.Along (Machine.total (next host)) (Describes host) (start params n) inputs := by
  intro h
  have hrun := h ⟨true, "ON", ""⟩ lamp "lamp" [command "ON", waitEnd]
  have hended := (hrun.2 _ rfl).1.agrees
  have hviews := hended.views (by decide +kernel)
  exact absurd hviews.2.1 (by decide +kernel)

example : (next ⟨true, "ON", ""⟩ (start lamp "lamp") (command "ON")).event = some "ON" := by
  decide +kernel

end OutputSite

end Hat
