import Hat.Core.Machine
import Hat.Core.Orders
import Hat.MqttBBDevices.TriStateOutput

/-!
# Two channels, one status

What is known of an output for two directions is its status in memory and in its file, the
status on its page, and the orders that its channels have got.  Whatever the messages, the
two channels are never both on.  The four views of the status agree throughout a run exactly
when every command is for a known state and no wait ends while the output is not at rest.
-/

namespace Hat

open Hat.Hsrv

/-- An output with the page that shows it and the orders its channels have got. -/
structure TriStateSite where
  output : TriStateOutput
  page : TargetPage
  orders : List (String × String)
  deriving DecidableEq

namespace TriStateSite

variable (host : DeviceHost)

def next (site : TriStateSite) (input : Env × MMessage) : TriStateSite :=
  let called := site.output.execcmd host input.1 input.2
  ⟨called.1, called.2.published.getD site.page,
    site.orders ++ TriStateOutput.orders called.2.notified⟩

/-- The program starts and finds channels that have got some orders before. -/
def start (params : MParams) (n : String) (orders : List (String × String)) : TriStateSite :=
  ⟨.new params n, (TriStateOutput.new params n).page, orders⟩

def run (site : TriStateSite) (inputs : List (Env × MMessage)) : TriStateSite :=
  inputs.foldl (next host) site

/-- What no message changes. -/
structure SameSetup (output after : TriStateOutput) : Prop where
  status : after.status = output.status
  defaultStatus : after.defaultStatus = output.defaultStatus
  out1 : after.out1 = output.out1
  out2 : after.out2 = output.out2
  remap : ∀ value, after.remap value = output.remap value

theorem remap_save (output : TriStateOutput) (value : String) :
    output.save.remap value = output.remap value := by
  have hsaved : output.save.params.getCategory value "remap" =
      output.params.getCategory value "remap" := by
    change ((output.params.add "status" output.status).add "currentStatus"
      output.currentStatus).getCategory value "remap" = _
    rw [MParams.getCategory_add _ _ _ _ (by decide), MParams.getCategory_add _ _ _ _ (by decide)]
  rw [TriStateOutput.remap, TriStateOutput.remap, hsaved]

theorem SameSetup.trans {first second third : TriStateOutput} (h : SameSetup first second)
    (h' : SameSetup second third) : SameSetup first third where
  status := h'.status.trans h.status
  defaultStatus := h'.defaultStatus.trans h.defaultStatus
  out1 := h'.out1.trans h.out1
  out2 := h'.out2.trans h.out2
  remap value := (h'.remap value).trans (h.remap value)

theorem sameSetup_of_sensedFrom {output sensed : TriStateOutput}
    (hsensed : TriStateOutput.SensedFrom output sensed) : SameSetup output sensed := by
  obtain ⟨up, down, rfl⟩ := hsensed
  exact ⟨rfl, rfl, rfl, rfl, fun _ => rfl⟩

variable {output after : TriStateOutput} {reaction : TriStateOutput.Reaction}
  {given : List (String × String)} {page : Option TargetPage}

theorem sameSetup_of_acts (hacts : TriStateOutput.Acts output reaction after given page) :
    SameSetup output after := by
  cases hacts with
  | ignores => exact ⟨rfl, rfl, rfl, rfl, fun _ => rfl⟩
  | command newstate =>
      refine ⟨rfl, rfl, rfl, rfl, fun value => ?_⟩
      exact remap_save { output with currentStatus := newstate } value
  | rests _ => exact ⟨rfl, rfl, rfl, rfl, fun _ => rfl⟩
  | ends _ => exact ⟨rfl, rfl, rfl, rfl, fun value => remap_save output value⟩

theorem sameSetup_execcmd (env : Env) (received : MMessage) (output : TriStateOutput) :
    SameSetup output (output.execcmd host env received).1 := by
  obtain ⟨sensed, hsensed, hacts⟩ := TriStateOutput.acts_execcmd host env received output
  exact (sameSetup_of_sensedFrom hsensed).trans (sameSetup_of_acts hacts)

/-- An output whose two channels a message cannot confuse: they have different names, it
rests when off, and the values for them are those of the output. -/
structure Plain (output : TriStateOutput) : Prop where
  out1_ne : output.out1 ≠ output.out2
  defaultStatus : output.defaultStatus = "OFF"
  remap : ∀ value, output.remap value = value

theorem Plain.of_sameSetup (h : Plain output) (hsame : SameSetup output after) : Plain after where
  out1_ne := by rw [hsame.out1, hsame.out2]; exact h.out1_ne
  defaultStatus := hsame.defaultStatus.trans h.defaultStatus
  remap value := (hsame.remap value).trans (h.remap value)

/-- Each reaction keeps two channels interlocked. -/
theorem interlocked_acts (hplain : Plain output)
    (hacts : TriStateOutput.Acts output reaction after given page) {before : List (String × String)}
    (hbefore : Orders.Interlocked "ON" output.out1 output.out2 before) :
    Orders.Interlocked "ON" output.out1 output.out2 (before ++ given) := by
  have hoff : "OFF" ≠ "ON" := by decide
  cases hacts with
  | ignores => rwa [List.append_nil]
  | command newstate =>
      simp only [TriStateOutput.ordersFor, hplain.remap]
      split_ifs
      · rwa [List.append_nil]
      · exact hbefore.switch_over hplain.out1_ne hoff "ON"
      · rw [Orders.interlocked_comm] at hbefore ⊢
        exact hbefore.switch_over hplain.out1_ne.symm hoff "ON"
      · exact hbefore.release_both hoff
      · rwa [List.append_nil]
  | rests _ => rwa [List.append_nil]
  | ends _ =>
      rw [hplain.defaultStatus, hplain.remap]
      exact hbefore.release_both hoff

variable {site : TriStateSite}

theorem interlocked_next (hplain : Plain site.output)
    (h : Orders.Interlocked "ON" site.output.out1 site.output.out2 site.orders)
    (input : Env × MMessage) :
    Orders.Interlocked "ON" site.output.out1 site.output.out2 (site.next host input).orders := by
  obtain ⟨sensed, hsensed, hacts⟩ :=
    TriStateOutput.acts_execcmd host input.1 input.2 site.output
  have hsame := sameSetup_of_sensedFrom hsensed
  rw [← hsame.out1, ← hsame.out2] at h ⊢
  exact interlocked_acts (hplain.of_sameSetup hsame) hacts h

theorem interlocked_run (hplain : Plain site.output)
    (h : Orders.Interlocked "ON" site.output.out1 site.output.out2 site.orders)
    (inputs : List (Env × MMessage)) :
    Orders.Interlocked "ON" site.output.out1 site.output.out2 (site.run host inputs).orders := by
  induction inputs generalizing site with
  | nil => exact h
  | cons input rest ih =>
      have hsame := sameSetup_execcmd host input.1 input.2 site.output
      have hnext := interlocked_next host hplain h input
      rw [← hsame.out1, ← hsame.out2] at hnext ⊢
      exact ih (hplain.of_sameSetup hsame) hnext

/-- After every prefix of the orders of a run, at least one of the two channels is not on. -/
theorem never_both_on (output : TriStateOutput) (page : TargetPage)
    (hout : output.out1 ≠ output.out2) (hdefault : output.defaultStatus = "OFF")
    (hremap : ∀ value, output.params.getCategory value "remap" = "")
    (inputs : List (Env × MMessage)) :
    Orders.Interlocked "ON" output.out1 output.out2
      (run host ⟨output, page, []⟩ inputs).orders := by
  have hself : ∀ value, output.remap value = value := by
    intro value
    rw [TriStateOutput.remap, hremap value]
    exact if_pos rfl
  have hplain : Plain (TriStateSite.mk output page []).output := ⟨hout, hdefault, hself⟩
  exact interlocked_run host hplain Orders.interlocked_nil inputs

/-- A shutter that stops after thirty seconds. -/
def shutter : MParams where
  ty := "output"
  attributes := []
  path := some ("output",
    [⟨"name", "generic", "SH_room"⟩, ⟨"status", "generic", "ON"⟩, ⟨"duration", "generic", "30"⟩,
      ⟨"default", "generic", "OFF"⟩, ⟨"eventname", "generic", "SH_room"⟩,
      ⟨"up_output", "output", "rel1"⟩, ⟨"down_output", "output", "rel2"⟩,
      ⟨"up_input", "input", "in1"⟩, ⟨"down_input", "input", "in2"⟩])
  pathh := none

def command (value : String) : Env × MMessage :=
  (firstNight, (MMessage.mk2 "cmd" "SH_room").add "value" value)

def waitEnd : Env × MMessage :=
  (firstNight, (MMessage.mk2 "wait" "end").add "value" "30_SH_room")

theorem never_both_on_shutter :
    Orders.Interlocked "ON" "rel1" "rel2"
      (run ⟨true, "ON", ""⟩ (start shutter "SH_room" [])
        [command "up", command "DOWN", waitEnd]).orders := by
  refine never_both_on ⟨true, "ON", ""⟩ (.new shutter "SH_room") _ (by decide +kernel)
    (by decide +kernel) (fun value => ?_) [command "up", command "DOWN", waitEnd]
  simp [TriStateOutput.new, shutter, MParams.load, MParams.getCategory, MParams.getFromCategory]

/-! ## The views of the status -/

/-- The status that the last orders for the two channels put them in. -/
def implied (site : TriStateSite) : Option String :=
  let output := site.output
  match Orders.last output.out1 site.orders, Orders.last output.out2 site.orders with
  | none, none => some ""
  | some up, some down =>
      if up = output.remap "ON" ∧ down = output.remap "OFF" then some "UP"
      else if up = output.remap "OFF" ∧ down = output.remap "ON" then some "DOWN"
      else if up = output.remap "OFF" ∧ down = output.remap "OFF" then some "OFF"
      else none
  | _, _ => none

/-- The output that a restart makes from the files. -/
def restart (site : TriStateSite) : TriStateOutput := .new site.output.params site.output.name

structure StatusViews where
  memory : String
  file : String
  page : String
  channels : Option String
  deriving DecidableEq

def views (site : TriStateSite) : StatusViews :=
  ⟨site.output.currentStatus, site.restart.currentStatus, site.page.value, site.implied⟩

def Agrees (site : TriStateSite) : Prop :=
  site.views = ⟨site.output.currentStatus, site.output.currentStatus, site.output.currentStatus,
    some site.output.currentStatus⟩

instance (site : TriStateSite) : Decidable site.Agrees := inferInstanceAs (Decidable (_ = _))

/-- A state that there are orders for. -/
def Known (newstate : String) : Prop := newstate = "UP" ∨ newstate = "DOWN" ∨ newstate = "OFF"

instance (newstate : String) : Decidable (Known newstate) :=
  inferInstanceAs (Decidable (_ ∨ _ ∨ _))

/-- The views agree after a message, and if it is a command for a state that is not known,
none of them has changed. -/
def Faithful (site : TriStateSite) (input : Env × MMessage) : Prop :=
  (site.next host input).Agrees ∧
    ∀ newstate, site.output.reaction input.2 = .command newstate → ¬Known newstate →
      (site.next host input).views = site.views

/-- No command for a state that is neither known nor the current one, and no wait end while
the output is not at rest. -/
def Harmless (output : TriStateOutput) : TriStateOutput.Reaction → Prop
  | .ignores => True
  | .command newstate => Known newstate ∨ newstate = output.currentStatus
  | .waitEnd => output.currentStatus = output.defaultStatus

/-- The channels can be told apart, and so can the values for them. -/
structure Distinct (output : TriStateOutput) : Prop where
  out1_ne : output.out1 ≠ output.out2
  remap_ne : output.remap "ON" ≠ output.remap "OFF"

theorem Distinct.of_sameSetup (h : Distinct output) (hsame : SameSetup output after) :
    Distinct after where
  out1_ne := by rw [hsame.out1, hsame.out2]; exact h.out1_ne
  remap_ne := by rw [hsame.remap, hsame.remap]; exact h.remap_ne

theorem implied_congr (hsame : SameSetup output after) (page other : TargetPage)
    (orders : List (String × String)) :
    (TriStateSite.mk after page orders).implied =
      (TriStateSite.mk output other orders).implied := by
  simp only [implied, hsame.out1, hsame.out2, hsame.remap]

/-- The orders for a state that is known put the channels in it. -/
theorem implied_ordersFor (hdistinct : Distinct output) (page : TargetPage)
    (before : List (String × String)) {newstate : String} (hknown : Known newstate) :
    (TriStateSite.mk output page (before ++ output.ordersFor newstate)).implied =
      some newstate := by
  have hne := hdistinct.out1_ne
  obtain rfl | rfl | rfl := hknown
  · simp [implied, TriStateOutput.ordersFor, Orders.last_append, Orders.last, hne]
  · simp [implied, TriStateOutput.ordersFor, Orders.last_append, Orders.last, hne.symm,
      hdistinct.remap_ne.symm]
  · simp [implied, TriStateOutput.ordersFor, Orders.last_append, Orders.last, hne.symm,
      hdistinct.remap_ne.symm]

/-- The attributes in memory are those of the file. -/
def Loaded (output : TriStateOutput) : Prop := output.params.load = output.params

theorem loaded_new (params : MParams) (n : String) : Loaded (.new params n) := by
  obtain ⟨ty, attributes, path, pathh⟩ := params
  cases pathh with
  | some file => rfl
  | none =>
      cases path with
      | some file => rfl
      | none => rfl

theorem loaded_save (output : TriStateOutput) : Loaded output.save := rfl

/-- The file holds the status that was saved, unless the empty text uncovers an older one. -/
theorem restart_save (output : TriStateOutput) (n : String)
    (hshown : output.currentStatus ≠ "" ∨ output.params.get "currentStatus" = "") :
    (TriStateOutput.new output.save.params n).currentStatus = output.currentStatus := by
  change ((output.params.add "status" output.status).add "currentStatus"
    output.currentStatus).get "currentStatus" = _
  by_cases hempty : output.currentStatus = ""
  · rw [hempty, MParams.get_add_empty]
    rw [MParams.get_add_of_ne _ _ (by decide)]
    exact hshown.resolve_left (not_not.mpr hempty)
  · exact MParams.get_add_self _ _ hempty

theorem agrees_iff : site.Agrees ↔
    site.restart.currentStatus = site.output.currentStatus ∧
      site.page.value = site.output.currentStatus ∧
        site.implied = some site.output.currentStatus := by
  simp [Agrees, views]

/-- Where the views agree, they still do after a reaction exactly if it is harmless. -/
theorem agrees_acts_iff (site : TriStateSite) (hdistinct : Distinct site.output)
    (hloaded : Loaded site.output) (hagrees : site.Agrees)
    (hacts : TriStateOutput.Acts site.output reaction after given page) :
    (TriStateSite.mk after (page.getD site.page) (site.orders ++ given)).Agrees ↔
      Harmless site.output reaction := by
  obtain ⟨hfile, hpage, himplied⟩ := agrees_iff.mp hagrees
  have hget : site.output.params.get "currentStatus" = site.output.currentStatus := by
    rw [← hfile]
    exact congrArg (fun params => MParams.get params "currentStatus") (Eq.symm hloaded)
  cases hacts with
  | ignores =>
      rw [List.append_nil]
      exact iff_of_true hagrees trivial
  | rests hrest =>
      rw [List.append_nil]
      exact iff_of_true hagrees hrest
  | ends hrest =>
      -- The page was published before the status changed.
      refine iff_of_false (fun hnext => hrest ?_) hrest
      exact (agrees_iff.mp hnext).2.1
  | command newstate =>
      have hsame : SameSetup site.output { site.output with currentStatus := newstate }.save :=
        sameSetup_of_acts (TriStateOutput.Acts.command newstate)
      by_cases hcurrent : site.output.currentStatus = newstate
      · refine iff_of_true (agrees_iff.mpr ⟨?_, rfl, ?_⟩) (Or.inr hcurrent.symm)
        · apply restart_save
          rw [or_iff_not_imp_left, not_not]
          intro hempty
          exact hget.trans (hcurrent.trans hempty)
        · rw [if_pos hcurrent, List.append_nil, implied_congr hsame _ site.page, himplied,
            ← hcurrent]
          rfl
      · rw [if_neg hcurrent]
        by_cases hknown : Known newstate
        · refine iff_of_true (agrees_iff.mpr ⟨?_, rfl, ?_⟩) (Or.inl hknown)
          · apply restart_save
            refine Or.inl ?_
            rintro rfl
            exact absurd hknown (by decide)
          · rw [implied_congr hsame _ site.page]
            exact implied_ordersFor hdistinct _ _ hknown
        · refine iff_of_false (fun hnext => hcurrent ?_)
            (not_or.mpr ⟨hknown, Ne.symm hcurrent⟩)
          -- There are no orders for the state, so the channels stay where they are.
          have hchannels := (agrees_iff.mp hnext).2.2
          have hnone : site.output.ordersFor newstate = [] := by
            simp only [Known, not_or] at hknown
            simp [TriStateOutput.ordersFor, hknown]
          rw [hnone, List.append_nil, implied_congr hsame _ site.page, himplied,
            Option.some.injEq] at hchannels
          exact hchannels

theorem currentStatus_of_command {newstate : String}
    (hacts : TriStateOutput.Acts output (.command newstate) after given page) :
    after.currentStatus = newstate := by
  cases hacts
  rfl

theorem faithful_iff_harmless (hdistinct : Distinct site.output) (hloaded : Loaded site.output)
    (hagrees : site.Agrees) (input : Env × MMessage) :
    site.Faithful host input ↔ Harmless site.output (site.output.reaction input.2) := by
  obtain ⟨sensed, hsensed, hacts⟩ :=
    TriStateOutput.acts_execcmd host input.1 input.2 site.output
  have hdistinct' := hdistinct.of_sameSetup (sameSetup_of_sensedFrom hsensed)
  obtain ⟨up, down, rfl⟩ := hsensed
  have hiff : (site.next host input).Agrees ↔
      Harmless site.output (site.output.reaction input.2) :=
    agrees_acts_iff ⟨{ site.output with ing1v := up, ing2v := down }, site.page, site.orders⟩
      hdistinct' hloaded hagrees hacts
  refine ⟨fun h => hiff.mp h.1, fun h => ⟨hiff.mpr h, fun newstate hreaction hunknown => ?_⟩⟩
  have hnext : (site.next host input).output.currentStatus = newstate := by
    rw [hreaction] at hacts
    exact currentStatus_of_command hacts
  rw [hreaction] at h
  rw [hiff.mpr (hreaction ▸ h), hagrees, hnext, h.resolve_left hunknown]

theorem loaded_of_acts (hloaded : Loaded output)
    (hacts : TriStateOutput.Acts output reaction after given page) : Loaded after := by
  cases hacts with
  | ignores => exact hloaded
  | command _ => exact loaded_save _
  | rests _ => exact hloaded
  | ends _ => exact loaded_save _

def Sound (site : TriStateSite) : Prop :=
  (Distinct site.output ∧ Loaded site.output) ∧ site.Agrees

theorem Sound.next (h : site.Sound) {input : Env × MMessage}
    (hfaithful : site.Faithful host input) : (site.next host input).Sound := by
  refine ⟨⟨h.1.1.of_sameSetup (sameSetup_execcmd host input.1 input.2 site.output), ?_⟩,
    hfaithful.1⟩
  obtain ⟨sensed, ⟨up, down, rfl⟩, hacts⟩ :=
    TriStateOutput.acts_execcmd host input.1 input.2 site.output
  have hloaded : Loaded { site.output with ing1v := up, ing2v := down } := h.1.2
  exact loaded_of_acts hloaded hacts

/-- From a start at which the views agree, they agree after every message of a run, and
commands for states that are not known change nothing, exactly if every message is harmless. -/
theorem faithful_iff (params : MParams) (n : String) (orders : List (String × String))
    (hdistinct : Distinct (start params n orders).output)
    (hagrees : (start params n orders).Agrees) (inputs : List (Env × MMessage)) :
    Machine.Along (Machine.total (next host)) (Faithful host) (start params n orders) inputs ↔
      Machine.Along (Machine.total (next host))
        (fun site input => Harmless site.output (site.output.reaction input.2))
        (start params n orders) inputs := by
  refine Machine.along_iff_of_guarded (I := Sound) (fun site input h => ?_)
    (fun site input after h hharmless hnext => ?_) inputs
    ⟨⟨hdistinct, loaded_new params n⟩, hagrees⟩
  · exact faithful_iff_harmless host h.1.1 h.1.2 h.2 input
  · rw [Machine.total, Option.some.injEq] at hnext
    subst hnext
    exact h.next host ((faithful_iff_harmless host h.1.1 h.1.2 h.2 input).mpr hharmless)

theorem faithful_iff_shutter :
    Machine.Along (Machine.total (next ⟨true, "ON", ""⟩)) (Faithful ⟨true, "ON", ""⟩)
        (start shutter "SH_room" []) [command "up", command "DOWN", command "off"] ↔
      Machine.Along (Machine.total (next ⟨true, "ON", ""⟩))
        (fun site input => Harmless site.output (site.output.reaction input.2))
        (start shutter "SH_room" []) [command "up", command "DOWN", command "off"] :=
  faithful_iff ⟨true, "ON", ""⟩ shutter "SH_room" [] ⟨by decide +kernel, by decide +kernel⟩
    (by decide +kernel) [command "up", command "DOWN", command "off"]

/-- The shutter goes up and is stopped by the timer: its file and its page say up. -/
theorem not_faithful_shutter :
    (start shutter "SH_room" []).Agrees ∧
      ¬Machine.Along (Machine.total (next ⟨true, "ON", ""⟩)) (Faithful ⟨true, "ON", ""⟩)
        (start shutter "SH_room" []) [command "up", waitEnd] := by
  refine ⟨by decide +kernel, fun h => ?_⟩
  have hended := (h.2 _ rfl).1.1
  exact absurd hended (by decide +kernel)

end TriStateSite

end Hat
