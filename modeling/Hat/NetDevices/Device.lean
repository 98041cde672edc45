import Hat.Core.Pathname
import Hat.Core.Skipping
import Hat.MqttBBDevices.TriStateOutput
import Hat.NetDevices.Automaton
import Hat.NetDevices.Component

/-!
# The service loop of a device

A message sets the components one after the other to the values of the automaton, whose number
is that of the command and not of the components.  What the components answer goes through one
text that is split again.  This module determines which messages leave each component with the
status that was requested or the one it had.
-/

namespace Hat

open Hat.Hsrv

namespace Device

theorem status_eq_joinSkipping (statuses : List String) :
    status statuses = String.ofList (joinSkipping '+' (statuses.map String.toList)) := by
  rw [status, joinSkipping, List.foldl_map]
  have hfold : ∀ text : String, statuses.foldl
      (fun s st => (if s ≠ "" then s ++ "+" else s) ++ st) text =
        String.ofList (statuses.foldl (fun chars st =>
          (if chars ≠ [] then chars ++ ['+'] else chars) ++ st.toList) text.toList) := by
    intro text
    induction statuses generalizing text with
    | nil => rw [List.foldl_nil, List.foldl_nil, String.ofList_toList]
    | cons st rest ih =>
        rw [List.foldl_cons, List.foldl_cons, ih, String.toList_append]
        by_cases htext : text = ""
        · simp [htext]
        · simp [htext]
  exact hfold ""

/-- The answers that are read back: those from the first on that is not empty, without an empty
one at the end. -/
def delivered (answers : List String) : NameList :=
  let kept := answers.dropWhile fun answer => answer = ""
  if kept.getLast? = some "" then kept.dropLast else kept

theorem withoutEmptyFront_map (answers : List String) :
    withoutEmptyFront (answers.map String.toList) =
      (answers.dropWhile fun answer => answer = "").map String.toList := by
  rw [withoutEmptyFront, List.dropWhile_map]
  simp only [Function.comp_def, String.toList_eq_nil_iff]

theorem init_status {answers : List String} (hlack : ∀ answer ∈ answers, '+' ∉ answer.toList) :
    NameList.init [] (status answers) '+' = delivered answers := by
  have hpieces : ∀ piece ∈ answers.map String.toList, '+' ∉ piece := by
    intro piece hpiece
    obtain ⟨answer, hanswer, rfl⟩ := List.mem_map.mp hpiece
    exact hlack answer hanswer
  rw [status_eq_joinSkipping, NameList.init, delivered]
  by_cases hempty : joinSkipping '+' (answers.map String.toList) = []
  · have hfront := (joinSkipping_eq_nil_iff '+' _).mp hempty
    rw [withoutEmptyFront_map, List.map_eq_nil_iff] at hfront
    simp [hempty, hfront]
  · have htext : String.ofList (joinSkipping '+' (answers.map String.toList)) ≠ "" := by
      simpa using hempty
    have hlast : ((answers.dropWhile fun answer => answer = "").map String.toList).getLast? =
        some [] ↔ (answers.dropWhile fun answer => answer = "").getLast? = some "" := by
      rw [List.getLast?_map]
      cases (answers.dropWhile fun answer => answer = "").getLast? <;> simp
    have hid : ∀ kept : List String, (kept.map String.toList).map String.ofList = kept := by
      intro kept
      rw [List.map_map]
      exact (List.map_congr_left fun name _ => String.ofList_toList).trans (List.map_id kept)
    simp only [if_neg htext, String.toList_ofList, splitOn_joinSkipping '+' hpieces hempty,
      withoutEmptyFront_map, hlast]
    split
    · rw [← List.map_dropLast, hid]
    · rw [hid]

theorem status_eq_joined_iff (statuses : List String) :
    status statuses = NameList.joined statuses '+' ↔
      statuses.length ≤ 1 ∨ statuses.head? ≠ some "" := by
  have hhead : (statuses.map String.toList).head? ≠ some [] ↔ statuses.head? ≠ some "" := by
    rw [List.head?_map]
    cases statuses.head? <;> simp
  rw [status_eq_joinSkipping, NameList.joined, String.ofList_inj,
    joinSkipping_eq_intercalate_iff, List.length_map, hhead]

theorem length_delivered_le (answers : List String) :
    (delivered answers).length ≤ answers.length := by
  have hkept := (List.dropWhile_sublist (l := answers) fun answer => answer = "").length_le
  rw [delivered]
  split
  · rw [List.length_dropLast]
    omega
  · exact hkept

end Device

namespace NameList

theorem not_mem_of_mem_init {names name : String} {delim : Char}
    (hname : name ∈ NameList.init [] names delim) : delim ∉ name.toList := by
  rw [init] at hname
  split at hname
  · exact absurd hname List.not_mem_nil
  · obtain ⟨piece, hpiece, rfl⟩ := List.mem_map.mp hname
    rw [String.toList_ofList]
    apply Pathname.notMem_of_mem_splitOn
    split at hpiece
    · exact List.dropLast_subset _ hpiece
    · exact hpiece

end NameList

/-- What the automaton answers with are parts of texts between separators. -/
theorem Automaton.not_mem_actions {automaton : MParams} {ty v status action : String}
    (haction : action ∈ actions automaton ty v status) : '+' ∉ action.toList := by
  simp only [actions] at haction
  split_ifs at haction
  · exact absurd haction List.not_mem_nil
  · exact NameList.not_mem_of_mem_init haction
  · exact NameList.not_mem_of_mem_init haction
  · obtain ⟨_, _, rfl⟩ := List.mem_map.mp haction
    decide
  · exact absurd haction List.not_mem_nil

structure NetDevice where
  params : MParams
  component : List Component
  control : MParams
  cycle : ℕ
  turn : ℕ
  scount : ℕ
  deriving DecidableEq

/-- What a message makes the device notify, publish and answer. -/
structure DeviceReport where
  notified : List MMessage
  published : Option TargetPage
  answer : Option MMessage
  deriving DecidableEq

/-- The loop over the actions: what the components answer, and the components after it.  It is
undefined where the code would index a component behind the last one. -/
def Component.setValues (net : ℕ → Net) :
    NameList → List Component → Option (List String × List Component)
  | [], component => some ([], component)
  | _ :: _, [] => none
  | action :: rest, component :: others =>
      let res := component.setValue (net 0) action
      (setValues (fun i => net (i + 1)) rest others).map fun set =>
        (res.1 :: set.1, res.2 :: set.2)

namespace NetDevice

def status (device : NetDevice) : String := Device.status (device.component.map Component.status)

/-- `status` with a text stores its parts, one for each component. -/
def storeStatus (s : String) (device : NetDevice) : NetDevice :=
  let st := NameList.init [] s '+'
  { device with component := device.component.mapIdx fun i component =>
      match st[i]? with
      | some st => component.store st
      | none => component }

def sync (net : ℕ → Net) (device : NetDevice) : NetDevice :=
  let scount := if device.cycle ≤ device.scount + 1 then 0 else device.scount + 1
  if scount ≠ device.turn then { device with scount := scount }
  else
    { device with
      scount := scount
      component := device.component.mapIdx fun i component => component.sync (net i) }

def page (device : NetDevice) : TargetPage :=
  ⟨device.params.get "name", device.status, device.params.getCategory "active" "generic"⟩

def event (env : Env) (device : NetDevice) : MMessage :=
  ({ MMessage.blank with mtype := "event", msubtype := device.params.get "eventname" }.add "value"
    device.status).add "time" (double2a env.gettime)

def aggregateValue (value : String) : String :=
  String.ofList (value.toList.map fun c => if c = ' ' then '+' else c)

def valueNormalize (mtype msubtype value : String) : String :=
  if mtype = "cmd" then aggregateValue value
  else if mtype = "event" ∧ msubtype.toList.take 2 = ['L', 'S'] then "ON"
  else value

def IsSync (msg : MMessage) : Prop := msg.mtype = "trigger" ∧ msg.msubtype = "sync"

instance (msg : MMessage) : Decidable (IsSync msg) := inferInstanceAs (Decidable (_ ∧ _))

def action (msg : MMessage) (device : NetDevice) : NameList :=
  Automaton.actions device.control msg.mtype
    (valueNormalize msg.mtype msg.msubtype (msg.getString "value")) device.status

/-- One turn of the loop of `do_work`. -/
def doWork (host : DeviceHost) (env : Env) (net : ℕ → Net) (msg : MMessage) (device : NetDevice) :
    Option (NetDevice × DeviceReport) :=
  if IsSync msg then
    let currentStatus := device.status
    let synced := device.sync net
    some (synced, if synced.status ≠ currentStatus
      then ⟨[synced.event env], some synced.page, none⟩ else ⟨[], none, none⟩)
  else
    (Component.setValues net (device.action msg) device.component).map fun set =>
      let nextstatus := Device.status set.1
      let after := { device with component := set.2 }.storeStatus nextstatus
      (after, ⟨[after.event env], some after.page,
        if msg.getString "tag" ≠ "" then
          host.rpcNotify (msg.getString "tag") "value" ("value=" ++ after.status)
        else none⟩)

/-- The join of the statuses of the components. -/
def joined (device : NetDevice) : String :=
  NameList.joined (device.component.map Component.status) '+'

/-- The sync trigger is for this device. -/
def InTurn (device : NetDevice) : Prop :=
  (if device.cycle ≤ device.scount + 1 then 0 else device.scount + 1) = device.turn

instance (device : NetDevice) : Decidable device.InTurn := inferInstanceAs (Decidable (_ = _))

/-- The value that a message requests for a component: its action, or what its page shows. -/
def requested (net : ℕ → Net) (msg : MMessage) (device : NetDevice) (i : ℕ) : Option String :=
  if IsSync msg then
    if device.InTurn then device.component[i]?.bind (Component.asked (net i)) else none
  else (device.action msg)[i]?

/-- The components are in range, each has the status that was requested or the one before,
and what is notified and published is the join of the statuses. -/
structure Honours (net : ℕ → Net) (msg : MMessage) (device after : NetDevice)
    (report : DeviceReport) : Prop where
  length : after.component.length = device.component.length
  statuses : ∀ i old new, device.component[i]? = some old → after.component[i]? = some new →
    device.requested net msg i = some new.status ∨ new.status = old.status
  notified : ∀ event ∈ report.notified, event.getString "value" = after.joined
  published : ∀ page ∈ report.published, page.value = after.joined

/-- The action in a place is empty, and there is an agent to ask, or nothing to ask for. -/
def Silent (net : ℕ → Net) (msg : MMessage) (device : NetDevice) (i : ℕ) : Prop :=
  ∃ component, (device.action msg)[i]? = some "" ∧ device.component[i]? = some component ∧
    ¬component.Unreachable (net i) ""

/-- The first places that are silent; the answers behind them move up by as many places. -/
def Advances (net : ℕ → Net) (msg : MMessage) (device : NetDevice) (places : ℕ) : Prop :=
  (∀ i < places, device.Silent net msg i) ∧ ¬device.Silent net msg places

/-- A command that is carried out.  It has no more actions than the device has components.  A
component whose answer comes back to it, or to which an answer moves up, may be given that answer;
one that has no answer left is not set to the empty text, unless this does not show.  And the first
one of several does not have an empty status in the end. -/
structure CarefulCommand (net : ℕ → Net) (msg : MMessage) (device : NetDevice) : Prop where
  bounded : (device.action msg).length ≤ device.component.length
  known : ∀ places, device.Advances net msg places → ∀ i component value,
    device.component[i]? = some component → (device.action msg)[i]? = some value →
      ∀ other, device.component[i + places]? = some other →
        ∀ sent, (device.action msg)[i + places]? = some sent →
          other.Unreachable (net (i + places)) sent → component.Suits value "status"
  moved : ∀ places, device.Advances net msg places → ∀ i component value,
    device.component[i]? = some component → (device.action msg)[i]? = some value →
      ∀ other, device.component[i + places]? = some other →
        ∀ sent, (device.action msg)[i + places]? = some sent →
          ¬other.Unreachable (net (i + places)) sent →
            (sent = "" → i + places + 1 ≠ (device.action msg).length) → component.Suits value sent
  left : ∀ places, device.Advances net msg places → ∀ i component,
    device.component[i]? = some component → (device.action msg)[i]? = some "" →
      ((device.action msg).length ≤ i + places ∨
        (i + places + 1 = (device.action msg).length ∧ device.Silent net msg (i + places))) →
          component.Suits "" ""
  leading : device.component.length ≤ 1 ∨ ∀ first, device.component.head? = some first →
    (device.action msg = [] → first.status ≠ "") ∧
      (device.action msg ≠ [] → device.Advances net msg (device.action msg).length →
        first.behind ≠ "")

/-- A synchronisation that is carried out: no page shows the empty text, unless this does not show;
and the first one of several does not have an empty status in the end, if the text of the statuses
is changed at all. -/
structure CarefulSync (net : ℕ → Net) (device : NetDevice) : Prop where
  shown : ∀ i (component : Component), device.component[i]? = some component →
    component.asked (net i) = some "" → component.Suits "" ""
  leading : device.component.length ≤ 1 ∨
    Device.status (device.component.mapIdx fun i component =>
      component.heldAfter (component.asked (net i))) = device.status ∨
    ∀ first : Component, device.component.head? = some first →
      (first.asked (net 0) = none → first.status ≠ "") ∧
        (first.asked (net 0) = some "" → first.behind ≠ "")

structure Careful (net : ℕ → Net) (msg : MMessage) (device : NetDevice) : Prop where
  sync : IsSync msg → device.InTurn → device.CarefulSync net
  command : ¬IsSync msg → device.CarefulCommand net msg

/-- The answers of the components that have an action. -/
def answers (net : ℕ → Net) (action : NameList) (component : List Component) : List String :=
  (action.zip component).mapIdx fun i pair => pair.2.answer (net i) pair.1

/-- The value that a component is left with, if it is given one: its part of the text of the
answers, or its action where the text has no such part. -/
def given (net : ℕ → Net) (msg : MMessage) (device : NetDevice) (i : ℕ) : Option String :=
  if IsSync msg then device.requested net msg i
  else (device.action msg)[i]?.map fun value =>
    (Device.delivered (answers net (device.action msg) device.component))[i]?.getD value

/-- The statuses of the components that are left with the values they are given. -/
def heldStatuses (net : ℕ → Net) (msg : MMessage) (device : NetDevice) : List String :=
  device.component.mapIdx fun i component => component.heldAfter (device.given net msg i)

/-- There are no more actions than components; each component reads the value it is given as
the one requested or as its status of before; and where there is something to report, the
first of several components is not left with an empty status. -/
structure WellHeld (net : ℕ → Net) (msg : MMessage) (device : NetDevice) : Prop where
  bounded : ¬IsSync msg → (device.action msg).length ≤ device.component.length
  accepted : ∀ i component value, device.component[i]? = some component →
    device.given net msg i = some value →
      device.requested net msg i = some (component.holding value) ∨
        component.holding value = component.status
  leading : device.component.length ≤ 1 ∨
    (IsSync msg ∧ Device.status (device.heldStatuses net msg) = device.status) ∨
      ∀ component, device.component.head? = some component →
        component.heldAfter (device.given net msg 0) ≠ ""

theorem setValues_eq (net : ℕ → Net) (action : NameList) (component : List Component) :
    Component.setValues net action component =
      if action.length ≤ component.length then
        some (answers net action component, component.mapIdx fun i component =>
          match action[i]? with
          | some value => (component.setValue (net i) value).2
          | none => component)
      else none := by
  induction action generalizing net component with
  | nil =>
      have hsame : (component.mapIdx fun i component =>
          match ([] : NameList)[i]? with
          | some value => (component.setValue (net i) value).2
          | none => component) = component := by
        apply List.ext_getElem?
        intro i
        rw [List.getElem?_mapIdx]
        cases component[i]? <;> rfl
      rw [hsame]
      rfl
  | cons value rest ih =>
      cases component with
      | nil => rw [Component.setValues, if_neg (by simp)]
      | cons component others =>
          rw [Component.setValues, ih]
          simp only [List.length_cons, Nat.add_le_add_iff_right]
          split
          · rw [Option.map_some, answers, answers, List.zip_cons_cons, List.mapIdx_cons,
              List.mapIdx_cons, Component.setValue_fst]
            rfl
          · rfl

theorem mem_answers {net : ℕ → Net} {action : NameList} {component : List Component}
    (hlack : ∀ value ∈ action, '+' ∉ value.toList) :
    ∀ answer ∈ answers net action component, '+' ∉ answer.toList := by
  intro answer hanswer
  rw [answers] at hanswer
  obtain ⟨i, hi, rfl⟩ := List.mem_iff_getElem.mp hanswer
  rw [List.getElem_mapIdx, Component.answer]
  split
  · decide
  · rw [List.getElem_zip]
    exact hlack _ (List.getElem_mem _)

theorem length_answers_le (net : ℕ → Net) (action : NameList) (component : List Component) :
    (answers net action component).length ≤ action.length := by
  rw [answers, List.length_mapIdx, List.length_zip]
  exact min_le_left _ _

/-- What a turn leaves: every component with the value it is given. -/
theorem statuses_setValues {net : ℕ → Net} {msg : MMessage} {device : NetDevice}
    (hsync : ¬IsSync msg) {set : List String × List Component}
    (hset : Component.setValues net (device.action msg) device.component = some set) :
    ({ device with component := set.2 }.storeStatus (Device.status set.1)).component.map
        Component.status = device.heldStatuses net msg := by
  rw [setValues_eq] at hset
  split at hset
  · obtain rfl := Option.some.inj hset
    have hread : NameList.init [] (Device.status (answers net (device.action msg)
        device.component)) '+' = Device.delivered (answers net (device.action msg)
          device.component) :=
      Device.init_status (mem_answers fun value hvalue => Automaton.not_mem_actions hvalue)
    have hlength := (Device.length_delivered_le _).trans
      (length_answers_le net (device.action msg) device.component)
    simp only [storeStatus, hread, heldStatuses, given, if_neg hsync]
    generalize Device.delivered (answers net (device.action msg) device.component) = st
      at hlength ⊢
    apply List.ext_getElem?
    intro i
    simp only [List.getElem?_map, List.getElem?_mapIdx, Option.map_map]
    cases device.component[i]? with
    | none => rfl
    | some component =>
        simp only [Option.map_some, Function.comp_apply, Option.some.injEq]
        cases haction : (device.action msg)[i]? with
        | none =>
            have hnone : st[i]? = none := by
              rw [List.getElem?_eq_none_iff] at haction ⊢
              omega
            rw [hnone]
            rfl
        | some value =>
            obtain ⟨hstatus, hholding⟩ := Component.setValue_snd (net i) value component
            cases st[i]? with
            | none => exact hstatus
            | some w => exact (Component.status_store w _).trans (hholding w)
  · exact absurd hset.symm (Option.some_ne_none _)

theorem statuses_sync (net : ℕ → Net) {msg : MMessage} (device : NetDevice)
    (hsync : IsSync msg) :
    (device.sync net).component.map Component.status = device.heldStatuses net msg := by
  have hgiven : ∀ i, device.given net msg i =
      if device.InTurn then device.component[i]?.bind (Component.asked (net i)) else none := by
    intro i
    rw [given, if_pos hsync, requested, if_pos hsync]
  apply List.ext_getElem?
  intro i
  simp only [heldStatuses, hgiven, List.getElem?_map, List.getElem?_mapIdx]
  by_cases hturn : device.InTurn
  · have hcomponent : (device.sync net).component =
        device.component.mapIdx fun i component => component.sync (net i) := by
      rw [InTurn] at hturn
      rw [sync, if_neg (not_not_intro hturn)]
    rw [hcomponent, List.getElem?_mapIdx]
    cases hi : device.component[i]? with
    | none => rfl
    | some component =>
        simp only [Option.map_some, if_pos hturn, Option.bind_some]
        rw [Component.status_sync]
  · have hcomponent : (device.sync net).component = device.component := by
      rw [InTurn] at hturn
      rw [sync, if_pos hturn]
    rw [hcomponent]
    simp only [if_neg hturn]
    rfl

/-! ## The messages that are handled -/

/-- The message is handled within the components, and what was requested is honoured. -/
def Obeys (host : DeviceHost) (env : Env) (net : ℕ → Net) (msg : MMessage)
    (device : NetDevice) : Prop :=
  ∃ after report, device.doWork host env net msg = some (after, report) ∧
    device.Honours net msg after report

theorem getString_event (env : Env) (device : NetDevice) :
    (device.event env).getString "value" = device.status := by
  rw [event, MMessage.getString_add_of_ne _ _ (by decide)]
  exact MMessage.getString_add_self _ _ _ fun _ => Option.some_ne_none _ ∘ Eq.symm

section Outcome

variable {net : ℕ → Net} {msg : MMessage} {device after : NetDevice}
  (hheld : after.component.map Component.status = device.heldStatuses net msg)

include hheld

theorem statuses_iff_accepted :
    (∀ i old new, device.component[i]? = some old → after.component[i]? = some new →
      device.requested net msg i = some new.status ∨ new.status = old.status) ↔
    ∀ i component value, device.component[i]? = some component →
      device.given net msg i = some value →
        device.requested net msg i = some (component.holding value) ∨
          component.holding value = component.status := by
  have hnew : ∀ i (old : Component), device.component[i]? = some old →
      ∃ new : Component, after.component[i]? = some new ∧
      new.status = old.heldAfter (device.given net msg i) := by
    intro i old hold
    have hi := congrArg (fun statuses => statuses[i]?) hheld
    simp only [heldStatuses, List.getElem?_map, List.getElem?_mapIdx, hold, Option.map_some]
      at hi
    exact Option.map_eq_some_iff.mp hi
  constructor
  · intro h i component value hcomponent hgiven
    obtain ⟨new, hafter, hstatus⟩ := hnew i component hcomponent
    have hkept := h i component new hcomponent hafter
    rw [hstatus, hgiven] at hkept
    exact hkept
  · intro h i old new hold hafter
    obtain ⟨found, hfound, hstatus⟩ := hnew i old hold
    obtain rfl : found = new := Option.some.inj (hfound.symm.trans hafter)
    cases hgiven : device.given net msg i with
    | none =>
        rw [hgiven] at hstatus
        exact Or.inr hstatus
    | some value =>
        rw [hstatus, hgiven]
        exact h i old value hold hgiven

/-- The text that is reported is the join exactly when it does not start with an empty status. -/
theorem status_eq_joined_iff_leading :
    after.status = after.joined ↔ device.component.length ≤ 1 ∨
      ∀ component, device.component.head? = some component →
        component.heldAfter (device.given net msg 0) ≠ "" := by
  have hlength : (device.heldStatuses net msg).length = device.component.length :=
    List.length_mapIdx
  have hhead : (device.heldStatuses net msg).head? ≠ some "" ↔
      ∀ component, device.component.head? = some component →
        component.heldAfter (device.given net msg 0) ≠ "" := by
    rw [heldStatuses]
    cases device.component with
    | nil => simp
    | cons component rest => simp [List.mapIdx_cons]
  rw [status, joined, hheld, Device.status_eq_joined_iff, hlength, hhead]

theorem length_eq : after.component.length = device.component.length := by
  have hlength := congrArg List.length hheld
  rwa [List.length_map, heldStatuses, List.length_mapIdx] at hlength

theorem honours_reported_iff (env : Env) (answer : Option MMessage) :
    device.Honours net msg after ⟨[after.event env], some after.page, answer⟩ ↔
      (∀ i component value, device.component[i]? = some component →
        device.given net msg i = some value →
          device.requested net msg i = some (component.holding value) ∨
            component.holding value = component.status) ∧
      (device.component.length ≤ 1 ∨
        ∀ component, device.component.head? = some component →
          component.heldAfter (device.given net msg 0) ≠ "") := by
  rw [← statuses_iff_accepted hheld, ← status_eq_joined_iff_leading hheld]
  constructor
  · intro h
    exact ⟨h.statuses, h.published after.page rfl⟩
  · rintro ⟨hstatuses, hjoined⟩
    refine ⟨length_eq hheld, hstatuses, fun event hevent => ?_, fun page hpage => ?_⟩
    · rw [List.mem_singleton.mp hevent, getString_event, hjoined]
    · rw [← Option.mem_some.mp hpage]
      exact hjoined

theorem honours_silent_iff :
    device.Honours net msg after ⟨[], none, none⟩ ↔
      ∀ i component value, device.component[i]? = some component →
        device.given net msg i = some value →
          device.requested net msg i = some (component.holding value) ∨
            component.holding value = component.status := by
  rw [← statuses_iff_accepted hheld]
  constructor
  · intro h
    exact h.statuses
  · intro h
    exact ⟨length_eq hheld, h, fun event hevent => absurd hevent List.not_mem_nil,
      fun page hpage => absurd hpage (Option.not_mem_none page)⟩

end Outcome

/-- A synchronisation reports when the text of the statuses has changed. -/
theorem doWork_of_sync (host : DeviceHost) (env : Env) {net : ℕ → Net} {msg : MMessage}
    {device : NetDevice} (hsync : IsSync msg) :
    device.doWork host env net msg = some (device.sync net,
      if Device.status (device.heldStatuses net msg) ≠ device.status
        then ⟨[(device.sync net).event env], some (device.sync net).page, none⟩
        else ⟨[], none, none⟩) := by
  have hstatus : (device.sync net).status = Device.status (device.heldStatuses net msg) := by
    rw [status, statuses_sync net device hsync]
  simp only [doWork, if_pos hsync, hstatus]

/-- More actions than components end in an exception. -/
theorem doWork_of_overlong (host : DeviceHost) (env : Env) (net : ℕ → Net) {msg : MMessage}
    {device : NetDevice} (hsync : ¬IsSync msg)
    (hover : ¬(device.action msg).length ≤ device.component.length) :
    device.doWork host env net msg = none := by
  rw [doWork, if_neg hsync, setValues_eq, if_neg hover]
  rfl

theorem obeys_iff_of_sync (host : DeviceHost) (env : Env) {net : ℕ → Net} {msg : MMessage}
    {device : NetDevice} (hsync : IsSync msg) :
    device.Obeys host env net msg ↔ device.WellHeld net msg := by
  have hheld := statuses_sync net device hsync
  have hobeys : device.Obeys host env net msg ↔ device.Honours net msg (device.sync net)
      (if Device.status (device.heldStatuses net msg) ≠ device.status
        then ⟨[(device.sync net).event env], some (device.sync net).page, none⟩
        else ⟨[], none, none⟩) := by
    rw [Obeys, doWork_of_sync host env hsync]
    simp
  rw [hobeys]
  by_cases hsame : Device.status (device.heldStatuses net msg) = device.status
  · rw [if_neg (not_not_intro hsame), honours_silent_iff hheld]
    constructor
    · intro h
      exact ⟨fun hother => absurd hsync hother, h, Or.inr (Or.inl ⟨hsync, hsame⟩)⟩
    · intro h
      exact h.accepted
  · rw [if_pos hsame, honours_reported_iff hheld]
    constructor
    · rintro ⟨haccepted, hleading⟩
      exact ⟨fun hother => absurd hsync hother, haccepted, hleading.imp_right Or.inr⟩
    · intro h
      refine ⟨h.accepted, ?_⟩
      obtain hone | ⟨-, heq⟩ | hhead := h.leading
      · exact Or.inl hone
      · exact absurd heq hsame
      · exact Or.inr hhead

theorem obeys_iff_of_command (host : DeviceHost) (env : Env) {net : ℕ → Net} {msg : MMessage}
    {device : NetDevice} (hsync : ¬IsSync msg) :
    device.Obeys host env net msg ↔ device.WellHeld net msg := by
  by_cases hbound : (device.action msg).length ≤ device.component.length
  · obtain ⟨set, hset⟩ : ∃ set,
        Component.setValues net (device.action msg) device.component = some set := by
      rw [setValues_eq, if_pos hbound]
      exact ⟨_, rfl⟩
    have hheld := statuses_setValues hsync hset
    have hobeys := honours_reported_iff hheld env
      (if msg.getString "tag" ≠ "" then
        host.rpcNotify (msg.getString "tag") "value" ("value=" ++
          ({ device with component := set.2 }.storeStatus (Device.status set.1)).status)
        else none)
    rw [Obeys, doWork, if_neg hsync, hset]
    simp only [Option.map_some, Option.some.injEq, Prod.mk.injEq, and_assoc,
      exists_eq_left', exists_and_left]
    rw [hobeys]
    constructor
    · rintro ⟨haccepted, hleading⟩
      exact ⟨fun _ => hbound, haccepted, hleading.imp_right Or.inr⟩
    · intro h
      refine ⟨h.accepted, ?_⟩
      obtain hone | ⟨hother, -⟩ | hhead := h.leading
      · exact Or.inl hone
      · exact absurd hother hsync
      · exact Or.inr hhead
  · constructor
    · rintro ⟨after, report, hwork, -⟩
      rw [doWork_of_overlong host env net hsync hbound] at hwork
      exact absurd hwork.symm (Option.some_ne_none _)
    · intro h
      exact absurd (h.bounded hsync) hbound

/-! ## The parts of the answers -/

/-- The empty answers in front are the silent places. -/
theorem dropWhile_empty_eq_drop {answers : List String} {places : ℕ}
    (hfront : ∀ i < places, answers[i]? = some "") (hfirst : answers[places]? ≠ some "") :
    (answers.dropWhile fun answer => answer = "") = answers.drop places := by
  induction places generalizing answers with
  | zero =>
      cases answers with
      | nil => rfl
      | cons answer rest =>
          have hanswer : answer ≠ "" := fun h => hfirst (congrArg some h)
          rw [List.dropWhile_cons_of_neg (by simpa using hanswer), List.drop_zero]
  | succ places ih =>
      cases answers with
      | nil => rfl
      | cons answer rest =>
          have hanswer : answer = "" := Option.some.inj (hfront 0 (Nat.succ_pos _))
          rw [List.dropWhile_cons_of_pos (by simpa using hanswer), List.drop_succ_cons]
          exact ih (fun j hj => hfront (j + 1) (Nat.succ_lt_succ hj)) hfirst

/-- The parts that are read back: those behind the silent places, but for an empty last one. -/
theorem getElem?_delivered {answers : List String} {places : ℕ}
    (hfront : ∀ i < places, answers[i]? = some "") (hfirst : answers[places]? ≠ some "") (i : ℕ) :
    (Device.delivered answers)[i]? =
      if i + places + 1 = answers.length ∧ answers[i + places]? = some "" then none
      else answers[i + places]? := by
  have hat : ∀ j, (answers.drop places)[j]? = answers[j + places]? := fun j => by
    rw [List.getElem?_drop, Nat.add_comm]
  have hlength : (answers.drop places).length = answers.length - places := List.length_drop
  have hlast : (answers.drop places).getLast? = answers[answers.length - places - 1 + places]? := by
    rw [List.getLast?_eq_getElem?, hat, hlength]
  rw [Device.delivered, dropWhile_empty_eq_drop hfront hfirst]
  by_cases hlt : places < answers.length
  · have hplace : answers.length - places - 1 + places + 1 = answers.length := by omega
    by_cases hempty : (answers.drop places).getLast? = some ""
    · rw [if_pos hempty, List.getElem?_dropLast, hlength, hat]
      rw [hlast] at hempty
      by_cases hi : i = answers.length - places - 1
      · rw [hi, if_neg (lt_irrefl _), if_pos ⟨hplace, hempty⟩]
      · have hother : ¬(i + places + 1 = answers.length ∧ answers[i + places]? = some "") :=
          fun h => hi (by omega)
        rw [if_neg hother]
        split
        · rfl
        · rw [List.getElem?_eq_none (by omega)]
    · rw [if_neg hempty, hat]
      rw [hlast] at hempty
      have hother : ¬(i + places + 1 = answers.length ∧ answers[i + places]? = some "") := by
        rintro ⟨hend, hnone⟩
        have hi : i + places = answers.length - places - 1 + places := by omega
        exact hempty (hi ▸ hnone)
      rw [if_neg hother]
  · have hnil : answers.drop places = [] := List.drop_eq_nil_of_le (by omega)
    have hnone : answers[i + places]? = none := List.getElem?_eq_none (by omega)
    rw [hnil, hnone]
    simp

section Command

variable {net : ℕ → Net} {msg : MMessage} {device : NetDevice}
  (hbound : (device.action msg).length ≤ device.component.length)

include hbound

theorem exists_component {i : ℕ} {value : String} (hvalue : (device.action msg)[i]? = some value) :
    ∃ component, device.component[i]? = some component := by
  have hi := (List.getElem?_eq_some_iff.mp hvalue).1
  exact ⟨_, List.getElem?_eq_getElem (lt_of_lt_of_le hi hbound)⟩

theorem length_answers :
    (answers net (device.action msg) device.component).length = (device.action msg).length := by
  rw [answers, List.length_mapIdx, List.length_zip]
  omega

omit hbound in
theorem getElem?_answers {i : ℕ} {value : String} {component : Component}
    (hvalue : (device.action msg)[i]? = some value)
    (hcomponent : device.component[i]? = some component) :
    (answers net (device.action msg) device.component)[i]? =
      some (component.answer (net i) value) := by
  have hzip : ((device.action msg).zip device.component)[i]? = some (value, component) :=
    List.getElem?_zip_eq_some.mpr ⟨hvalue, hcomponent⟩
  rw [answers, List.getElem?_mapIdx, hzip, Option.map_some]

/-- The silent places are those with an empty answer. -/
theorem silent_iff (i : ℕ) :
    device.Silent net msg i ↔
      (answers net (device.action msg) device.component)[i]? = some "" := by
  constructor
  · rintro ⟨component, hvalue, hcomponent, hknown⟩
    rw [getElem?_answers hvalue hcomponent, Component.answer, if_neg hknown]
  · intro hempty
    cases hvalue : (device.action msg)[i]? with
    | none =>
        have hlength : (answers net (device.action msg) device.component).length =
            (device.action msg).length := length_answers hbound
        rw [List.getElem?_eq_none_iff, ← hlength, ← List.getElem?_eq_none_iff, hempty] at hvalue
        exact absurd hvalue (Option.some_ne_none _)
    | some value =>
        obtain ⟨component, hcomponent⟩ := exists_component hbound hvalue
        rw [getElem?_answers hvalue hcomponent, Option.some.injEq, Component.answer] at hempty
        split_ifs at hempty with hunknown
        · exact absurd hempty (by decide)
        · exact ⟨component, hempty ▸ hvalue, hcomponent, hempty ▸ hunknown⟩

omit hbound in
theorem not_silent_length (net : ℕ → Net) (msg : MMessage) (device : NetDevice) :
    ¬device.Silent net msg (device.action msg).length := by
  rintro ⟨component, hvalue, -⟩
  rw [List.getElem?_eq_none (le_refl _)] at hvalue
  exact nomatch hvalue

omit hbound in
theorem exists_advances (net : ℕ → Net) (msg : MMessage) (device : NetDevice) :
    ∃ places, device.Advances net msg places := by
  classical
  have hend : ∃ places, ¬device.Silent net msg places := ⟨_, not_silent_length net msg device⟩
  exact ⟨Nat.find hend, fun i hi => not_not.mp (Nat.find_min hend hi), Nat.find_spec hend⟩

omit hbound in
theorem Advances.le_length {places : ℕ} (h : device.Advances net msg places) :
    places ≤ (device.action msg).length :=
  not_lt.mp fun hlt => not_silent_length net msg device (h.1 _ hlt)

/-- The part of the answers that a component gets, or its own action. -/
theorem given_eq (hsync : ¬IsSync msg) {places : ℕ} (hadvances : device.Advances net msg places)
    {i : ℕ} {value : String} (hvalue : (device.action msg)[i]? = some value) :
    device.given net msg i = some (
      if i + places + 1 = (device.action msg).length ∧
          (answers net (device.action msg) device.component)[i + places]? = some "" then value
      else ((answers net (device.action msg) device.component)[i + places]?).getD value) := by
  have hfront := fun j hj => (silent_iff hbound j).mp (hadvances.1 j hj)
  have hfirst := fun h => hadvances.2 ((silent_iff hbound places).mpr h)
  rw [given, if_neg hsync, hvalue, Option.map_some, getElem?_delivered hfront hfirst,
    length_answers hbound]
  split <;> rfl

/-- What a component is given suits it exactly when it is fine in each of the three cases. -/
theorem suits_given_iff (hsync : ¬IsSync msg) {places : ℕ}
    (hadvances : device.Advances net msg places) {i : ℕ} {value : String} {component : Component}
    (hvalue : (device.action msg)[i]? = some value) :
    (∀ held, device.given net msg i = some held → component.Suits value held) ↔
      (∀ other, device.component[i + places]? = some other →
        ∀ sent, (device.action msg)[i + places]? = some sent →
          other.Unreachable (net (i + places)) sent → component.Suits value "status") ∧
      (∀ other, device.component[i + places]? = some other →
        ∀ sent, (device.action msg)[i + places]? = some sent →
          ¬other.Unreachable (net (i + places)) sent →
            (sent = "" → i + places + 1 ≠ (device.action msg).length) →
              component.Suits value sent) ∧
      (value = "" → ((device.action msg).length ≤ i + places ∨
        (i + places + 1 = (device.action msg).length ∧ device.Silent net msg (i + places))) →
          component.Suits "" "") := by
  have hown : component.Suits value value ↔ (value = "" → component.Suits "" "") := by
    constructor
    · rintro h rfl
      exact h
    · intro h
      exact ⟨fun _ => .inl rfl, fun hempty => hempty ▸ (h hempty).empty rfl⟩
  rw [given_eq hbound hsync hadvances hvalue]
  simp only [Option.some.injEq, forall_eq']
  cases hsent : (device.action msg)[i + places]? with
  | none =>
      have hend : (device.action msg).length ≤ i + places := List.getElem?_eq_none_iff.mp hsent
      have hnone : (answers net (device.action msg) device.component)[i + places]? = none :=
        List.getElem?_eq_none (by rw [length_answers hbound]; exact hend)
      have hover : ¬(i + places + 1 = (device.action msg).length ∧
          (none : Option String) = some "") := fun h => nomatch h.2
      rw [hnone, if_neg hover, Option.getD_none, hown]
      simp [hend]
  | some sent =>
      obtain ⟨other, hother⟩ := exists_component hbound hsent
      have hwithin : ¬(device.action msg).length ≤ i + places :=
        not_le.mpr (List.getElem?_eq_some_iff.mp hsent).1
      rw [silent_iff hbound, getElem?_answers hsent hother, Option.getD_some, Component.answer,
        hother]
      simp only [Option.some.injEq, forall_eq', hwithin, false_or]
      by_cases hunknown : other.Unreachable (net (i + places)) sent
      · simp [hunknown]
      · by_cases hlast : i + places + 1 = (device.action msg).length ∧ sent = ""
        · obtain ⟨hend, rfl⟩ := hlast
          simp [hunknown, hend, hown]
        · have hread : sent = "" → i + places + 1 ≠ (device.action msg).length :=
            fun hempty hend => hlast ⟨hend, hempty⟩
          simp only [hunknown, hlast, if_false, not_false_eq_true, false_imp_iff, true_imp_iff,
            implies_true, and_true, true_and]
          exact ⟨fun h _ => h, fun h => h hread⟩

end Command

/-! ## Careful messages -/

theorem requested_of_command {net : ℕ → Net} {msg : MMessage} (device : NetDevice)
    (hsync : ¬IsSync msg) (i : ℕ) : device.requested net msg i = (device.action msg)[i]? := by
  rw [requested, if_neg hsync]

/-- The components accept what a command gives them when every one of them suits. -/
theorem accepted_iff_of_command {net : ℕ → Net} {msg : MMessage} {device : NetDevice}
    (hsync : ¬IsSync msg) :
    (∀ i component value, device.component[i]? = some component →
        device.given net msg i = some value →
          device.requested net msg i = some (component.holding value) ∨
            component.holding value = component.status) ↔
      ∀ i component value, device.component[i]? = some component →
        (device.action msg)[i]? = some value →
          ∀ held, device.given net msg i = some held → component.Suits value held := by
  simp only [requested_of_command device hsync, Component.suits_iff]
  constructor
  · intro h i component value hcomponent hvalue held hheld
    have hsuits := h i component held hcomponent hheld
    rwa [hvalue, Option.some.injEq, eq_comm] at hsuits
  · intro h i component held hcomponent hheld
    cases hvalue : (device.action msg)[i]? with
    | none =>
        rw [given, if_neg hsync, hvalue] at hheld
        exact nomatch hheld
    | some value =>
        rw [Option.some.injEq, eq_comm (a := value)]
        exact h i component value hcomponent hvalue held hheld

/-- What the first component is left with reads as empty exactly if it has no action and an empty
status, or if there is nothing behind its empty action and no answer comes up. -/
theorem leading_iff_of_command {net : ℕ → Net} {msg : MMessage} {device : NetDevice}
    (hbound : (device.action msg).length ≤ device.component.length) (hsync : ¬IsSync msg)
    {first : Component} :
    first.heldAfter (device.given net msg 0) ≠ "" ↔
      (device.action msg = [] → first.status ≠ "") ∧
        (device.action msg ≠ [] → device.Advances net msg (device.action msg).length →
          first.behind ≠ "") := by
  cases hvalue : (device.action msg)[0]? with
  | none =>
      have hnil : device.action msg = [] := by
        rw [List.getElem?_eq_none_iff, Nat.le_zero] at hvalue
        exact List.length_eq_zero_iff.mp hvalue
      rw [given, if_neg hsync, hvalue, Option.map_none]
      simp [hnil, Component.heldAfter]
  | some value =>
      have hsome : device.action msg ≠ [] := fun hnil => by
        rw [hnil] at hvalue
        exact nomatch hvalue
      obtain ⟨places, hadvances⟩ := exists_advances net msg device
      have hloud : ¬(places + 1 = (device.action msg).length ∧
          (answers net (device.action msg) device.component)[places]? = some "") :=
        fun hlast => hadvances.2 ((silent_iff hbound places).mpr hlast.2)
      rw [given_eq hbound hsync hadvances hvalue, Nat.zero_add, if_neg hloud]
      simp only [hsome, false_imp_iff, true_and, ne_eq, not_false_eq_true, true_imp_iff]
      cases hsent : (device.action msg)[places]? with
      | some sent =>
          -- An answer comes up, and it is not empty.
          have hlt := (List.getElem?_eq_some_iff.mp hsent).1
          obtain ⟨other, hother⟩ := exists_component hbound hsent
          have hfull := hadvances.2
          rw [silent_iff hbound, getElem?_answers hsent hother, Option.some.injEq] at hfull
          rw [getElem?_answers hsent hother, Option.getD_some, Component.heldAfter,
            Component.holding_of_ne hfull]
          exact iff_of_true hfull fun hall => absurd (hall.1 places hlt) hadvances.2
      | none =>
          -- All places are silent, and the first component keeps its own empty action.
          have hend : (device.action msg).length ≤ places := List.getElem?_eq_none_iff.mp hsent
          have hlength : places = (device.action msg).length :=
            le_antisymm hadvances.le_length hend
          have hpos := (List.getElem?_eq_some_iff.mp hvalue).1
          obtain ⟨_, hempty, -⟩ := hadvances.1 0 (by omega)
          obtain rfl := Option.some.inj (hvalue.symm.trans hempty)
          have hnone : (answers net (device.action msg) device.component)[places]? = none :=
            List.getElem?_eq_none (by rw [length_answers hbound]; exact hend)
          rw [hnone, Option.getD_none, Component.heldAfter, Component.holding, if_pos rfl]
          exact ⟨fun h _ => h, fun h => h (hlength ▸ hadvances)⟩

theorem wellHeld_iff_carefulCommand {net : ℕ → Net} {msg : MMessage} {device : NetDevice}
    (hsync : ¬IsSync msg) : device.WellHeld net msg ↔ device.CarefulCommand net msg := by
  constructor
  · intro h
    have hbound := h.bounded hsync
    have hsuits := fun places (hadvances : device.Advances net msg places) i component value
        hcomponent hvalue =>
      (suits_given_iff hbound hsync hadvances hvalue).mp
        ((accepted_iff_of_command hsync).mp h.accepted i component value hcomponent hvalue)
    refine ⟨hbound, ?_, ?_, ?_, ?_⟩
    · intro places hadvances i component value hcomponent hvalue
      exact (hsuits places hadvances i component value hcomponent hvalue).1
    · intro places hadvances i component value hcomponent hvalue
      exact (hsuits places hadvances i component value hcomponent hvalue).2.1
    · intro places hadvances i component hcomponent hvalue
      exact (hsuits places hadvances i component "" hcomponent hvalue).2.2 rfl
    · refine h.leading.imp_right fun hleading first hfirst => ?_
      have hhead := hleading.resolve_left fun hother => hsync hother.1
      exact (leading_iff_of_command hbound hsync).mp (hhead first hfirst)
  · intro h
    refine ⟨fun _ => h.bounded, ?_, ?_⟩
    · rw [accepted_iff_of_command hsync]
      intro i component value hcomponent hvalue
      obtain ⟨places, hadvances⟩ := exists_advances net msg device
      refine (suits_given_iff h.bounded hsync hadvances hvalue).mpr ⟨?_, ?_, ?_⟩
      · exact h.known places hadvances i component value hcomponent hvalue
      · exact h.moved places hadvances i component value hcomponent hvalue
      · rintro rfl
        exact h.left places hadvances i component hcomponent hvalue
    · refine h.leading.imp_right fun hleading => .inr fun first hfirst => ?_
      exact (leading_iff_of_command h.bounded hsync).mpr (hleading first hfirst)

section Sync

variable {net : ℕ → Net} {msg : MMessage} {device : NetDevice} (hsync : IsSync msg)

include hsync

variable (net) in
theorem given_of_sync (hturn : device.InTurn) {i : ℕ} {component : Component}
    (hcomponent : device.component[i]? = some component) :
    device.given net msg i = component.asked (net i) ∧
      device.requested net msg i = component.asked (net i) := by
  rw [given, if_pos hsync, requested, if_pos hsync, if_pos hturn, hcomponent, Option.bind_some]
  exact ⟨rfl, rfl⟩

theorem given_of_not_inTurn (hturn : ¬device.InTurn) (i : ℕ) : device.given net msg i = none := by
  rw [given, if_pos hsync, requested, if_pos hsync, if_neg hturn]

/-- What the pages show is accepted when an empty text does not show. -/
theorem accepted_iff_of_sync (hturn : device.InTurn) :
    (∀ i component value, device.component[i]? = some component →
        device.given net msg i = some value →
          device.requested net msg i = some (component.holding value) ∨
            component.holding value = component.status) ↔
      ∀ i (component : Component), device.component[i]? = some component →
        component.asked (net i) = some "" → component.Suits "" "" := by
  constructor
  · intro h i component hcomponent hasked
    obtain ⟨hgiven, hrequested⟩ := given_of_sync net hsync hturn hcomponent
    have hheld := h i component "" hcomponent (hgiven.trans hasked)
    rw [hrequested, hasked, Option.some.injEq, eq_comm (a := "")] at hheld
    exact (Component.suits_iff "" "" component).mpr hheld
  · intro h i component value hcomponent hvalue
    obtain ⟨hgiven, hrequested⟩ := given_of_sync net hsync hturn hcomponent
    have hasked := hgiven.symm.trans hvalue
    rw [hrequested, hasked, Option.some.injEq, eq_comm (a := value)]
    by_cases hempty : value = ""
    · subst hempty
      exact (Component.suits_iff "" "" component).mp (h i component hcomponent hasked)
    · exact .inl (Component.holding_of_ne hempty component)

variable (net) in
theorem heldStatuses_of_sync (hturn : device.InTurn) :
    device.heldStatuses net msg = device.component.mapIdx fun i component =>
      component.heldAfter (component.asked (net i)) := by
  apply List.ext_getElem?
  intro i
  rw [heldStatuses, List.getElem?_mapIdx, List.getElem?_mapIdx]
  cases hcomponent : device.component[i]? with
  | none => rfl
  | some component =>
      rw [Option.map_some, Option.map_some, (given_of_sync net hsync hturn hcomponent).1]

theorem heldStatuses_of_not_inTurn (hturn : ¬device.InTurn) :
    device.heldStatuses net msg = device.component.map Component.status := by
  apply List.ext_getElem?
  intro i
  rw [heldStatuses, List.getElem?_mapIdx, List.getElem?_map, given_of_not_inTurn hsync hturn]
  rfl

omit hsync in
theorem heldAfter_asked_iff (net : Net) (first : Component) :
    first.heldAfter (first.asked net) ≠ "" ↔
      (first.asked net = none → first.status ≠ "") ∧
        (first.asked net = some "" → first.behind ≠ "") := by
  cases hasked : first.asked net with
  | none => simp [Component.heldAfter]
  | some shown =>
      by_cases hshown : shown = ""
      · simp [Component.heldAfter, Component.holding, Component.behind, hshown]
      · simp [Component.heldAfter, Component.holding, hshown]

theorem wellHeld_iff_carefulSync :
    device.WellHeld net msg ↔ (device.InTurn → device.CarefulSync net) := by
  by_cases hturn : device.InTurn
  · have hhead : ∀ first, device.component.head? = some first →
        device.given net msg 0 = first.asked (net 0) := by
      intro first hfirst
      rw [List.head?_eq_getElem?] at hfirst
      exact (given_of_sync net hsync hturn hfirst).1
    constructor
    · intro h _
      refine ⟨(accepted_iff_of_sync hsync hturn).mp h.accepted, h.leading.imp_right ?_⟩
      rintro (⟨-, hsame⟩ | hfull)
      · exact .inl (heldStatuses_of_sync net hsync hturn ▸ hsame)
      · refine .inr fun first hfirst => (heldAfter_asked_iff (net 0) first).mp ?_
        exact hhead first hfirst ▸ hfull first hfirst
    · intro h
      have hcareful := h hturn
      refine ⟨fun hother => absurd hsync hother,
        (accepted_iff_of_sync hsync hturn).mpr hcareful.shown, hcareful.leading.imp_right ?_⟩
      rintro (hsame | hfull)
      · exact .inl ⟨hsync, (heldStatuses_of_sync net hsync hturn).symm ▸ hsame⟩
      · refine .inr fun first hfirst => ?_
        rw [hhead first hfirst]
        exact (heldAfter_asked_iff (net 0) first).mpr (hfull first hfirst)
  · refine iff_of_true ⟨fun hother => absurd hsync hother, ?_, ?_⟩ fun h => absurd h hturn
    · intro i component value _ hvalue
      exact nomatch (given_of_not_inTurn hsync hturn i).symm.trans hvalue
    · refine .inr (.inl ⟨hsync, ?_⟩)
      rw [heldStatuses_of_not_inTurn hsync hturn]
      rfl

end Sync

/-- A message is handled as it should be exactly when it has no more actions than the device has
components and no component is given a value that was not requested of it. -/
theorem obeys_iff_careful (host : DeviceHost) (env : Env) (net : ℕ → Net) (msg : MMessage)
    (device : NetDevice) : device.Obeys host env net msg ↔ device.Careful net msg := by
  by_cases hsync : IsSync msg
  · rw [obeys_iff_of_sync host env hsync, wellHeld_iff_carefulSync hsync]
    exact ⟨fun h => ⟨fun _ => h, fun hother => absurd hsync hother⟩, fun h => h.sync hsync⟩
  · rw [obeys_iff_of_command host env hsync, wellHeld_iff_carefulCommand hsync]
    exact ⟨fun h => ⟨fun hother => absurd hother hsync, fun _ => h⟩, fun h => h.command hsync⟩

/-- A device of one lamp, whose agent is not known. -/
def lamp : NetDevice where
  params := ⟨"hall", [⟨"name", "generic", "LI_hall"⟩, ⟨"eventname", "generic", "LI_hall"⟩],
    none, none⟩
  component := [⟨⟨"lamp", [⟨"name", "generic", "LI_lamp"⟩, ⟨"status", "generic", "OFF"⟩,
    ⟨"ON", "cmd", "/on"⟩, ⟨"ON", "answer", "ON"⟩], none, none⟩, ""⟩]
  control := ⟨"control", [⟨"cmd", "trigger", "LI_hall"⟩, ⟨"OFF", "control", "ON"⟩], none, none⟩
  cycle := 1
  turn := 0
  scount := 0

/-- A command with two values indexes a second component. -/
theorem not_obeys_lamp : ¬lamp.Obeys ⟨false, "OFF", ""⟩ firstNight
    (fun _ => ⟨fun _ => "none", fun _ _ => ""⟩)
    ((MMessage.mk2 "cmd" "LI_hall").add "value" "ON+OFF") := by
  rintro ⟨after, report, hwork, -⟩
  have hundefined : lamp.doWork ⟨false, "OFF", ""⟩ firstNight
      (fun _ => ⟨fun _ => "none", fun _ _ => ""⟩)
      ((MMessage.mk2 "cmd" "LI_hall").add "value" "ON+OFF") = none := by
    decide
  rw [hundefined] at hwork
  exact absurd hwork.symm (Option.some_ne_none _)

/-- The status of the lamp becomes the word that stands for a missing agent. -/
example : ((lamp.doWork ⟨false, "OFF", ""⟩ firstNight
    (fun _ => ⟨fun _ => "none", fun _ _ => ""⟩)
    ((MMessage.mk2 "cmd" "LI_hall").add "value" "ON")).map fun turn => turn.1.status) =
      some "status" := by
  decide

/-- With the agents known, a message is fine that sets no component to the empty text and has no
more actions than the device has components. -/
theorem careful_of_reachable {net : ℕ → Net} {msg : MMessage} {device : NetDevice}
    (hsync : ¬IsSync msg)
    (hbound : (device.action msg).length ≤ device.component.length)
    (hfull : ∀ value ∈ device.action msg, value ≠ "")
    (hstatus : ∀ component ∈ device.component, component.status ≠ "")
    (hreachable : ∀ i value (component : Component), (device.action msg)[i]? = some value →
      device.component[i]? = some component → ¬component.Unreachable (net i) value) :
    device.Careful net msg := by
  have hloud : ∀ i, ¬device.Silent net msg i := by
    rintro i ⟨_, hempty, -⟩
    exact hfull "" (List.mem_of_getElem? hempty) rfl
  have hplaces : ∀ places, device.Advances net msg places → places = 0 := by
    intro places hadvances
    by_contra hne
    exact hloud 0 (hadvances.1 0 (Nat.pos_of_ne_zero hne))
  refine ⟨fun hother => absurd hother hsync, fun _ => ⟨hbound, ?_, ?_, ?_, .inr ?_⟩⟩
  · intro places hadvances i component value hcomponent hvalue other hother sent hsent hunknown
    exact absurd hunknown (hreachable _ sent other hsent hother)
  · intro places hadvances i component value hcomponent hvalue other hother sent hsent _ _
    obtain rfl := hplaces places hadvances
    obtain rfl := Option.some.inj (hvalue.symm.trans hsent)
    exact ⟨fun _ => .inl rfl, fun hempty => absurd hempty (hfull _ (List.mem_of_getElem? hvalue))⟩
  · intro places _ i component _ hempty
    exact absurd rfl (hfull "" (List.mem_of_getElem? hempty))
  · intro first hfirst
    refine ⟨fun _ => hstatus first (List.mem_of_mem_head? hfirst), fun hsome hadvances => ?_⟩
    have hzero := List.length_eq_zero_iff.mp (hplaces _ hadvances)
    exact absurd hzero hsome

end NetDevice

end Hat
