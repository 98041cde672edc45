import Hat.Minilibs.AgentInfo
import Hat.Minilibs.MParams
import Hat.MqttBBDevices.Device

/-!
# Outputs for two directions

A `TriStateOutput` drives two output channels, such as those of a shutter, and is up, down
or off.  Commands, its two inputs and the timer change it.  A change is sent to the channels,
reported as an event, saved to the file of the device and published on its page.
-/

namespace Hat

open Hat.Hsrv

structure TriStateOutput where
  params : MParams
  name : String
  status : String
  duration : String
  defaultStatus : String
  waitCondition : String
  out1 : String
  out2 : String
  ing1 : String
  ing2 : String
  ing1v : String
  ing2v : String
  currentStatus : String
  deriving DecidableEq

/-- The page of an output, before it becomes a text. -/
structure TargetPage where
  name : String
  value : String
  status : String
  deriving DecidableEq

def TargetPage.text (page : TargetPage) : String :=
  "type=\"target\" value=\"" ++ page.value ++ "\" status=\"" ++ page.status ++ "\""

/-- What a call notifies, what it answers to an rpc, and the page it publishes. -/
structure TriStateReply where
  notified : List MMessage
  answer : Option MMessage
  published : Option TargetPage
  deriving DecidableEq

namespace TriStateOutput

def page (output : TriStateOutput) : TargetPage :=
  ⟨output.name, output.currentStatus, output.params.get "status"⟩

/-- The attributes are those that the files of the output hold. -/
def new (params : MParams) (n : String) : TriStateOutput :=
  let params := params.load
  let duration := params.get "duration"
  let duration := if duration = "" ∨ duration = "0" ∨ duration = "-1" then "0" else duration
  let ing1v := params.get "up_input_def_value"
  let ing2v := params.get "down_input_def_value"
  { params := params
    name := n
    status := if params.get "status" ≠ "" then params.get "status" else "OFF"
    duration := duration
    defaultStatus := params.get "default"
    waitCondition :=
      if duration ≠ "0" then params.get "duration" ++ "_" ++ params.get "name" else ""
    out1 := params.getCategory "up_output" "output"
    out2 := params.getCategory "down_output" "output"
    ing1 := params.getCategory "up_input" "input"
    ing2 := params.getCategory "down_input" "input"
    ing1v := if ing1v = "" then "1" else ing1v
    ing2v := if ing2v = "" then "1" else ing2v
    currentStatus := params.get "currentStatus" }

def remap (output : TriStateOutput) (value : String) : String :=
  let tvalue := output.params.getCategory value "remap"
  if tvalue = "" then value else tvalue

def save (output : TriStateOutput) : TriStateOutput :=
  { output with params :=
      ((output.params.add "status" output.status).add "currentStatus" output.currentStatus).save }

/-- The event comes after what was sent before it; the output is saved and published. -/
def notifyEvent (env : Env) (sent : List MMessage) (value : String) (output : TriStateOutput) :
    TriStateOutput × TriStateReply :=
  let m := ({ MMessage.blank with mtype := "event", msubtype := output.params.get "eventname" }.add
    "value" value).add "time" (double2a env.gettime)
  (output.save, ⟨sent ++ [m], none, some output.save.page⟩)

/-- The commands that `docmdaction` sends for a state: one message, filled twice.  There are
none for a state that is not known. -/
def devcmds (m : MMessage) (newstate : String) (output : TriStateOutput) : List MMessage :=
  if newstate = "UP" then
    let m := { m with msubtype := output.out2 }.add "value" (output.remap "OFF")
    [m, { m with msubtype := output.out1 }.add "value" (output.remap "ON")]
  else if newstate = "DOWN" then
    let m := { m with msubtype := output.out1 }.add "value" (output.remap "OFF")
    [m, { m with msubtype := output.out2 }.add "value" (output.remap "ON")]
  else if newstate = "OFF" then
    let m := { m with msubtype := output.out1 }.add "value" (output.remap "OFF")
    [m, { m with msubtype := output.out2 }]
  else []

def docmdaction (env : Env) (newstate : String) (output : TriStateOutput) :
    TriStateOutput × TriStateReply :=
  let m := { MMessage.blank with mtype := "devcmd" }.add "time" (double2a env.gettime)
  if output.currentStatus ≠ newstate then
    let sent := output.devcmds m newstate
    -- The wait is the same message once more.
    let waits :=
      if output.duration ≠ "0" ∧ newstate ≠ output.defaultStatus then
        [{ sent.getLastD m with mtype := "wait", msubtype := "set" }.add "value"
          output.waitCondition]
      else []
    { output with currentStatus := newstate }.notifyEvent env (sent ++ waits) newstate
  else output.notifyEvent env [] newstate

/-- The event is notified, the output saved and the page published while the status is still
the old one. -/
def dowaitaction (env : Env) (output : TriStateOutput) : TriStateOutput × TriStateReply :=
  if output.currentStatus ≠ output.defaultStatus then
    let m := ({ MMessage.blank with mtype := "devcmd", msubtype := output.out1 }.add "value"
      (output.remap output.defaultStatus)).add "time" (double2a env.gettime)
    let notified := output.notifyEvent env [m, { m with msubtype := output.out2 }]
      output.defaultStatus
    ({ notified.1 with currentStatus := output.defaultStatus }, notified.2)
  else (output, ⟨[], none, none⟩)

def checkUpcase (m : MMessage) : MMessage :=
  let astate := m.getString "value"
  m.add "value" (if astate = "off" then "OFF" else if astate = "up" then "UP"
    else if astate = "down" then "DOWN" else astate)

/-- The value of an input is kept. -/
def sense (msg : MMessage) (output : TriStateOutput) : TriStateOutput :=
  if msg.msubtype = output.ing1 then { output with ing1v := msg.getString "value" }
  else if msg.msubtype = output.ing2 then { output with ing2v := msg.getString "value" }
  else output

/-- The state that the values of the two inputs ask for. -/
def sensed (output : TriStateOutput) : Option String :=
  if output.ing1v = "0" ∧ output.ing2v = "1" then some "UP"
  else if output.ing1v = "1" ∧ output.ing2v = "0" then some "DOWN"
  else if output.ing1v = "1" ∧ output.ing2v = "1" then some "OFF"
  else if output.ing1v = "0" ∧ output.ing2v = "0" then some "UP"
  else none

variable (host : DeviceHost)

def mqttEvent (env : Env) (value : String) (msg : MMessage) (output : TriStateOutput) :
    List MMessage :=
  if host.mqtt = "ON" then
    [host.mkMqttmessage env output.status "event" output.name value (msg.getString "mqtttag")]
  else []

def execcmd (env : Env) (received : MMessage) (output : TriStateOutput) :
    TriStateOutput × TriStateReply :=
  let msg := checkUpcase received
  let newstate := msg.getString "value"
  if output.status = "OFF" then
    (output, ⟨mqttEvent host env "value=none" msg output,
      host.rpcNotify (msg.getString "tag") "value" "value=none", none⟩)
  else if msg.mtype = "cmd" ∧ msg.msubtype = output.name then
    let done := output.docmdaction env newstate
    (done.1,
      { done.2 with
        notified := done.2.notified ++ mqttEvent host env ("value=" ++ newstate) msg done.1
        answer := if msg.getString "tag" ≠ "" then
          host.rpcNotify (msg.getString "tag") "value" ("value=" ++ newstate) else none })
  else if msg.mtype = "local_event" then
    match (output.sense msg).sensed with
    | some state => (output.sense msg).docmdaction env state
    | none => (output.sense msg, ⟨[], none, none⟩)
  else if msg.mtype = "wait" ∧ msg.msubtype = "end" then output.dowaitaction env
  else (output, ⟨[], none, none⟩)

/-! ## What a message makes of the output -/

inductive Reaction
  | ignores
  | command (newstate : String)
  | waitEnd
  deriving DecidableEq

/-- What `execcmd` does about a message. -/
def reaction (output : TriStateOutput) (received : MMessage) : Reaction :=
  let msg := checkUpcase received
  if output.status = "OFF" then .ignores
  else if msg.mtype = "cmd" ∧ msg.msubtype = output.name then .command (msg.getString "value")
  else if msg.mtype = "local_event" then ((output.sense msg).sensed.map .command).getD .ignores
  else if msg.mtype = "wait" ∧ msg.msubtype = "end" then .waitEnd
  else .ignores

/-- The orders to the channels among what is notified. -/
def orders (notified : List MMessage) : List (String × String) :=
  (notified.filter fun m => m.mtype = "devcmd").map fun m => (m.msubtype, m.getString "value")

/-- The orders for a new state. -/
def ordersFor (output : TriStateOutput) (newstate : String) : List (String × String) :=
  if newstate = "UP" then [(output.out2, output.remap "OFF"), (output.out1, output.remap "ON")]
  else if newstate = "DOWN" then
    [(output.out1, output.remap "OFF"), (output.out2, output.remap "ON")]
  else if newstate = "OFF" then
    [(output.out1, output.remap "OFF"), (output.out2, output.remap "OFF")]
  else []

/-- The next output, the orders and the page of each reaction. -/
inductive Acts (output : TriStateOutput) :
    Reaction → TriStateOutput → List (String × String) → Option TargetPage → Prop
  | ignores : Acts output .ignores output [] none
  | command (newstate : String) :
      Acts output (.command newstate) { output with currentStatus := newstate }.save
        (if output.currentStatus = newstate then [] else output.ordersFor newstate)
        (some { output with currentStatus := newstate }.save.page)
  | rests (hrest : output.currentStatus = output.defaultStatus) :
      Acts output .waitEnd output [] none
  | ends (hrest : output.currentStatus ≠ output.defaultStatus) :
      Acts output .waitEnd { output.save with currentStatus := output.defaultStatus }
        [(output.out1, output.remap output.defaultStatus),
          (output.out2, output.remap output.defaultStatus)]
        (some output.save.page)

/-- Two outputs that differ in the values of their inputs only. -/
def SensedFrom (output sensed : TriStateOutput) : Prop :=
  ∃ up down, sensed = { output with ing1v := up, ing2v := down }

theorem orders_append (before after : List MMessage) :
    orders (before ++ after) = orders before ++ orders after := by
  rw [orders, List.filter_append, List.map_append, orders, orders]

theorem orders_of_ne {m : MMessage} (hne : m.mtype ≠ "devcmd") : orders [m] = [] := by
  simp [orders, hne]

theorem orders_mqttEvent (env : Env) (value : String) (msg : MMessage) (output : TriStateOutput) :
    orders (mqttEvent host env value msg output) = [] := by
  rw [mqttEvent]
  split_ifs
  · apply orders_of_ne
    rw [DeviceHost.mtype_mkMqttmessage]
    decide
  · rfl

theorem orders_notifyEvent (env : Env) (sent : List MMessage) (value : String)
    (output : TriStateOutput) : orders (output.notifyEvent env sent value).2.notified =
      orders sent := by
  rw [notifyEvent, orders_append, orders_of_ne, List.append_nil]
  simp

theorem orders_pair {first second : MMessage} (hfirst : first.mtype = "devcmd")
    (hsecond : second.mtype = "devcmd") : orders [first, second] =
      [(first.msubtype, first.getString "value"), (second.msubtype, second.getString "value")] := by
  simp [orders, hfirst, hsecond]

/-- One message sent to two channels. -/
theorem orders_both {m : MMessage} (hm : m.mtype = "devcmd") (out : String) :
    orders [m, { m with msubtype := out }] =
      [(m.msubtype, m.getString "value"), (out, m.getString "value")] :=
  @orders_pair m { m with msubtype := out } hm hm

/-- Filling a message leaves no list behind. -/
theorem scalar_fill {m : MMessage}
    (hscalar : ∀ items, m.fields.find? "value" ≠ some (.mstringList items)) (value : String) :
    ∀ items, (m.add "value" value).fields.find? "value" ≠ some (.mstringList items) := by
  intro items hlist
  rw [MMessage.find?_add, if_pos rfl, Option.some.injEq] at hlist
  cases hfield : m.fields.find? "value" with
  | none =>
      rw [hfield] at hlist
      cases hlist
  | some list =>
      cases list with
      | mstring text =>
          rw [hfield] at hlist
          cases hlist
      | mstringList items => exact hscalar items hfield

theorem orders_devcmds {m : MMessage} (hm : m.mtype = "devcmd")
    (hscalar : ∀ items, m.fields.find? "value" ≠ some (.mstringList items)) (newstate : String)
    (output : TriStateOutput) : orders (output.devcmds m newstate) = output.ordersFor newstate := by
  have hfill : ∀ out value, ({ m with msubtype := out }.add "value" value).getString "value" =
      value := fun out value => MMessage.getString_add_self "value" value _ hscalar
  have hrefill : ∀ out first other value,
      ({ ({ m with msubtype := out }.add "value" first) with msubtype := other }.add
        "value" value).getString "value" = value := fun out first other value =>
    MMessage.getString_add_self "value" value _
      (scalar_fill (m := { m with msubtype := out }) hscalar first)
  rw [devcmds, ordersFor]
  split_ifs
  · rw [orders_pair (by simp [hm]) (by simp [hm]), hfill, hrefill]
    simp
  · rw [orders_pair (by simp [hm]) (by simp [hm]), hfill, hrefill]
    simp
  · rw [orders_both (by simp [hm]), hfill, MMessage.msubtype_add]
  · rfl

theorem orders_docmdaction (env : Env) (newstate : String) (output : TriStateOutput) :
    orders (output.docmdaction env newstate).2.notified =
      if output.currentStatus = newstate then [] else output.ordersFor newstate := by
  have hscalar : ∀ items, (({ MMessage.blank with mtype := "devcmd" }.add "time"
      (double2a env.gettime)).fields.find? "value") ≠ some (.mstringList items) := by
    intro items
    rw [MMessage.find?_add_of_ne _ _ (by decide)]
    exact Option.some_ne_none _ ∘ Eq.symm
  rw [docmdaction]
  by_cases hsame : output.currentStatus = newstate
  · rw [if_neg (not_not.mpr hsame), if_pos hsame, orders_notifyEvent]
    rfl
  · rw [if_pos hsame, if_neg hsame, orders_notifyEvent, orders_append,
      orders_devcmds (by simp) hscalar]
    split_ifs
    · rw [orders_of_ne (by simp), List.append_nil]
    · exact List.append_nil _

/-- A command for the state that the output is in already changes nothing but its file. -/
theorem docmdaction_eq (env : Env) (newstate : String) (output : TriStateOutput) :
    (output.docmdaction env newstate).1 = { output with currentStatus := newstate }.save ∧
      (output.docmdaction env newstate).2.published =
        some { output with currentStatus := newstate }.save.page := by
  rw [docmdaction]
  by_cases hsame : output.currentStatus = newstate
  · rw [if_neg (not_not.mpr hsame), ← hsame]
    exact ⟨rfl, rfl⟩
  · rw [if_pos hsame]
    exact ⟨rfl, rfl⟩

theorem acts_docmdaction (env : Env) (newstate : String) (output : TriStateOutput) :
    Acts output (.command newstate) (output.docmdaction env newstate).1
      (orders (output.docmdaction env newstate).2.notified)
      (output.docmdaction env newstate).2.published := by
  obtain ⟨hnext, hpage⟩ := docmdaction_eq env newstate output
  rw [hnext, hpage, orders_docmdaction]
  exact Acts.command newstate

theorem acts_dowaitaction (env : Env) (output : TriStateOutput) :
    Acts output .waitEnd (output.dowaitaction env).1 (orders (output.dowaitaction env).2.notified)
      (output.dowaitaction env).2.published := by
  have hvalue : (({ MMessage.blank with mtype := "devcmd", msubtype := output.out1 }.add "value"
      (output.remap output.defaultStatus)).add "time" (double2a env.gettime)).getString "value" =
      output.remap output.defaultStatus := by
    rw [MMessage.getString_add_of_ne _ _ (by decide)]
    exact MMessage.getString_add_self "value" _ _ fun _ => Option.some_ne_none _ ∘ Eq.symm
  rw [dowaitaction]
  split_ifs with hrest
  · rw [orders_notifyEvent, orders_both (by simp), hvalue, MMessage.msubtype_add,
      MMessage.msubtype_add]
    exact Acts.ends hrest
  · exact Acts.rests (not_ne_iff.mp hrest)

theorem sensedFrom_sense (msg : MMessage) (output : TriStateOutput) :
    SensedFrom output (output.sense msg) := by
  rw [sense]
  split_ifs
  · exact ⟨_, output.ing2v, rfl⟩
  · exact ⟨output.ing1v, _, rfl⟩
  · exact ⟨output.ing1v, output.ing2v, rfl⟩

theorem acts_execcmd (env : Env) (received : MMessage) (output : TriStateOutput) :
    ∃ sensed, SensedFrom output sensed ∧
      Acts sensed (output.reaction received) (output.execcmd host env received).1
        (orders (output.execcmd host env received).2.notified)
        (output.execcmd host env received).2.published := by
  have hself : SensedFrom output output := ⟨output.ing1v, output.ing2v, rfl⟩
  rw [execcmd, reaction]
  by_cases hoff : output.status = "OFF"
  · refine ⟨output, hself, ?_⟩
    rw [if_pos hoff, if_pos hoff, orders_mqttEvent]
    exact Acts.ignores
  rw [if_neg hoff, if_neg hoff]
  by_cases hcmd : (checkUpcase received).mtype = "cmd" ∧
      (checkUpcase received).msubtype = output.name
  · refine ⟨output, hself, ?_⟩
    rw [if_pos hcmd, if_pos hcmd, orders_append, orders_mqttEvent, List.append_nil]
    exact acts_docmdaction env _ output
  rw [if_neg hcmd, if_neg hcmd]
  by_cases hlocal : (checkUpcase received).mtype = "local_event"
  · refine ⟨output.sense (checkUpcase received), sensedFrom_sense _ output, ?_⟩
    rw [if_pos hlocal, if_pos hlocal]
    cases (output.sense (checkUpcase received)).sensed with
    | none => exact Acts.ignores
    | some state => exact acts_docmdaction env state _
  rw [if_neg hlocal, if_neg hlocal]
  refine ⟨output, hself, ?_⟩
  by_cases hwait : (checkUpcase received).mtype = "wait" ∧ (checkUpcase received).msubtype = "end"
  · rw [if_pos hwait, if_pos hwait]
    exact acts_dowaitaction env output
  · rw [if_neg hwait, if_neg hwait]
    exact Acts.ignores

end TriStateOutput

end Hat
