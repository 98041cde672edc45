import Hat.Minilibs.AgentInfo
import Hat.Minilibs.MParams
import Hat.MqttBBDevices.Device

/-!
# Outputs with two states

A command to a `BinaryOutput` that changes its value is passed on to the output channel
and reported as an event.  An output with a duration asks the timer to be told when the
time is over: it sends a wait set whenever a command leaves it off its default value, and
a wait reset when a command takes it back there.
-/

namespace Hat

open Hat.Hsrv

structure BinaryOutput where
  params : MParams
  name : String
  status : String
  duration : String
  defaultValue : String
  waitCondition : String
  out : String
  currentValue : String
  deriving DecidableEq

/-- What a call notifies, what it answers to an rpc, and the page it publishes. -/
structure OutputReply where
  notified : List MMessage
  answer : Option MMessage
  published : Option (String × String)
  deriving DecidableEq

namespace BinaryOutput

def page (output : BinaryOutput) : String × String :=
  (output.name, "type=\"target\" value=\"" ++ output.currentValue ++ "\" status=\"" ++
    output.params.get "status" ++ "\"")

/-- The attributes are those that the files of the output hold. -/
def new (params : MParams) (n : String) : BinaryOutput :=
  let params := params.load
  let duration := params.get "duration"
  let duration := if duration = "" ∨ duration = "0" ∨ duration = "-1" then "0" else duration
  let defaultValue := params.get "default"
  let currentValue := params.get "value"
  let currentValue := if currentValue = "" then defaultValue else currentValue
  { params := params
    name := n
    status := if params.get "status" ≠ "" then params.get "status" else "OFF"
    duration := duration
    defaultValue := defaultValue
    waitCondition :=
      if duration ≠ "0" then params.get "duration" ++ "_" ++ params.get "name" else ""
    out := params.getCategory "output" "output"
    currentValue := if currentValue = "" then "OFF" else currentValue }

def remap (output : BinaryOutput) (value : String) : String :=
  let tvalue := output.params.getCategory value "remap"
  if tvalue = "" then value else tvalue

def save (output : BinaryOutput) : BinaryOutput :=
  { output with params := (output.params.add "value" output.currentValue).save }

/-- The command to the channel and the event for a new value: one message, filled twice. -/
def switch (env : Env) (msg : MMessage) (output : BinaryOutput) : List MMessage :=
  let m := (({ MMessage.blank with mtype := "devcmd", msubtype := output.out }.add "value"
    (output.remap output.currentValue)).add "time" (double2a env.gettime))
  [m, { m with mtype := "event", msubtype := output.params.get "eventname" }.add "value"
    (msg.getString "value")]

/-- A wait message of either subtype. -/
def wait (subtype : String) (output : BinaryOutput) : MMessage :=
  { MMessage.blank with mtype := "wait", msubtype := subtype }.add "value" output.waitCondition

variable (host : DeviceHost)

/-- What answers a command, whether it changed anything or not. -/
def respond (env : Env) (msg : MMessage) (notified : List MMessage)
    (published : Option (String × String)) (output : BinaryOutput) : OutputReply where
  notified := notified ++ (if host.mqtt = "ON" then
    [host.mkMqttmessage env output.status "event" output.name ("value=" ++ msg.getString "value")
      (msg.getString "mqtttag")] else [])
  answer := if msg.getString "tag" ≠ "" then
    host.rpcNotify (msg.getString "tag") "value" ("value=" ++ msg.getString "value") else none
  published := published

def execcmd (env : Env) (msg : MMessage) (output : BinaryOutput) : BinaryOutput × OutputReply :=
  let value := msg.getString "value"
  if msg.msubtype = output.name then
    if output.currentValue ≠ value then
      let changed := { output with currentValue := value }
      let waits :=
        if output.duration ≠ "0" ∧ value ≠ output.defaultValue then [output.wait "set"]
        else if output.duration ≠ "0" ∧ value = output.defaultValue then [output.wait "reset"]
        else []
      (changed.save,
        respond host env msg (changed.switch env msg ++ waits) (some changed.save.page) output)
    else if output.currentValue ≠ output.defaultValue ∧ output.duration ≠ "0" then
      (output, respond host env msg [output.wait "set"] none output)
    else (output, respond host env msg [] none output)
  else if msg.mtype = "wait" ∧ msg.msubtype = "end" then
    if output.currentValue ≠ output.defaultValue then
      let changed := { output with currentValue := output.defaultValue }
      (changed.save, ⟨changed.switch env msg, none, some changed.save.page⟩)
    else (output, ⟨[], none, none⟩)
  else (output, ⟨[], none, none⟩)

def isWait (m : MMessage) : Bool := m.mtype = "wait" && (m.msubtype = "set" || m.msubtype = "reset")

/-- A command that leaves an output with a duration off its default value. -/
def Asks (output : BinaryOutput) (msg : MMessage) : Prop :=
  msg.msubtype = output.name ∧ output.duration ≠ "0" ∧
    msg.getString "value" ≠ output.defaultValue

instance (output : BinaryOutput) (msg : MMessage) : Decidable (output.Asks msg) :=
  inferInstanceAs (Decidable (_ ∧ _ ∧ _))

/-- What a command or a wait end sends to the timer: a wait set if the output is to be
watched, and otherwise a wait reset at the default value, or nothing at the default value
or without a duration. -/
inductive Sends (output : BinaryOutput) (msg : MMessage) (next : BinaryOutput) :
    List MMessage → Prop
  | set (hasks : output.Asks msg) : Sends output msg next [output.wait "set"]
  | reset (hasks : ¬output.Asks msg) (hduration : output.duration ≠ "0")
      (hvalue : next.currentValue = output.defaultValue) :
      Sends output msg next [output.wait "reset"]
  | nothing (hasks : ¬output.Asks msg)
      (hquiet : output.duration = "0" ∨ next.currentValue = output.defaultValue) :
      Sends output msg next []

/-- What a call does not change. -/
structure SameSetup (output next : BinaryOutput) : Prop where
  name : next.name = output.name
  duration : next.duration = output.duration
  defaultValue : next.defaultValue = output.defaultValue
  waitCondition : next.waitCondition = output.waitCondition

theorem sameSetup_execcmd (env : Env) (msg : MMessage) (output : BinaryOutput) :
    SameSetup output (output.execcmd host env msg).1 := by
  simp only [execcmd]
  split_ifs <;> exact ⟨rfl, rfl, rfl, rfl⟩

theorem filter_isWait_switch (env : Env) (msg : MMessage) (output : BinaryOutput) :
    (output.switch env msg).filter isWait = [] := by
  simp [switch, isWait]

theorem filter_isWait_respond (env : Env) (msg : MMessage) (notified : List MMessage)
    (published : Option (String × String)) (output : BinaryOutput) :
    (respond host env msg notified published output).notified.filter isWait =
      notified.filter isWait := by
  rw [respond, List.filter_append]
  split_ifs
  · simp [isWait]
  · rw [List.filter_nil, List.append_nil]

theorem filter_isWait_wait {subtype : String} (output : BinaryOutput)
    (hsubtype : subtype = "set" ∨ subtype = "reset") :
    [output.wait subtype].filter isWait = [output.wait subtype] := by
  obtain rfl | rfl := hsubtype <;> simp [wait, isWait]

/-- A command to the output, or a wait end. -/
theorem sends_execcmd (env : Env) (msg : MMessage) (output : BinaryOutput)
    (hmsg : msg.msubtype = output.name ∨ (msg.mtype = "wait" ∧ msg.msubtype = "end")) :
    Sends output msg (output.execcmd host env msg).1
      ((output.execcmd host env msg).2.notified.filter isWait) := by
  simp only [execcmd]
  by_cases hname : msg.msubtype = output.name
  · rw [if_pos hname]
    by_cases hvalue : output.currentValue ≠ msg.getString "value"
    · rw [if_pos hvalue, filter_isWait_respond, List.filter_append, filter_isWait_switch,
        List.nil_append]
      by_cases hset : output.duration ≠ "0" ∧ msg.getString "value" ≠ output.defaultValue
      · rw [if_pos hset, filter_isWait_wait _ (Or.inl rfl)]
        exact Sends.set ⟨hname, hset⟩
      · have hasks : ¬output.Asks msg := fun hasks => hset hasks.2
        rw [if_neg hset]
        by_cases hreset : output.duration ≠ "0" ∧ msg.getString "value" = output.defaultValue
        · rw [if_pos hreset, filter_isWait_wait _ (Or.inr rfl)]
          exact Sends.reset hasks hreset.1 hreset.2
        · rw [if_neg hreset]
          refine Sends.nothing hasks (or_iff_not_imp_left.mpr fun hduration => ?_)
          by_contra hne
          exact hset ⟨hduration, hne⟩
    · have heq := not_ne_iff.mp hvalue
      rw [if_neg hvalue]
      by_cases hset : output.currentValue ≠ output.defaultValue ∧ output.duration ≠ "0"
      · rw [if_pos hset, filter_isWait_respond, filter_isWait_wait _ (Or.inl rfl)]
        exact Sends.set ⟨hname, hset.2, heq ▸ hset.1⟩
      · rw [if_neg hset, filter_isWait_respond]
        refine Sends.nothing (fun hasks => hset ⟨heq ▸ hasks.2.2, hasks.2.1⟩)
          (or_iff_not_imp_left.mpr fun hduration => ?_)
        by_contra hne
        exact hset ⟨hne, hduration⟩
  · have hasks : ¬output.Asks msg := fun hasks => hname hasks.1
    rw [if_neg hname, if_pos (hmsg.resolve_left hname)]
    by_cases hvalue : output.currentValue ≠ output.defaultValue
    · rw [if_pos hvalue, filter_isWait_switch]
      exact Sends.nothing hasks (Or.inr rfl)
    · rw [if_neg hvalue]
      exact Sends.nothing hasks (Or.inr (not_ne_iff.mp hvalue))

end BinaryOutput

end Hat
