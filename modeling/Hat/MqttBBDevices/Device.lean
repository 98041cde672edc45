import Hat.Minilibs.MMessage

/-!
# What all devices send

Every device answers rpc and reports to the mqtt interface in the same form.
-/

namespace Hat

open Hat.Hsrv

/-- What the devices of an agent share: whether there is a table of pending rpc, and the
settings of the mqtt interface. -/
structure DeviceHost where
  rpctab : Bool
  mqtt : String
  mqttDomain : String

namespace DeviceHost

def rpcNotify (host : DeviceHost) (tag field value : String) : Option MMessage :=
  if host.rpctab then
    some (((MMessage.mk2 "rpc" "answer").add "answer_tag" tag).add field value)
  else none

def mkMqttmessage (host : DeviceHost) (env : Env) (status ty subty value mqtttag : String) :
    MMessage :=
  let topic := ty ++ "/" ++ subty
  let topic := if mqtttag ≠ "" then topic ++ "/" ++ mqtttag else topic
  let topic := if host.mqttDomain ≠ "" then host.mqttDomain ++ "/" ++ topic else topic
  (((MMessage.mk2 "mqtt" "mqtt_send").add "topic" topic).add "value"
    (subty ++ ":" ++ value ++ ",time=" ++ double2a env.gettime ++ ",status=" ++ status))

@[simp]
theorem mtype_mkMqttmessage (host : DeviceHost) (env : Env)
    (status ty subty value mqtttag : String) :
    (host.mkMqttmessage env status ty subty value mqtttag).mtype = "mqtt" := by
  rw [mkMqttmessage, MMessage.mtype_add, MMessage.mtype_add, MMessage.mk2]

end DeviceHost

end Hat
