import Hat.Core.Arrangement
import Hat.PwrControl.Control
import Hat.WSServer.JParserRows
import Mathlib.Data.String.Basic

/-!
# The order of the loads

The server posts the devices of a category to the power controller as one command each, with
the place in the list as priority, and lists the devices that the page of the controller shows,
sorted by the texts of their priorities.
-/

namespace Hat

open Hat.Hsrv

structure DeviceDescriptor where
  name : String
  priority : String
  status : String
  deriving DecidableEq

/-- A device of a posted list, with the text of its place. -/
structure DeviceOrder where
  name : String
  status : String
  priority : String
  deriving DecidableEq

namespace PwrManager

def getCategory (name : String) : String :=
  if 3 < name.toList.length ∧ name.toList[2]? = some '_' then String.ofList (name.toList.take 2)
  else ""

/-- The loop of `mkDevDescription` for one key. -/
def lastValue (key : String) (pt : PTree) : String :=
  pt.children.foldl (fun value child => if child.1 = key then child.2.data else value) ""

def description (pt : PTree) : DeviceDescriptor :=
  ⟨lastValue "device" pt, lastValue "priority" pt, lastValue "status" pt⟩

/-- A load with the name of a device of the category. -/
def mkDevDescription (pt : PTree) (category : String) : List DeviceDescriptor :=
  if getCategory (description pt).name = category then [description pt] else []

mutual

def getDevices (category : String) : PTree → List DeviceDescriptor
  | .node data children => getDevicesFrom category (.node data children) children

/-- The loop over the children of `pt`. -/
def getDevicesFrom (category : String) (pt : PTree) :
    List (String × PTree) → List DeviceDescriptor
  | [] => []
  | (key, child) :: rest =>
      (if key = "type" ∧ child.data = "load" then mkDevDescription pt category
        else getDevices category child) ++ getDevicesFrom category pt rest

end

mutual

/-- All loads of a page, in the order in which they stand there. -/
def loads : PTree → List DeviceDescriptor
  | .node data children => loadsFrom (.node data children) children

def loadsFrom (pt : PTree) : List (String × PTree) → List DeviceDescriptor
  | [] => []
  | (key, child) :: rest =>
      (if key = "type" ∧ child.data = "load" then [description pt] else loads child) ++
        loadsFrom pt rest

end

mutual

theorem getDevices_eq (category : String) : ∀ pt : PTree, getDevices category pt =
    (loads pt).filter fun device => getCategory device.name = category
  | .node data children => by
      rw [getDevices, loads]
      exact getDevicesFrom_eq category (.node data children) children

theorem getDevicesFrom_eq (category : String) (pt : PTree) :
    ∀ children : List (String × PTree), getDevicesFrom category pt children =
      (loadsFrom pt children).filter fun device => getCategory device.name = category
  | [] => rfl
  | (key, child) :: rest => by
      rw [getDevicesFrom, loadsFrom, List.filter_append, getDevicesFrom_eq category pt rest]
      split
      · rw [mkDevDescription, List.filter_singleton]
        simp
      · rw [getDevices_eq category child]

end

def enableStatus (device : DeviceDescriptor) : String :=
  if device.status = "ON" then "true" else "false"

def entry (device : DeviceDescriptor) : String × String := (device.name, enableStatus device)

def entryText (entry : String × String) : String :=
  "\x7b\"name\":\"" ++ entry.1 ++ "\",\"enable_status\":\"" ++ entry.2 ++ "\"\x7d"

def mkAnswer (par : MParams) (devices : List DeviceDescriptor) : String :=
  strReplace (par.get "get_answer_template") "$BODY"
    (",".intercalate (devices.map fun device => entryText (entry device)))

/-- `std::sort` with `sortEval`, which compares the texts of the priorities: no device stands
before one with a smaller text. -/
def Sorts (devices sorted : List DeviceDescriptor) : Prop :=
  IsArrangement DeviceDescriptor.priority devices sorted

/-- The category that the last of the parameters names. -/
def categoryOf (params : List String) : String := FileManager.getStem (params.getLast?.getD "")

variable (readJson : String → Option PTree)

/-- What `execGet` may answer when the page of the controller is `device_queue`: the devices in
an order that a sort may leave, and the text of the answer. -/
def ExecGet (par : MParams) (device_queue : String) (params : List String)
    (devices : List DeviceDescriptor) (answer : String) : Prop :=
  ∃ rpt pt, readJson device_queue = some rpt ∧ rpt.getChild "list" = some pt ∧
    Sorts (getDevices (categoryOf params) pt) devices ∧ answer = mkAnswer par devices

def onOff (status : String) : String := if status = "true" then "ON" else "OFF"

/-- The command of `setDeviceStatus`. -/
def setDeviceStatus (par : MParams) (order : DeviceOrder) : String :=
  strReplace (strReplace (strReplace (par.get "set_device_cmd") "$NAME" order.name) "$PRIORITY"
    order.priority) "$STATUS" (onOff order.status)

/-- The orders for a posted list of names and states. -/
def orders (posted : List (String × String)) : List DeviceOrder :=
  posted.mapIdx fun i row => ⟨row.1, row.2, int2a ((i + 1 : ℕ) : ℤ)⟩

/-- The names and states that a body posts. -/
def postedOf (body : String) : Option (List (String × String)) := do
  let rpt ← readJson body
  let pt ← rpt.getChild "devices"
  let rows ← JParser.new2 "name" "enable_status" pt
  pure (rows.map fun row => (row.first, row.second))

/-- The commands that `execPost` sends, and its answer when the controller answers `replies`. -/
def execPost (par : MParams) (devCategories : NameList) (replies : ℕ → String)
    (params : List String) (body : String) : Option (List String × String) :=
  if !devCategories.member (categoryOf params) then some ([], par.get "post_answer_fail")
  else
    (postedOf readJson body).map fun posted =>
      let commands := (orders posted).map (setDeviceStatus par)
      (commands, if (List.range commands.length).all fun i => finds (replies i) "done"
        then par.get "post_answer_ok" else par.get "post_answer_fail")

end PwrManager

end Hat
