import Hat.Minilibs.MParams
import Hat.WSServer.NameTable

/-!
# The components of a device

A component is the name of a remote device with the texts of its commands and answers.  Setting
it stores the value before the remote agent is called, and what it answers is the value, except
when no agent can be found.
-/

namespace Hat

namespace MParams

theorem getFrom_eq (name : String) (attributes : List MAttribute) :
    getFrom name attributes = getFromCategory name "generic" attributes := by
  induction attributes with
  | nil => rfl
  | cons attr rest ih =>
      rw [getFrom, getFromCategory, ih]
      simp [isGeneric]

theorem get_eq_getCategory (params : MParams) (name : String) :
    params.get name = params.getCategory name "generic" :=
  getFrom_eq name params.attributes

/-- What is read once the first attribute of the name and category is empty. -/
def getBehind (name category : String) : List MAttribute → String
  | [] => ""
  | attr :: rest =>
      if attr.name = name ∧ attr.category = category then getFromCategory name category rest
      else getBehind name category rest

theorem getCategory_addCategory (params : MParams) (name category value : String) :
    (params.addCategory name category value).getCategory name category =
      if value = "" then getBehind name category params.attributes else value := by
  rw [getCategory, addCategory]
  generalize params.attributes = attributes
  induction attributes with
  | nil =>
      by_cases hvalue : value = "" <;>
        simp [addFirstCategory, getFromCategory, getBehind, hvalue]
  | cons attr rest ih =>
      by_cases hattr : attr.name = name ∧ attr.category = category
      · by_cases hvalue : value = "" <;>
          simp [addFirstCategory, getFromCategory, getBehind, hattr, hvalue]
      · simpa [addFirstCategory, getFromCategory, getBehind, hattr] using ih

section Other

variable {name category other kind : String} (hne : ¬(other = name ∧ kind = category))
  (value : String)

include hne

theorem getFromCategory_addFirstCategory (attributes : List MAttribute) :
    getFromCategory name category (addFirstCategory other kind value attributes) =
      getFromCategory name category attributes := by
  induction attributes with
  | nil => simp [addFirstCategory, getFromCategory, hne]
  | cons attr rest ih =>
      by_cases hattr : attr.name = other ∧ attr.category = kind
      · simp [addFirstCategory, getFromCategory, hattr, hne]
      · simp only [addFirstCategory, if_neg hattr, getFromCategory, ih]

/-- Adding an attribute leaves those of another name or category as they read. -/
theorem getCategory_addCategory_of_ne (params : MParams) :
    (params.addCategory other kind value).getCategory name category =
      params.getCategory name category :=
  getFromCategory_addFirstCategory hne value params.attributes

end Other

theorem getBehind_addFirstCategory (name category other kind value : String)
    (attributes : List MAttribute) :
    getBehind name category (addFirstCategory other kind value attributes) =
      getBehind name category attributes := by
  by_cases hsame : other = name ∧ kind = category
  · obtain ⟨rfl, rfl⟩ := hsame
    induction attributes with
    | nil => simp [addFirstCategory, getBehind, getFromCategory]
    | cons attr rest ih =>
        by_cases hattr : attr.name = other ∧ attr.category = kind
        · simp [addFirstCategory, getBehind, hattr]
        · simp only [addFirstCategory, if_neg hattr, getBehind, ih]
  · induction attributes with
    | nil => simp [addFirstCategory, getBehind, hsame]
    | cons attr rest ih =>
        by_cases hattr : attr.name = other ∧ attr.category = kind
        · simp [addFirstCategory, getBehind, hattr, hsame]
        · simp only [addFirstCategory, if_neg hattr, getBehind, ih,
            getFromCategory_addFirstCategory hsame]

end MParams

/-- The network as one component meets it: what `getAgentOf` returns for a name, and what an
agent answers to a request. -/
structure Net where
  getAgentOf : String → String
  sendStringMessage : String → String → String

/-- `remoteAgAddr` is the address of the agent once it has been found. -/
structure Component where
  params : MParams
  remoteAgAddr : String
  deriving DecidableEq

namespace Component

def status (component : Component) : String := component.params.getCategory "status" "generic"

def add (name value : String) (component : Component) : Component :=
  { component with params := component.params.addCategory name "generic" value }

/-- There is no agent to send to. -/
def isNoAddress (address : String) : Bool := address = "" || address = "none"

/-- The address that is used: the one found before, or the one that is found now. -/
def address (net : Net) (component : Component) : String :=
  if isNoAddress component.remoteAgAddr then net.getAgentOf (component.params.get "name")
  else component.remoteAgAddr

def mkAgentRPC (net : Net) (component : Component) : Bool × Component :=
  (!isNoAddress (component.address net), { component with remoteAgAddr := component.address net })

def postRequest (cmd : String) : String :=
  "POST " ++ cmd ++ " HTTP/1.1\r\nConnection: close\r\n\r\n\r\n\r\n"

def setValue (net : Net) (v : String) (component : Component) : String × Component :=
  let stored := component.add "status" v
  if stored.params.get "active" = "OFF" then (v, stored)
  else if stored.params.getCategory v "cmd" = "" then (v, stored.add "active" "OFF")
  else if stored.params.getCategory v "answer" = "" then (v, stored.add "active" "OFF")
  else
    let called := stored.mkAgentRPC net
    if !called.1 then ("status", called.2.add "active" "OFF")
    else
      let res := net.sendStringMessage called.2.remoteAgAddr
        (postRequest (stored.params.getCategory v "cmd"))
      if NameTable.contains res (stored.params.getCategory v "answer") then (v, called.2)
      else (v, called.2.add "active" "OFF")

/-- The text between the quotes that follow the word. -/
def getValue (body word : String) : String :=
  String.ofList (NameTable.getWord word.toList body.toList).1

def syncRequest (component : Component) : String :=
  let getreq := component.params.getCategory "statusread" "cmd"
  if getreq = "" then
    "GET /DynamicPage/" ++ component.params.get "name" ++
      ".xml HTTP/1.1\r\nConnection: close\r\n\r\n\r\n\r\n"
  else getreq

def sync (net : Net) (component : Component) : Component :=
  let called := component.mkAgentRPC net
  if !called.1 then called.2
  else
    let res := net.sendStringMessage called.2.remoteAgAddr component.syncRequest
    if getValue res (component.params.getCategory "active" "answer") = "ON" then
      (called.2.add "active" "ON").add "status"
        (getValue res (component.params.getCategory "status" "answer"))
    else called.2.add "active" "OFF"

/-- A status is stored and saved. -/
def store (st : String) (component : Component) : Component :=
  let stored := component.add "status" st
  { stored with params := stored.params.save }

/-! ## What a component answers and holds -/

/-- The status that is read once the value is stored. -/
def holding (value : String) (component : Component) : String :=
  if value = "" then MParams.getBehind "status" "generic" component.params.attributes else value

def heldAfter (given : Option String) (component : Component) : String :=
  match given with
  | some value => component.holding value
  | none => component.status

/-- What stands behind an empty status. -/
def behind (component : Component) : String :=
  MParams.getBehind "status" "generic" component.params.attributes

/-- A component may be given a value for another one: it is that one, or its status; and an empty
value does not show if one of these stands behind it. -/
structure Suits (wanted value : String) (component : Component) : Prop where
  full : value ≠ "" → value = wanted ∨ value = component.status
  empty : value = "" → component.behind = wanted ∨ component.behind = component.status

/-- The value has a command and an answer, but no agent can be found for it. -/
def Unreachable (net : Net) (v : String) (component : Component) : Prop :=
  component.params.get "active" ≠ "OFF" ∧ component.params.getCategory v "cmd" ≠ "" ∧
    component.params.getCategory v "answer" ≠ "" ∧ isNoAddress (component.address net)

instance (net : Net) (v : String) (component : Component) :
    Decidable (component.Unreachable net v) :=
  inferInstanceAs (Decidable (_ ∧ _ ∧ _ ∧ _))

def answer (net : Net) (v : String) (component : Component) : String :=
  if component.Unreachable net v then "status" else v

def syncAnswer (net : Net) (component : Component) : String :=
  net.sendStringMessage (component.address net) component.syncRequest

/-- The status that the page of an active component shows. -/
def asked (net : Net) (component : Component) : Option String :=
  if isNoAddress (component.address net) then none
  else if getValue (component.syncAnswer net) (component.params.getCategory "active" "answer") =
      "ON" then
    some (getValue (component.syncAnswer net) (component.params.getCategory "status" "answer"))
  else none

theorem holding_of_ne {value : String} (hvalue : value ≠ "") (component : Component) :
    component.holding value = value := by
  rw [holding, if_neg hvalue]

theorem suits_iff (wanted value : String) (component : Component) :
    component.Suits wanted value ↔
      component.holding value = wanted ∨ component.holding value = component.status := by
  by_cases hvalue : value = ""
  · rw [holding, if_pos hvalue]
    exact ⟨fun h => h.empty hvalue, fun h => ⟨fun hne => absurd hvalue hne, fun _ => h⟩⟩
  · rw [holding_of_ne hvalue]
    exact ⟨fun h => h.full hvalue, fun h => ⟨fun _ => h, fun heq => absurd heq hvalue⟩⟩

@[simp]
theorem status_add (value : String) (component : Component) :
    (component.add "status" value).status = component.holding value :=
  MParams.getCategory_addCategory component.params "status" "generic" value

@[simp]
theorem status_add_active (value : String) (component : Component) :
    (component.add "active" value).status = component.status :=
  MParams.getCategory_addCategory_of_ne (by decide) value component.params

@[simp]
theorem holding_add (name value held : String) (component : Component) :
    (component.add name value).holding held = component.holding held := by
  rw [holding, holding, add, MParams.addCategory, MParams.getBehind_addFirstCategory]

@[simp]
theorem status_mkAgentRPC (net : Net) (component : Component) :
    (component.mkAgentRPC net).2.status = component.status := rfl

@[simp]
theorem holding_mkAgentRPC (net : Net) (held : String) (component : Component) :
    (component.mkAgentRPC net).2.holding held = component.holding held := rfl

@[simp]
theorem status_store (st : String) (component : Component) :
    (component.store st).status = component.holding st :=
  status_add st component

theorem get_add_status (component : Component) (value : String) {name : String}
    (hname : name ≠ "status") :
    (component.add "status" value).params.get name = component.params.get name := by
  rw [MParams.get_eq_getCategory, MParams.get_eq_getCategory]
  exact MParams.getCategory_addCategory_of_ne (fun h => hname h.1.symm) value component.params

theorem getCategory_add_status (component : Component) (value name : String) {category : String}
    (hcategory : category ≠ "generic") :
    (component.add "status" value).params.getCategory name category =
      component.params.getCategory name category :=
  MParams.getCategory_addCategory_of_ne (fun h => hcategory h.2.symm) value component.params

theorem address_add_status (net : Net) (value : String) (component : Component) :
    (component.add "status" value).address net = component.address net := by
  rw [address, address, get_add_status component value (by decide)]
  rfl

/-- The answer is the value, unless there is no agent to send it to. -/
theorem setValue_fst (net : Net) (v : String) (component : Component) :
    (component.setValue net v).1 = component.answer net v := by
  have hactive : (component.add "status" v).params.get "active" = component.params.get "active" :=
    get_add_status component v (by decide)
  have hcmd : (component.add "status" v).params.getCategory v "cmd" =
      component.params.getCategory v "cmd" :=
    getCategory_add_status component v v (by decide)
  have hanswer : (component.add "status" v).params.getCategory v "answer" =
      component.params.getCategory v "answer" :=
    getCategory_add_status component v v (by decide)
  have haddress := address_add_status net v component
  simp only [setValue, answer, Unreachable, mkAgentRPC, hactive, hcmd, hanswer, haddress]
  by_cases hoff : component.params.get "active" = "OFF"
  · simp [hoff]
  · by_cases hnocmd : component.params.getCategory v "cmd" = ""
    · simp [hoff, hnocmd]
    · by_cases hnoanswer : component.params.getCategory v "answer" = ""
      · simp [hoff, hnocmd, hnoanswer]
      · by_cases hmade : isNoAddress (component.address net) = true
        · simp [hoff, hnocmd, hnoanswer, hmade]
        · simp only [hoff, hnocmd, hnoanswer, hmade, if_false]
          split_ifs <;> simp_all

/-- The value is stored whatever comes of the call, and storing another one replaces it. -/
theorem setValue_snd (net : Net) (v : String) (component : Component) :
    (component.setValue net v).2.status = component.holding v ∧
      ∀ held, (component.setValue net v).2.holding held = component.holding held := by
  simp only [setValue]
  split_ifs <;> simp

theorem status_sync (net : Net) (component : Component) :
    (component.sync net).status = component.heldAfter (component.asked net) := by
  by_cases hmade : isNoAddress (component.address net) = true
  · have hasked : component.asked net = none := by simp [asked, hmade]
    have hsync : component.sync net = (component.mkAgentRPC net).2 := by
      simp [sync, mkAgentRPC, hmade]
    rw [hasked, hsync]
    rfl
  · by_cases hon : getValue (component.syncAnswer net)
        (component.params.getCategory "active" "answer") = "ON"
    · have hasked : component.asked net = some (getValue (component.syncAnswer net)
          (component.params.getCategory "status" "answer")) := by
        simp [asked, hmade, hon]
      have hsync : component.sync net =
          (((component.mkAgentRPC net).2.add "active" "ON").add "status"
            (getValue (component.syncAnswer net)
              (component.params.getCategory "status" "answer"))) := by
        simp only [syncAnswer] at hon ⊢
        simp [sync, mkAgentRPC, hmade, hon]
      rw [hasked, hsync, status_add, holding_add]
      rfl
    · have hasked : component.asked net = none := by simp [asked, hmade, hon]
      have hsync : component.sync net = (component.mkAgentRPC net).2.add "active" "OFF" := by
        simp only [syncAnswer] at hon ⊢
        simp [sync, mkAgentRPC, hmade, hon]
      rw [hasked, hsync, status_add_active]
      rfl

end Component

end Hat
