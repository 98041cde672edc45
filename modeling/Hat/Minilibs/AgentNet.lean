import Hat.Core.SortedMap
import Hat.Minilibs.AgentInfo
import Hat.Minilibs.MParams

/-!
# The network of agents

Every agent announces itself by a text that it sends to all others, and keeps a table of
the agents that have announced themselves, with one observer that forwards messages to
each.  An observer is loaded from a file, which is written from the announcement; the
directory of these files is created at the installation.
-/

namespace Hat

open Hat.Hsrv

/-- The observer of a remote agent, with the attributes of its file. -/
structure ObserverTCP where
  id : String
  attributes : List MAttribute
  observes : List MAttribute
  deriving DecidableEq

/-- The files of a directory, with the type and the attributes the reader delivers. -/
abbrev ObserverDir := SortedMap String (String × List MAttribute)

def ObserverTCP.new (config home : ObserverDir) (name : String) : ObserverTCP :=
  let file := name ++ ".xml"
  let loaded := MParams.load ⟨name, [], config.find? file, home.find? file⟩
  ⟨name, loaded.attributes, loaded.attributes.filter fun attr => attr.category = "observe"⟩

structure AgentNet where
  agentname : String
  port : String
  validityTime : ℤ
  mysubjects : List String
  externsubjects : List String
  myinfo : AgentInfo
  /-- The status of the agent, `AgentConf::status`. -/
  status : Status
  foreignAgents : SortedMap String AgentInfo
  tcpObservers : SortedMap String ObserverTCP
  /-- The directory `observers` in the home directory. -/
  home : ObserverDir
  /-- The directory `observers` in the configuration directory. -/
  config : ObserverDir
  lastSubjectUpdate : ℤ
  wsserverIp : String
  wsserverPort : String

namespace AgentNet

/-- The text before the first dot, or all of it. -/
def beforeDot (text : String) : String := String.ofList (text.toList.takeWhile fun c => c ≠ '.')

/-- The text after the first dot; without a dot `missing`. -/
def afterDot (missing text : String) : String :=
  match text.toList.dropWhile fun c => c ≠ '.' with
  | [] => missing
  | _ :: rest => String.ofList rest

def isStar (subject : String) : Bool := subject.toList.contains '*'

/-- The type and the subtype of a subject, which is written `subtype.type`. -/
def split (source : String) : String × String := (afterDot "" source, beforeDot source)

def observesSubject (event subject : String) : Bool :=
  subject = event ||
    ((isStar (beforeDot subject) || isStar (beforeDot event)) &&
      afterDot event event = afterDot subject subject)

/-- An event is kept once for every subject that it observes. -/
def evFilter (mysubjects ev : List String) : List String :=
  ev.flatMap fun event => (mysubjects.filter (observesSubject event)).map fun _ => event

/-- The attributes that `mkTcpObserverXML` puts together. -/
def descriptor (agent address port : String) (events : List String) : MParams :=
  let desc : MParams := ⟨agent, [], none, none⟩
  let desc := ((((((desc.add "name" agent).add "agent" agent).add "address" address).add
    "port" port).add "language" "xml").add "status" "ON")
  events.foldl (fun desc event =>
    desc.addCategory (split event).2 "observe" (split event).1) desc

def mkTcpObserverXML (message : MMessage) (net : AgentNet) : AgentNet :=
  let agent := message.getString "agentname"
  let desc := descriptor agent (message.getString "ip") (message.getString "port")
    (evFilter net.mysubjects (message.getList "observe"))
  { net with home := net.home.insert (agent ++ ".xml") (desc.ty, desc.attributes) }

/-- The observer is loaded from its file; an entry of that name stays. -/
def activateObserverTCP (name : String) (net : AgentNet) : AgentNet :=
  { net with
    tcpObservers := net.tcpObservers.insertNew name (ObserverTCP.new net.config net.home name) }

/-- Erasing an entry that is not there is undefined. -/
def disactivateObserverTCP (name : String) (net : AgentNet) : Option AgentNet :=
  if net.tcpObservers.contains name then
    some { net with tcpObservers := net.tcpObservers.erase name }
  else none

/-- The entry of the name has been updated in the last `validityTime` seconds. -/
def checkAgentStatus (agent : String) (now : ℤ) (net : AgentNet) : Bool :=
  match net.foreignAgents.find? agent with
  | some info => !(now - info.timestamp > net.validityTime)
  | none => false

def retrieveInfoOf (agent : String) (net : AgentNet) : Option AgentInfo :=
  net.foreignAgents.find? agent

/-- The lookup of a field of an agent: the index operator inserts a missing entry. -/
def getAgent (field default agentname : String) (now : ℤ) (net : AgentNet) : String × AgentNet :=
  if agentname = net.agentname ∨ net.checkAgentStatus agentname now then
    let info := (net.foreignAgents.find? agentname).getD AgentInfo.blank
    (info.getString field,
      { net with foreignAgents := net.foreignAgents.insertNew agentname AgentInfo.blank })
  else (default, net)

def getAgentIp : String → ℤ → AgentNet → String × AgentNet := getAgent "ip" "127.0.0.1"

def getAgentPort : String → ℤ → AgentNet → String × AgentNet := getAgent "port" "8888"

/-- The second loop of `check_expired`. -/
def disconnect : List String → AgentNet → Option AgentNet
  | [], net => some net
  | agent :: rest, net =>
      (net.disactivateObserverTCP agent).bind fun net =>
        disconnect rest { net with
          foreignAgents := net.foreignAgents.erase agent
          home := net.home.erase (agent ++ ".xml") }

/-- The clock is read anew for every entry. -/
def checkExpired (clock : String → ℤ) (net : AgentNet) : Option AgentNet :=
  disconnect (net.foreignAgents.keys.filter fun agent =>
    !net.checkAgentStatus agent (clock agent)) net

def wsServerUpdate (message : MMessage) (net : AgentNet) : AgentNet :=
  if message.getString "agentname" ≠ "wsserver" then net
  else { net with
    wsserverIp := message.getString "ip"
    wsserverPort := message.getString "port" }

def setInfo (agent : String) (info : AgentInfo) (net : AgentNet) : AgentNet :=
  { net with foreignAgents := net.foreignAgents.insert agent info }

/-- The end of every branch of `update`: the entry is stored, and the file and the
observer are built from the announcement. -/
def install (agent : String) (info : AgentInfo) (message : MMessage) (net : AgentNet) : AgentNet :=
  ((net.setInfo agent info).mkTcpObserverXML message).activateObserverTCP agent

/-- The observer of an agent is taken down and built again. -/
def rebuild (agent : String) (info : AgentInfo) (message : MMessage) (net : AgentNet) :
    Option AgentNet :=
  (net.disactivateObserverTCP agent).map (install agent info message)

section Install

variable (agent : String) (info : AgentInfo) (message : MMessage) (net : AgentNet)

@[simp]
theorem foreignAgents_install :
    (net.install agent info message).foreignAgents = net.foreignAgents.insert agent info := rfl

@[simp]
theorem tcpObservers_install : (net.install agent info message).tcpObservers =
    net.tcpObservers.insertNew agent
      (ObserverTCP.new net.config (net.mkTcpObserverXML message).home agent) := rfl

/-- A rebuilding without the observer that it takes down is not defined. -/
theorem rebuild_eq_some_iff {next : AgentNet} : net.rebuild agent info message = some next ↔
    net.tcpObservers.contains agent = true ∧
      { net with tcpObservers := net.tcpObservers.erase agent }.install agent info message =
        next := by
  rw [rebuild, disactivateObserverTCP]
  by_cases hcontains : net.tcpObservers.contains agent = true
  · rw [if_pos hcontains, Option.map_some, Option.some.injEq, and_iff_right hcontains]
  · rw [if_neg hcontains, Option.map_none]
    exact iff_of_false (Option.some_ne_none next).symm fun h => hcontains h.1

end Install

variable (parse : String → List XmlNode)

/-- The announcement of an agent without an entry. -/
def connect (agent : String) (ev : List String) (message : MMessage) (net : AgentNet) :
    Option AgentNet :=
  (AgentInfo.ofXml parse (message.xmlEncode 0)).map fun info =>
    net.install agent ((((info.add "agentname" agent).add "ip" (message.getString "ip")).add
      "port" (message.getString "port")).addList "observe" ev) message

/-- The entry, after the index operator. -/
def infoOf (agent : String) (net : AgentNet) : AgentInfo :=
  (net.foreignAgents.find? agent).getD AgentInfo.blank

/-- The announcement of an agent with an entry: another address, and then another list of
events, which both the entry and the announcement keep under the name `events`. -/
def change (agent : String) (message : MMessage) (net : AgentNet) : Option AgentNet :=
  let moved :=
    if message.getString "ip" ≠ (net.infoOf agent).getString "ip" then
      net.rebuild agent ((net.infoOf agent).add "ip" (message.getString "ip")) message
    else some net
  moved.bind fun net =>
    if (net.infoOf agent).getList "events" ≠ message.getList "events" ∨
        net.lastSubjectUpdate > (net.infoOf agent).timestamp then
      net.rebuild agent ((net.infoOf agent).addList "events" (message.getList "events")) message
    else some net

def touch (agent : String) (now : ℤ) (net : AgentNet) : AgentNet :=
  net.setInfo agent { net.infoOf agent with timestamp := now }

/-- An announcement is accepted when it observes a subject. -/
def accept (message : MMessage) (now : ℤ) (net : AgentNet) : Option (Bool × AgentNet) :=
  let agent := message.getString "agentname"
  let ev := evFilter net.mysubjects (message.getList "observe")
  if ev = [] then some (false, net)
  else
    (if net.foreignAgents.contains agent then net.change agent message
      else net.connect parse agent ev message).map fun net => (true, net.touch agent now)

/-- An announcement, whether accepted or not; `none` is undefined. -/
def update (message : MMessage) (now : ℤ) (net : AgentNet) : Option (Bool × AgentNet) :=
  accept parse message now
    (if message.getString "agentname" = "wsserver" then net.wsServerUpdate message else net)

/-- Only the address of the web server changes before the announcement is read. -/
theorem update_eq (message : MMessage) (now : ℤ) (net : AgentNet) : ∃ ip port,
    net.update parse message now =
      accept parse message now { net with wsserverIp := ip, wsserverPort := port } := by
  unfold update wsServerUpdate
  split
  · split
    · exact ⟨net.wsserverIp, net.wsserverPort, rfl⟩
    · exact ⟨_, _, rfl⟩
  · exact ⟨net.wsserverIp, net.wsserverPort, rfl⟩

/-! ## The agent itself -/

/-- The own announcement; making it also sets the agent active. -/
def retrieveInfo (ip : String) (net : AgentNet) : AgentInfo :=
  let mydata := ((((AgentInfo.blank.add "agentname" net.agentname).add "ip" ip).add
    "port" net.port).addList "observe" net.externsubjects)
  { mydata with xmlformat := mydata.toMMessage.xmlEncode 1 }.add "status" "active"

/-- New subjects go to the end of a list. -/
def addMissing (subjects new : List String) : List String :=
  new.foldl (fun subjects subject =>
    if subjects.contains subject then subjects else subjects ++ [subject]) subjects

/-- The subjects are those of `NetSubjects`, written `subtype.type`. -/
def subjectsUpdate (exported imported : List String) (ip : String) (net : AgentNet) : AgentNet :=
  let net := { net with
    mysubjects := addMissing net.mysubjects exported
    externsubjects := addMissing net.externsubjects imported }
  { net with
    myinfo := net.retrieveInfo ip
    status := .on }

def subjectDateUpdate (now : ℤ) (net : AgentNet) : AgentNet :=
  { net with lastSubjectUpdate := now }

/-- The time from which an agent waits; an entry of its own name comes first. -/
def waitingSince (net : AgentNet) : ℤ :=
  match net.foreignAgents.find? net.agentname with
  | some info => info.timestamp
  | none => net.myinfo.timestamp

/-- An agent that has waited long enough becomes active again. -/
def reactivate (now : ℤ) (net : AgentNet) : AgentNet :=
  if net.myinfo.getString "status" ≠ "active" then
    let myinfo := { net.myinfo with timestamp := net.waitingSince }
    if now - net.waitingSince > net.validityTime then
      { net with
        myinfo := myinfo.add "status" "active"
        status := .on }
    else { net with myinfo := myinfo }
  else net

/-- One round of the sender: the text it sends, if any. -/
def sendStatus (now : ℤ) (net : AgentNet) : Option String × AgentNet :=
  let after := net.reactivate now
  (if after.myinfo.getString "status" = "active" then some net.myinfo.xmlformat else none, after)

/-- The announcement of an agent of the same name and a greater address silences this one. -/
def giveWay (message : MMessage) (now : ℤ) (net : AgentNet) : AgentNet :=
  if net.myinfo.getString "ip" < message.getString "ip" then
    { net with
      myinfo := { net.myinfo with timestamp := now }.add "status" "waiting"
      status := .off }
  else net

/-- One round of the receiver, with the message if one has come. -/
def recvStatus (message : Option MMessage) (now : ℤ) (clock : String → ℤ) (net : AgentNet) :
    Option AgentNet :=
  let handled := match message with
    | some message =>
        if message.getString "agentname" = net.agentname ∧ net.agentname ≠ "configurator" then
          some (net.giveWay message now)
        else (net.update parse message now).map Prod.snd
    | none => some net
  handled.bind (checkExpired clock)

/-- What the agent is started with. -/
structure Conf where
  agentname : String
  port : String
  validityTime : ℤ
  mysubjects : List String
  externsubjects : List String
  home : ObserverDir
  config : ObserverDir
  lastSubjectUpdate : ℤ

def init (conf : Conf) (ip : String) : AgentNet :=
  let net : AgentNet := {
    agentname := conf.agentname
    port := conf.port
    validityTime := conf.validityTime
    mysubjects := conf.mysubjects
    externsubjects := conf.externsubjects
    myinfo := AgentInfo.blank
    status := .on
    foreignAgents := SortedMap.empty
    tcpObservers := SortedMap.empty
    home := conf.home
    config := conf.config
    lastSubjectUpdate := conf.lastSubjectUpdate
    wsserverIp := ""
    wsserverPort := "" }
  { net with myinfo := net.retrieveInfo ip }

end AgentNet

end Hat
