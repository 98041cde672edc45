import Hat.Core.Machine
import Hat.Minilibs.AgentNet
import Mathlib.Logic.Function.Basic

/-!
# Agents of one name

Several agents of one name announce themselves to each other.  One that hears a greater
address gives way: it waits, with the status off, and becomes active again when it has
heard nothing greater for `validityTime` seconds.  The greatest is never silenced.  The
others stay silent for that time exactly when no subject update makes them active
meanwhile and no expired entry of their own name, which a lookup has left, hides the time
at which they gave way.
-/

namespace Hat.AgentNet

/-- Agents of one name at different addresses. -/
structure Siblings (ι : Type) where
  name : String
  name_ne : name ≠ "configurator"
  ip : ι → String
  ip_injective : Function.Injective ip

/-- An agent with its clock and the time at which it has last heard a greater address. -/
structure Sibling where
  net : AgentNet
  now : ℤ
  heard : Option ℤ

/-- The agents, and the announcements that have been sent, with their senders. -/
structure Network (ι : Type) where
  agents : ι → Sibling
  sent : List (ι × String)

inductive Act (ι : Type)
  | tick (i : ι) (seconds : ℕ)
  | send (i : ι)
  /-- An announcement of a sibling arrives. -/
  | receive (i sender : ι) (text : String)
  /-- A message of another agent arrives, or none. -/
  | listen (i : ι) (message : Option MMessage)
  | subjectsUpdate (i : ι) (exported imported : List String)
  | subjectDateUpdate (i : ι)
  | getAgentIp (i : ι) (agentname : String)
  | getAgentPort (i : ι) (agentname : String)

namespace Sibling

/-- The agent has heard a greater address within the last `validityTime` seconds. -/
def Recent (agent : Sibling) : Prop :=
  ∃ time, agent.heard = some time ∧ agent.now - time ≤ agent.net.validityTime

/-- The agent waits and its status is off. -/
def Muted (agent : Sibling) : Prop :=
  agent.net.myinfo.getString "status" = "waiting" ∧ agent.net.status = .off

end Sibling

section Step

variable {ι : Type} [DecidableEq ι] (parse : String → List XmlNode) (group : Siblings ι)

def start (conf : ι → Conf) (now : ι → ℤ) : Network ι where
  agents i := ⟨init { conf i with agentname := group.name } (group.ip i), now i, none⟩
  sent := []

def Network.set (i : ι) (agent : Sibling) (network : Network ι) : Network ι :=
  { network with agents := Function.update network.agents i agent }

/-- Replace the state of an agent, which keeps its clock and what it has heard. -/
def Network.setNet (i : ι) (net : AgentNet) (network : Network ι) : Network ι :=
  network.set i { network.agents i with net := net }

/-- One round of the receiver; `none` is undefined. -/
def Sibling.recv (message : Option MMessage) (agent : Sibling) : Option AgentNet :=
  agent.net.recvStatus parse message agent.now fun _ => agent.now

/-- An announcement may arrive at any time after it was sent, several times or never; one
that is not read as its sender has written it counts as lost. -/
def Network.step (network : Network ι) : Act ι → Option (Network ι)
  | .tick i seconds =>
      some (network.set i
        { network.agents i with now := (network.agents i).now + seconds })
  | .send i =>
      let result := (network.agents i).net.sendStatus (network.agents i).now
      some { network.setNet i result.2 with
        sent := network.sent ++ (result.1.toList.map fun text => (i, text)) }
  | .receive i sender text =>
      if (sender, text) ∈ network.sent then
        (MMessage.xmlDecode parse text (MMessage.mk2 "agentinfo" "*")).bind fun message =>
          if message.getString "agentname" = group.name ∧
              message.getString "ip" = group.ip sender then
            ((network.agents i).recv parse (some message)).map fun net =>
              network.set i { network.agents i with
                net := net
                heard := if group.ip i < group.ip sender then some (network.agents i).now
                  else (network.agents i).heard }
          else none
      else none
  | .listen i message =>
      if (message.map fun message => message.getString "agentname") = some group.name then none
      else ((network.agents i).recv parse message).map fun net => network.setNet i net
  | .subjectsUpdate i exported imported =>
      some (network.setNet i
        ((network.agents i).net.subjectsUpdate exported imported (group.ip i)))
  | .subjectDateUpdate i =>
      some (network.setNet i ((network.agents i).net.subjectDateUpdate (network.agents i).now))
  | .getAgentIp i agentname =>
      some (network.setNet i
        ((network.agents i).net.getAgentIp agentname (network.agents i).now).2)
  | .getAgentPort i agentname =>
      some (network.setNet i
        ((network.agents i).net.getAgentPort agentname (network.agents i).now).2)

/-- Whoever has lately heard a greater address is silent. -/
def Network.Silenced (network : Network ι) : Prop :=
  ∀ i, (network.agents i).Recent → (network.agents i).Muted

/-- What arrives at the agent with the greatest address neither makes it wait nor switches
it off. -/
def Network.GreatestSpeaks (network : Network ι) : Act ι → Prop
  | .receive i sender text => (∀ j, group.ip j ≤ group.ip i) →
      ∀ next, network.step parse group (.receive i sender text) = some next →
        (next.agents i).net.status = (network.agents i).net.status ∧
          (next.agents i).net.myinfo = (network.agents i).net.myinfo
  | .listen i message => ∀ next, network.step parse group (.listen i message) = some next →
      (next.agents i).net.status = (network.agents i).net.status ∧
        (next.agents i).net.myinfo = (network.agents i).net.myinfo
  | _ => True

/-- An agent that has lately heard a greater address gets no subject update, and its
sender finds no expired entry of its own name. -/
def Network.Undisturbed (network : Network ι) : Act ι → Prop
  | .subjectsUpdate i _ _ => ¬(network.agents i).Recent
  | .send i => (network.agents i).Recent →
      ∀ info, (network.agents i).net.foreignAgents.find? group.name = some info →
        (network.agents i).now - info.timestamp ≤ (network.agents i).net.validityTime
  | _ => True

end Step

/-- The agent itself stays as it is, and so does the entry of its own name, which has no
observer. -/
structure Frame (own : String) (net next : AgentNet) : Prop where
  agentname : next.agentname = net.agentname
  validityTime : next.validityTime = net.validityTime
  myinfo : next.myinfo = net.myinfo
  status : next.status = net.status
  observer : net.tcpObservers.contains own = false → next.tcpObservers.contains own = false
  entry : net.tcpObservers.contains own = false →
    next.foreignAgents.find? own = net.foreignAgents.find? own

variable {own agent : String} {net next last : AgentNet} {info : AgentInfo} {message : MMessage}
  {parse : String → List XmlNode}

theorem Frame.refl (own : String) (net : AgentNet) : Frame own net net :=
  ⟨rfl, rfl, rfl, rfl, id, fun _ => rfl⟩

theorem Frame.trans (h : Frame own net next) (h' : Frame own next last) : Frame own net last where
  agentname := h'.agentname.trans h.agentname
  validityTime := h'.validityTime.trans h.validityTime
  myinfo := h'.myinfo.trans h.myinfo
  status := h'.status.trans h.status
  observer hfree := h'.observer (h.observer hfree)
  entry hfree := (h'.entry (h.observer hfree)).trans (h.entry hfree)

theorem frame_install (hne : agent ≠ own) (info : AgentInfo) (message : MMessage)
    (net : AgentNet) : Frame own net (net.install agent info message) where
  agentname := rfl
  validityTime := rfl
  myinfo := rfl
  status := rfl
  observer hfree := by
    rw [tcpObservers_install, SortedMap.contains, SortedMap.find?_insertNew,
      if_neg fun h => hne h.1]
    exact hfree
  entry _ := by
    rw [foreignAgents_install, SortedMap.find?_insert_of_ne _ _ hne]

theorem frame_rebuild (hne : agent ≠ own) (h : net.rebuild agent info message = some next) :
    Frame own net next := by
  obtain ⟨_, rfl⟩ := (rebuild_eq_some_iff _ _ _ _).mp h
  refine Frame.trans ?_ (frame_install hne info message _)
  refine ⟨rfl, rfl, rfl, rfl, fun hfree => ?_, fun _ => rfl⟩
  rw [SortedMap.contains, SortedMap.find?_erase, if_neg hne]
  exact hfree

theorem frame_rebuild_if (hne : agent ≠ own) {c : Prop} [Decidable c]
    (h : (if c then net.rebuild agent info message else some net) = some next) :
    Frame own net next := by
  split at h
  · exact frame_rebuild hne h
  · exact Option.some.inj h ▸ Frame.refl own net

theorem frame_touch (hne : agent ≠ own) (now : ℤ) (net : AgentNet) :
    Frame own net (net.touch agent now) :=
  ⟨rfl, rfl, rfl, rfl, id, fun _ => SortedMap.find?_insert_of_ne _ _ hne⟩

theorem frame_update (hne : message.getString "agentname" ≠ own) {now : ℤ}
    {result : Bool × AgentNet} (hupdate : net.update parse message now = some result) :
    Frame own net result.2 := by
  obtain ⟨ip, port, heq⟩ := update_eq parse message now net
  rw [heq] at hupdate
  simp only [accept] at hupdate
  have hserver : Frame own net { net with wsserverIp := ip, wsserverPort := port } :=
    ⟨rfl, rfl, rfl, rfl, id, fun _ => rfl⟩
  apply hserver.trans
  split at hupdate
  · exact Option.some.inj hupdate ▸ Frame.refl own _
  · obtain ⟨stored, hstored, rfl⟩ := Option.map_eq_some_iff.mp hupdate
    refine Frame.trans ?_ (frame_touch hne now stored)
    split at hstored
    · obtain ⟨moved, hmoved, hchanged⟩ := Option.bind_eq_some_iff.mp hstored
      exact (frame_rebuild_if hne hmoved).trans (frame_rebuild_if hne hchanged)
    · obtain ⟨info, _, rfl⟩ := Option.map_eq_some_iff.mp hstored
      exact frame_install hne _ message _

/-- An expired entry without an observer ends the run, so none has been disconnected. -/
theorem frame_disconnect {agents : List String} (h : net.disconnect agents = some next) :
    Frame own net next := by
  induction agents generalizing net with
  | nil => exact Option.some.inj h ▸ Frame.refl own net
  | cons agent rest ih =>
      obtain ⟨without, hwithout, hrest⟩ := Option.bind_eq_some_iff.mp h
      rw [disactivateObserverTCP] at hwithout
      split at hwithout
      · rename_i hobserver
        obtain rfl := Option.some.inj hwithout
        refine Frame.trans ?_ (ih hrest)
        refine ⟨rfl, rfl, rfl, rfl, fun hfree => ?_, fun hfree => ?_⟩
        · rw [← Bool.not_eq_true, SortedMap.contains_erase, hfree]
          simp
        · have hne : agent ≠ own := by
            rintro rfl
            exact Bool.false_ne_true (hfree.symm.trans hobserver)
          rw [SortedMap.find?_erase, if_neg hne]
      · exact absurd hwithout.symm (Option.some_ne_none without)

/-- What holds of an agent of the group throughout a run. -/
structure Sound (name ip : String) (agent : Sibling) : Prop where
  agentname : agent.net.agentname = name
  address : agent.net.myinfo.getString "ip" = ip
  plain : ∃ value, agent.net.myinfo.fields.find? "status" = some (.mstring value)
  observer : agent.net.tcpObservers.contains name = false
  /-- Without an entry of its own name, a silent agent knows since when it is silent. -/
  since : agent.net.foreignAgents.contains name = false →
    agent.net.myinfo.getString "status" ≠ "active" →
      agent.heard = some agent.net.myinfo.timestamp

theorem Sound.frame {name ip : String} {before : Sibling} (h : Sound name ip before)
    (hframe : Frame name before.net next) : Sound name ip { before with net := next } := by
  obtain ⟨hname, hip, hplain, hobserver, hsince⟩ := h
  constructor
  · exact hframe.agentname.trans hname
  · rw [hframe.myinfo]
    exact hip
  · rw [hframe.myinfo]
    exact hplain
  · exact hframe.observer hobserver
  · rw [hframe.myinfo, SortedMap.contains, hframe.entry hobserver]
    exact hsince

theorem fields_retrieveInfo (ip : String) (net : AgentNet) :
    (net.retrieveInfo ip).getString "ip" = ip ∧
      (net.retrieveInfo ip).fields.find? "status" = some (.mstring "active") := by
  have hinfo : (net.retrieveInfo ip).toMMessage =
      ((((MMessage.blank.add "agentname" net.agentname).add "ip" ip).add "port"
        net.port).addList "observe" net.externsubjects).add "status" "active" := by
    simp only [AgentNet.retrieveInfo, AgentInfo.add, AgentInfo.addList, AgentInfo.blank]
  rw [hinfo]
  constructor
  · rw [MMessage.getString_add_of_ne _ _ (by decide),
      MMessage.getString_addList_of_ne _ _ (by decide),
      MMessage.getString_add_of_ne _ _ (by decide), MMessage.getString_add_iff,
      MMessage.takes_add_of_ne _ _ _ (by decide)]
    exact fun first rest hlist => absurd hlist.symm (Option.some_ne_none _)
  · rw [MMessage.find?_add, if_pos rfl, MMessage.find?_addList_of_ne _ _ (by decide),
      MMessage.find?_add_of_ne _ _ (by decide), MMessage.find?_add_of_ne _ _ (by decide),
      MMessage.find?_add_of_ne _ _ (by decide)]
    rfl

/-- An agent that has just described itself is active. -/
theorem Sound.retrieveInfo {name ip : String} {before : Sibling} (h : Sound name ip before)
    {next : AgentNet} (hname : next.agentname = before.net.agentname)
    (hobservers : next.tcpObservers = before.net.tcpObservers)
    {described : AgentNet} (hinfo : next.myinfo = described.retrieveInfo ip) :
    Sound name ip { before with net := next } := by
  obtain ⟨hip, hstatus⟩ := fields_retrieveInfo ip described
  constructor
  · exact hname.trans h.agentname
  · rw [hinfo]
    exact hip
  · rw [hinfo]
    exact ⟨"active", hstatus⟩
  · rw [hobservers]
    exact h.observer
  · intro _ hwaiting
    rw [hinfo, MMessage.getString, hstatus] at hwaiting
    exact absurd rfl hwaiting

theorem Sound.getAgent {name ip : String} {before : Sibling} (h : Sound name ip before)
    (field default agentname : String) (now : ℤ) :
    Sound name ip
      { before with net := (before.net.getAgent field default agentname now).2 } := by
  rw [AgentNet.getAgent]
  split
  · refine ⟨h.agentname, h.address, h.plain, h.observer, fun hmissing => h.since ?_⟩
    rw [← Bool.not_eq_true] at hmissing ⊢
    intro hfound
    exact hmissing ((SortedMap.contains_insertNew _ _ _ _).mpr (Or.inr hfound))
  · exact h

/-- A plain status takes every new value. -/
theorem status_add (info : AgentInfo) (hplain : ∃ value, info.fields.find? "status" =
    some (.mstring value)) (status : String) :
    (info.add "status" status).fields.find? "status" = some (.mstring status) := by
  obtain ⟨value, hvalue⟩ := hplain
  refine (MMessage.find?_add "status" "status" status info.toMMessage).trans ?_
  rw [if_pos rfl, hvalue]
  rfl

theorem getString_status {info : AgentInfo} {status : String}
    (h : info.fields.find? "status" = some (.mstring status)) :
    info.getString "status" = status := by
  rw [MMessage.getString, h]
  rfl

theorem Sound.giveWay {name ip : String} {before : Sibling} (h : Sound name ip before)
    (message : MMessage) :
    Sound name ip { before with
      net := before.net.giveWay message before.now
      heard := if ip < message.getString "ip" then some before.now else before.heard } := by
  rw [AgentNet.giveWay, h.address]
  by_cases hgreater : ip < message.getString "ip"
  · rw [if_pos hgreater, if_pos hgreater]
    refine ⟨h.agentname, ?_, ⟨"waiting", ?_⟩, h.observer, fun _ _ => rfl⟩
    · exact (MMessage.getString_add_of_ne _ _ (by decide)).trans h.address
    · exact status_add { before.net.myinfo with timestamp := before.now } h.plain _
  · rw [if_neg hgreater, if_neg hgreater]
    exact h

theorem Sound.reactivate {name ip : String} {before : Sibling} (h : Sound name ip before) :
    Sound name ip { before with net := before.net.reactivate before.now } := by
  rw [AgentNet.reactivate]
  by_cases hwaiting : before.net.myinfo.getString "status" ≠ "active"
  · rw [if_pos hwaiting]
    by_cases hexpired : before.now - before.net.waitingSince > before.net.validityTime
    · rw [if_pos hexpired]
      have hactive := status_add
        { before.net.myinfo with timestamp := before.net.waitingSince } h.plain "active"
      refine ⟨h.agentname, ?_, ⟨"active", hactive⟩, h.observer, fun _ hstatus => ?_⟩
      · exact (MMessage.getString_add_of_ne _ _ (by decide)).trans h.address
      · exact absurd (getString_status hactive) hstatus
    · rw [if_neg hexpired]
      refine ⟨h.agentname, h.address, h.plain, h.observer, fun hmissing hstatus => ?_⟩
      have hnone : before.net.foreignAgents.find? before.net.agentname = none := by
        rw [h.agentname]
        simpa [SortedMap.contains] using hmissing
      have hsince : before.net.waitingSince = before.net.myinfo.timestamp := by
        rw [waitingSince, hnone]
      exact (h.since hmissing hstatus).trans (congrArg some hsince.symm)
  · rw [if_neg hwaiting]
    exact h

/-- A silent agent stays silent in a round of its sender exactly when an entry of its own
name is not expired. -/
theorem muted_reactivate_iff {name ip : String} {before : Sibling} (h : Sound name ip before)
    (hrecent : before.Recent) (hmuted : before.Muted) :
    Sibling.Muted { before with net := before.net.reactivate before.now } ↔
      ∀ info, before.net.foreignAgents.find? name = some info →
        before.now - info.timestamp ≤ before.net.validityTime := by
  obtain ⟨hstatus, hoff⟩ := hmuted
  have hwaiting : before.net.myinfo.getString "status" ≠ "active" := by
    rw [hstatus]
    decide
  suffices hiff : Sibling.Muted { before with net := before.net.reactivate before.now } ↔
      before.now - before.net.waitingSince ≤ before.net.validityTime by
    rw [hiff, waitingSince, h.agentname]
    cases hentry : before.net.foreignAgents.find? name with
    | some info => simp
    | none =>
        obtain ⟨time, htime, hle⟩ := hrecent
        have hmissing : before.net.foreignAgents.contains name = false := by
          rw [SortedMap.contains, hentry]
          rfl
        have hsince := Option.some.inj ((h.since hmissing hwaiting).symm.trans htime)
        refine iff_of_true ?_ fun info hinfo => absurd hinfo.symm (Option.some_ne_none info)
        rw [hsince]
        exact hle
  rw [AgentNet.reactivate, if_pos hwaiting]
  by_cases hexpired : before.now - before.net.waitingSince > before.net.validityTime
  · rw [if_pos hexpired]
    refine iff_of_false (fun hmuted => ?_) (not_le.mpr hexpired)
    have hactive := getString_status (status_add
      { before.net.myinfo with timestamp := before.net.waitingSince } h.plain "active")
    exact absurd (hactive.symm.trans hmuted.1) (by decide)
  · rw [if_neg hexpired]
    exact iff_of_true ⟨hstatus, hoff⟩ (not_lt.mp hexpired)

/-- What another agent announces keeps a silent agent silent. -/
theorem Frame.muted {name : String} {before : Sibling} (h : Frame name before.net next)
    (hmuted : before.Recent → before.Muted) :
    Sibling.Recent { before with net := next } → Sibling.Muted { before with net := next } := by
  rintro ⟨time, htime, hle⟩
  rw [h.validityTime] at hle
  obtain ⟨hstatus, hoff⟩ := hmuted ⟨time, htime, hle⟩
  refine ⟨?_, h.status.trans hoff⟩
  rw [h.myinfo]
  exact hstatus

theorem recv_sibling {name ip : String} {before : Sibling} (h : Sound name ip before)
    (hne : name ≠ "configurator") (hname : message.getString "agentname" = name)
    (hrecv : before.recv parse (some message) = some next) :
    Frame name (before.net.giveWay message before.now) next := by
  rw [Sibling.recv, recvStatus, h.agentname, if_pos ⟨hname, hne⟩] at hrecv
  exact frame_disconnect hrecv

theorem recv_other {name ip : String} {before : Sibling} (h : Sound name ip before)
    {message : Option MMessage}
    (hname : (message.map fun message => message.getString "agentname") ≠ some name)
    (hrecv : before.recv parse message = some next) : Frame name before.net next := by
  cases message with
  | none => exact frame_disconnect hrecv
  | some message =>
      have hother : message.getString "agentname" ≠ name := fun heq => hname (congrArg some heq)
      rw [Sibling.recv, recvStatus, h.agentname, if_neg fun both => hother both.1] at hrecv
      obtain ⟨handled, hhandled, hexpired⟩ := Option.bind_eq_some_iff.mp hrecv
      obtain ⟨result, hresult, rfl⟩ := Option.map_eq_some_iff.mp hhandled
      exact (frame_update hother hresult).trans (frame_disconnect hexpired)

/-! ## The group -/

section Group

variable {ι : Type} [DecidableEq ι] {group : Siblings ι} {network after : Network ι}

def AllSound (group : Siblings ι) (network : Network ι) : Prop :=
  ∀ i, Sound group.name (group.ip i) (network.agents i)

@[simp]
theorem agents_set_self (network : Network ι) (i : ι) (changed : Sibling) :
    (network.set i changed).agents i = changed := by
  simp [Network.set]

theorem agents_set_of_ne (network : Network ι) {i j : ι} (hne : j ≠ i) (changed : Sibling) :
    (network.set i changed).agents j = network.agents j := by
  simp [Network.set, hne]

theorem AllSound.set (hsound : AllSound group network) {i : ι} {changed : Sibling}
    (hchanged : Sound group.name (group.ip i) changed) :
    AllSound group (network.set i changed) := by
  intro j
  by_cases hj : j = i
  · subst hj
    rw [agents_set_self]
    exact hchanged
  · rw [agents_set_of_ne network hj]
    exact hsound j

theorem silenced_set_iff (hsilenced : network.Silenced) (i : ι) (changed : Sibling) :
    (network.set i changed).Silenced ↔ (changed.Recent → changed.Muted) := by
  constructor
  · intro h
    have hi := h i
    rw [agents_set_self] at hi
    exact hi
  · intro h j
    by_cases hj : j = i
    · subst hj
      rw [agents_set_self]
      exact h
    · rw [agents_set_of_ne network hj]
      exact hsilenced j

/-- What the arrival of a sibling's announcement makes of the receiver. -/
theorem receive_eq_some {i sender : ι} {text : String}
    (hstep : network.step parse group (.receive i sender text) = some after) :
    ∃ message net, (message.getString "agentname" = group.name ∧
        message.getString "ip" = group.ip sender) ∧
      (network.agents i).recv parse (some message) = some net ∧
      network.set i { network.agents i with
        net := net
        heard := if group.ip i < group.ip sender then some (network.agents i).now
          else (network.agents i).heard } = after := by
  rw [Network.step] at hstep
  split at hstep
  · obtain ⟨message, _, hmessage⟩ := Option.bind_eq_some_iff.mp hstep
    split at hmessage
    · rename_i hfields
      obtain ⟨net, hnet, rfl⟩ := Option.map_eq_some_iff.mp hmessage
      exact ⟨message, net, hfields, hnet, rfl⟩
    · exact absurd hmessage.symm (Option.some_ne_none after)
  · exact absurd hstep.symm (Option.some_ne_none after)

theorem listen_eq_some {i : ι} {message : Option MMessage}
    (hstep : network.step parse group (.listen i message) = some after) :
    (message.map fun message => message.getString "agentname") ≠ some group.name ∧
      ∃ net, (network.agents i).recv parse message = some net ∧ network.setNet i net = after := by
  rw [Network.step] at hstep
  split at hstep
  · exact absurd hstep.symm (Option.some_ne_none after)
  · rename_i hname
    exact ⟨hname, Option.map_eq_some_iff.mp hstep⟩

theorem AllSound.step (hsound : AllSound group network) (act : Act ι)
    (hstep : network.step parse group act = some after) : AllSound group after := by
  cases act with
  | tick i seconds =>
      obtain rfl := Option.some.inj hstep
      obtain ⟨hname, hip, hplain, hobserver, hsince⟩ := hsound i
      exact hsound.set ⟨hname, hip, hplain, hobserver, hsince⟩
  | send i =>
      obtain rfl := Option.some.inj hstep
      exact hsound.set (hsound i).reactivate
  | receive i sender text =>
      obtain ⟨message, net, ⟨hname, hip⟩, hrecv, rfl⟩ := receive_eq_some hstep
      have hframe := recv_sibling (hsound i) group.name_ne hname hrecv
      have hgive := (hsound i).giveWay message
      rw [hip] at hgive
      exact hsound.set (hgive.frame hframe)
  | listen i message =>
      obtain ⟨hname, net, hrecv, rfl⟩ := listen_eq_some hstep
      exact hsound.set ((hsound i).frame (recv_other (hsound i) hname hrecv))
  | subjectsUpdate i exported imported =>
      obtain rfl := Option.some.inj hstep
      exact hsound.set ((hsound i).retrieveInfo rfl rfl rfl)
  | subjectDateUpdate i =>
      obtain rfl := Option.some.inj hstep
      obtain ⟨hname, hip, hplain, hobserver, hsince⟩ := hsound i
      exact hsound.set ⟨hname, hip, hplain, hobserver, hsince⟩
  | getAgentIp i agentname =>
      obtain rfl := Option.some.inj hstep
      exact hsound.set ((hsound i).getAgent _ _ agentname _)
  | getAgentPort i agentname =>
      obtain rfl := Option.some.inj hstep
      exact hsound.set ((hsound i).getAgent _ _ agentname _)

/-- The greatest hears nothing that it would give way to. -/
theorem greatestSpeaks (hsound : AllSound group network) (act : Act ι) :
    network.GreatestSpeaks parse group act := by
  cases act with
  | receive i sender text =>
      intro hgreatest next hstep
      obtain ⟨message, net, ⟨hname, hip⟩, hrecv, rfl⟩ := receive_eq_some hstep
      have hframe := recv_sibling (hsound i) group.name_ne hname hrecv
      have hsame : (network.agents i).net.giveWay message (network.agents i).now =
          (network.agents i).net := by
        rw [giveWay, (hsound i).address, hip, if_neg (not_lt.mpr (hgreatest sender))]
      rw [hsame] at hframe
      rw [agents_set_self]
      exact ⟨hframe.status, hframe.myinfo⟩
  | listen i message =>
      intro next hstep
      obtain ⟨hname, net, hrecv, rfl⟩ := listen_eq_some hstep
      have hframe := recv_other (hsound i) hname hrecv
      rw [Network.setNet, agents_set_self]
      exact ⟨hframe.status, hframe.myinfo⟩
  | _ => trivial

omit [DecidableEq ι] in
theorem forall_next_iff {Q : Network ι → Prop} {next : Network ι} :
    (∀ found, some next = some found → Q found) ↔ Q next :=
  ⟨fun h => h next rfl, fun h _ heq => Option.some.inj heq ▸ h⟩

theorem validityTime_reactivate (now : ℤ) (net : AgentNet) :
    (net.reactivate now).validityTime = net.validityTime := by
  unfold reactivate
  split
  · split <;> rfl
  · rfl

/-- A lookup changes nothing but the table. -/
theorem silenced_getAgent (hsilenced : network.Silenced) (i : ι)
    (field default agentname : String) (now : ℤ) :
    (network.setNet i
      ((network.agents i).net.getAgent field default agentname now).2).Silenced := by
  apply (silenced_set_iff hsilenced i _).mpr
  rw [getAgent]
  split
  · exact hsilenced i
  · exact hsilenced i

/-- An announcement with a greater ip silences the agent that receives it, and any other
leaves it as it is. -/
theorem silenced_receive (hsound : AllSound group network) (hsilenced : network.Silenced)
    {i sender : ι} {text : String} {next : Network ι}
    (hstep : network.step parse group (.receive i sender text) = some next) : next.Silenced := by
  obtain ⟨message, net, ⟨hname, hip⟩, hrecv, rfl⟩ := receive_eq_some hstep
  have hframe := recv_sibling (hsound i) group.name_ne hname hrecv
  apply (silenced_set_iff hsilenced i _).mpr
  by_cases hgreater : group.ip i < group.ip sender
  · intro _
    rw [giveWay, (hsound i).address, hip, if_pos hgreater] at hframe
    refine ⟨?_, hframe.status⟩
    rw [hframe.myinfo]
    exact getString_status (status_add
      { (network.agents i).net.myinfo with timestamp := (network.agents i).now }
      (hsound i).plain "waiting")
  · rw [giveWay, (hsound i).address, hip, if_neg hgreater] at hframe
    rw [if_neg hgreater]
    exact hframe.muted (hsilenced i)

/-- One step keeps the silent ones silent exactly when it does not disturb them. -/
theorem silenced_step_iff (hsound : AllSound group network) (hsilenced : network.Silenced)
    (act : Act ι) :
    (∀ next, network.step parse group act = some next → next.Silenced) ↔
      network.Undisturbed group act := by
  cases act with
  | tick i seconds =>
      rw [Network.step, forall_next_iff, silenced_set_iff hsilenced]
      refine iff_of_true ?_ trivial
      rintro ⟨time, htime, hle⟩
      refine hsilenced i ⟨time, htime, le_trans ?_ hle⟩
      simp
  | send i =>
      rw [Network.step, forall_next_iff]
      refine (silenced_set_iff hsilenced i _).trans ?_
      have hrecent : Sibling.Recent { network.agents i with
          net := ((network.agents i).net.sendStatus (network.agents i).now).2 } ↔
            (network.agents i).Recent := by
        simp only [Sibling.Recent, sendStatus, validityTime_reactivate]
      rw [hrecent]
      apply forall_congr'
      intro hi
      exact muted_reactivate_iff (hsound i) hi (hsilenced i hi)
  | receive i sender text =>
      exact iff_of_true (fun next hstep => silenced_receive hsound hsilenced hstep) trivial
  | listen i message =>
      refine iff_of_true (fun next hstep => ?_) trivial
      obtain ⟨hname, net, hrecv, rfl⟩ := listen_eq_some hstep
      apply (silenced_set_iff hsilenced i _).mpr
      exact (recv_other (hsound i) hname hrecv).muted (hsilenced i)
  | subjectsUpdate i exported imported =>
      rw [Network.step, forall_next_iff]
      refine (silenced_set_iff hsilenced i _).trans ?_
      have hloud : ¬Sibling.Muted { network.agents i with
          net := (network.agents i).net.subjectsUpdate exported imported (group.ip i) } := by
        intro hmuted
        have hon : Hsrv.Status.on = Hsrv.Status.off := hmuted.2
        exact absurd hon (by decide)
      exact ⟨fun h hrecent => hloud (h hrecent), fun h hrecent => absurd hrecent h⟩
  | subjectDateUpdate i =>
      rw [Network.step, forall_next_iff]
      exact iff_of_true ((silenced_set_iff hsilenced i _).mpr (hsilenced i)) trivial
  | getAgentIp i agentname =>
      rw [Network.step, forall_next_iff]
      exact iff_of_true (silenced_getAgent hsilenced i _ _ _ _) trivial
  | getAgentPort i agentname =>
      rw [Network.step, forall_next_iff]
      exact iff_of_true (silenced_getAgent hsilenced i _ _ _ _) trivial

/-! ## Runs -/

omit [DecidableEq ι] in
theorem allSound_start (group : Siblings ι) (conf : ι → Conf) (now : ι → ℤ) :
    AllSound group (start group conf now) := by
  intro i
  obtain ⟨hip, hstatus⟩ := fields_retrieveInfo (group.ip i)
    { init { conf i with agentname := group.name } (group.ip i) with myinfo := AgentInfo.blank }
  refine ⟨rfl, hip, ⟨"active", hstatus⟩, rfl, fun _ hwaiting => ?_⟩
  exact absurd (getString_status hstatus) hwaiting

variable (parse)

/-- In every run what arrives at the greatest leaves it alone; and whoever has lately heard
a greater address is silent throughout exactly when nothing disturbs the silent ones. -/
theorem silenced_iff (group : Siblings ι) (conf : ι → Conf) (now : ι → ℤ)
    (acts : List (Act ι)) :
    (Machine.Always (Network.step parse group) Network.Silenced (start group conf now) acts ∧
        Machine.Along (Network.step parse group) (Network.GreatestSpeaks parse group)
          (start group conf now) acts) ↔
      Machine.Along (Network.step parse group) (Network.Undisturbed group)
        (start group conf now) acts := by
  have hstart := allSound_start group conf now
  have hstep : ∀ network act next, AllSound group network →
      Network.step parse group network act = some next → AllSound group next :=
    fun network act next hsound hnext => hsound.step act hnext
  rw [and_iff_left]
  · apply Machine.always_iff_along hstep
    · exact fun network act hsound hsilenced => silenced_step_iff hsound hsilenced act
    · exact hstart
    · rintro i ⟨time, htime, _⟩
      exact absurd htime.symm (Option.some_ne_none time)
  · exact Machine.along_of_invariant hstep
      (fun network act hsound => greatestSpeaks hsound act) acts hstart

end Group

def twoAlarms : Siblings Bool where
  name := "alarm"
  name_ne := by decide
  ip greater := if greater then "10.0.0.2" else "10.0.0.1"
  ip_injective := by
    unfold Function.Injective
    decide

/-- What the alarm with the greater address announces. -/
def greaterAnnouncement : MMessage :=
  (((MMessage.blank.add "agentname" "alarm").add "ip" "10.0.0.2").add "port" "8086").addList
    "observe" []

def readGreater (text : String) : List XmlNode :=
  if text = greaterAnnouncement.xmlEncode 1 then [.other, greaterAnnouncement.node] else []

def alarmConf : Conf :=
  ⟨"alarm", "8086", 180, ["door.event"], [], SortedMap.empty, SortedMap.empty, 0⟩

/-- The alarm that has given way becomes active at once when its subjects are updated. -/
theorem not_silenced_subjectsUpdate :
    ¬(Machine.Always (Network.step readGreater twoAlarms) Network.Silenced
          (start twoAlarms (fun _ => alarmConf) fun _ => 1000)
          [.send true, .receive false true (greaterAnnouncement.xmlEncode 1),
            .subjectsUpdate false [] []] ∧
        Machine.Along (Network.step readGreater twoAlarms)
          (Network.GreatestSpeaks readGreater twoAlarms)
          (start twoAlarms (fun _ => alarmConf) fun _ => 1000)
          [.send true, .receive false true (greaterAnnouncement.xmlEncode 1),
            .subjectsUpdate false [] []]) := by
  rintro ⟨halways, _⟩
  have hrun : ((Machine.exec (Network.step readGreater twoAlarms)
      (start twoAlarms (fun _ => alarmConf) fun _ => 1000)
      [.send true, .receive false true (greaterAnnouncement.xmlEncode 1),
        .subjectsUpdate false [] []]).map fun network =>
          ((network.agents false).heard, (network.agents false).now,
            (network.agents false).net.validityTime, (network.agents false).net.status)) =
      some (some 1000, 1000, 180, .on) := by
    decide +kernel
  obtain ⟨network, hexec, hvalues⟩ := Option.map_eq_some_iff.mp hrun
  simp only [Prod.mk.injEq] at hvalues
  obtain ⟨hheard, hnow, hvalidity, hstatus⟩ := hvalues
  have hmuted := halways.last hexec false ⟨1000, hheard, by rw [hnow, hvalidity]; decide⟩
  have hon : Hsrv.Status.on = Hsrv.Status.off := hstatus.symm.trans hmuted.2
  exact absurd hon (by decide)

end Hat.AgentNet
