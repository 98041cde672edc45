import Hat.Core.Machine
import Hat.Minilibs.AgentNet

/-!
# The observers of the announced agents

The table of agents and the map of their observers are kept in step by hand.  They have
the same keys throughout a run exactly when no lookup of the agent's own name finds the
name missing, since this lookup alone inserts an entry without an observer.
-/

namespace Hat.AgentNet

/-- The calls from the threads of the agent and from its users. -/
inductive NetCall
  | update (message : MMessage) (now : ℤ)
  | checkExpired (clock : String → ℤ)
  | getAgentIp (agentname : String) (now : ℤ)
  | getAgentPort (agentname : String) (now : ℤ)
  | retrieveInfoOf (agent : String)
  | retrieveInfo
  | subjectsUpdate (exported imported : List String) (ip : String)
  | subjectDateUpdate (now : ℤ)

variable (parse : String → List XmlNode)

/-- The state after a call; `none` is undefined. -/
def call (net : AgentNet) : NetCall → Option AgentNet
  | .update message now => (net.update parse message now).map Prod.snd
  | .checkExpired clock => net.checkExpired clock
  | .getAgentIp agentname now => some (net.getAgentIp agentname now).2
  | .getAgentPort agentname now => some (net.getAgentPort agentname now).2
  | .retrieveInfoOf _ => some net
  | .retrieveInfo => some { net with status := .on }
  | .subjectsUpdate exported imported ip => some (net.subjectsUpdate exported imported ip)
  | .subjectDateUpdate now => some (net.subjectDateUpdate now)

/-- The agents with an observer are those of the table. -/
def KeysAgree (net : AgentNet) : Prop :=
  ∀ agent, net.tcpObservers.contains agent = net.foreignAgents.contains agent

/-- Every observer that the call takes down is there. -/
def FindsObservers (net : AgentNet) : NetCall → Prop
  | .update message _ =>
      evFilter net.mysubjects (message.getList "observe") ≠ [] →
        net.foreignAgents.contains (message.getString "agentname") = true →
          net.change (message.getString "agentname") message ≠ none
  | .checkExpired clock => net.checkExpired clock ≠ none
  | _ => True

/-- A lookup of the own name finds an entry. -/
def OwnKnown (net : AgentNet) : NetCall → Prop
  | .getAgentIp agentname _ | .getAgentPort agentname _ =>
      agentname = net.agentname → net.foreignAgents.contains agentname = true
  | _ => True

variable {parse} {net next : AgentNet} {agent : String} {info : AgentInfo} {message : MMessage}

theorem contains_install (net : AgentNet) (agent : String) (info : AgentInfo)
    (message : MMessage) (other : String) :
    ((net.install agent info message).tcpObservers.contains other = true ↔
        agent = other ∨ net.tcpObservers.contains other = true) ∧
      ((net.install agent info message).foreignAgents.contains other = true ↔
        agent = other ∨ net.foreignAgents.contains other = true) := by
  rw [tcpObservers_install, foreignAgents_install]
  exact ⟨SortedMap.contains_insertNew _ _ _ _, SortedMap.contains_insert _ _ _ _⟩

theorem KeysAgree.install (hagree : net.KeysAgree) (agent : String) (info : AgentInfo)
    (message : MMessage) : (net.install agent info message).KeysAgree := by
  intro other
  obtain ⟨hobservers, hagents⟩ :=
    contains_install net agent info message other
  rw [Bool.eq_iff_iff, hobservers, hagents, hagree other]

/-- A rebuilding keeps both sets of keys, where the agent has an entry. -/
theorem KeysAgree.rebuild (hagree : net.KeysAgree)
    (hcontains : net.foreignAgents.contains agent = true) (info : AgentInfo)
    (message : MMessage) :
    ∃ next, net.rebuild agent info message = some next ∧ next.KeysAgree ∧
      next.foreignAgents.contains agent = true := by
  refine ⟨_, (rebuild_eq_some_iff _ _ _ _).mpr ⟨(hagree agent).trans hcontains, rfl⟩, ?_, ?_⟩
  · intro other
    obtain ⟨hobservers, hagents⟩ :=
      contains_install { net with tcpObservers := net.tcpObservers.erase agent } agent info
        message other
    rw [Bool.eq_iff_iff, hobservers, hagents, SortedMap.contains_erase, hagree other]
    by_cases hother : agent = other
    · simp [hother]
    · simp [hother]
  · exact (contains_install _ _ _ _ agent).2.mpr (Or.inl rfl)

theorem KeysAgree.change (hagree : net.KeysAgree)
    (hcontains : net.foreignAgents.contains agent = true) (message : MMessage) :
    ∃ next, net.change agent message = some next ∧ next.KeysAgree ∧
      next.foreignAgents.contains agent = true := by
  suffices hsecond : ∀ moved : AgentNet, moved.KeysAgree →
      moved.foreignAgents.contains agent = true → ∃ next,
        (if (moved.infoOf agent).getList "events" ≠ message.getList "events" ∨
            moved.lastSubjectUpdate > (moved.infoOf agent).timestamp then
          moved.rebuild agent ((moved.infoOf agent).addList "events" (message.getList "events"))
            message
        else some moved) = some next ∧ next.KeysAgree ∧
          next.foreignAgents.contains agent = true by
    rw [AgentNet.change]
    split
    · obtain ⟨moved, hmoved, hagree, hcontains⟩ :=
        hagree.rebuild hcontains ((net.infoOf agent).add "ip" (message.getString "ip")) message
      rw [hmoved, Option.bind_some]
      exact hsecond moved hagree hcontains
    · rw [Option.bind_some]
      exact hsecond net hagree hcontains
  intro moved hagree hcontains
  split
  · exact hagree.rebuild hcontains _ message
  · exact ⟨moved, rfl, hagree, hcontains⟩

theorem KeysAgree.touch (hagree : net.KeysAgree)
    (hcontains : net.foreignAgents.contains agent = true) (now : ℤ) :
    (net.touch agent now).KeysAgree := by
  intro other
  have htouch : (net.touch agent now).foreignAgents.contains other = true ↔
      agent = other ∨ net.foreignAgents.contains other = true :=
    SortedMap.contains_insert _ _ _ _
  rw [Bool.eq_iff_iff, htouch, ← hagree other, or_iff_right_of_imp]
  · rfl
  · rintro rfl
    exact (hagree agent).trans hcontains

theorem KeysAgree.accept (hagree : net.KeysAgree) {now : ℤ} {result : Bool × AgentNet}
    (haccept : net.accept parse message now = some result) : result.2.KeysAgree := by
  simp only [AgentNet.accept] at haccept
  split at haccept
  · rw [← Option.some.inj haccept]
    exact hagree
  · obtain ⟨stored, hstored, rfl⟩ := Option.map_eq_some_iff.mp haccept
    split at hstored
    · rename_i hcontains
      obtain ⟨next, hnext, hagree, hcontains⟩ := hagree.change hcontains message
      obtain rfl : next = stored := Option.some.inj (hnext.symm.trans hstored)
      exact hagree.touch hcontains now
    · obtain ⟨info, _, rfl⟩ := Option.map_eq_some_iff.mp hstored
      apply (hagree.install _ _ message).touch
      exact (contains_install _ _ _ _ _).2.mpr (Or.inl rfl)

theorem KeysAgree.update (hagree : net.KeysAgree) {now : ℤ} {result : Bool × AgentNet}
    (hupdate : net.update parse message now = some result) : result.2.KeysAgree := by
  obtain ⟨ip, port, heq⟩ := update_eq parse message now net
  rw [heq] at hupdate
  have hmoved : KeysAgree { net with wsserverIp := ip, wsserverPort := port } := hagree
  exact hmoved.accept hupdate

/-- The expired agents are disconnected one after the other. -/
theorem KeysAgree.disconnect (hagree : net.KeysAgree) {agents : List String}
    (hnodup : agents.Nodup)
    (hcontains : ∀ agent ∈ agents, net.foreignAgents.contains agent = true) :
    ∃ next, net.disconnect agents = some next ∧ next.KeysAgree := by
  induction agents generalizing net with
  | nil => exact ⟨net, rfl, hagree⟩
  | cons agent rest ih =>
      obtain ⟨hnew, hrest⟩ := List.nodup_cons.mp hnodup
      have hobserver := (hagree agent).trans (hcontains agent List.mem_cons_self)
      rw [AgentNet.disconnect, disactivateObserverTCP, if_pos hobserver, Option.bind_some]
      apply ih _ hrest
      · intro other hother
        refine (SortedMap.contains_erase _ _ _).mpr
          ⟨?_, hcontains other (List.mem_cons_of_mem _ hother)⟩
        rintro rfl
        exact hnew hother
      · intro other
        rw [Bool.eq_iff_iff, SortedMap.contains_erase]
        refine Iff.trans ?_ (SortedMap.contains_erase _ _ _).symm
        rw [hagree other]

theorem KeysAgree.checkExpired (hagree : net.KeysAgree) (clock : String → ℤ) :
    ∃ next, net.checkExpired clock = some next ∧ next.KeysAgree := by
  apply hagree.disconnect
  · exact (SortedMap.nodup_keys _).filter _
  · intro agent hagent
    rw [← SortedMap.mem_keys_iff_contains]
    exact (List.mem_filter.mp hagent).1

/-- A lookup keeps the keys in step exactly when it does not miss the own name. -/
theorem keysAgree_getAgent_iff (hagree : net.KeysAgree) (field default agentname : String)
    (now : ℤ) : (net.getAgent field default agentname now).2.KeysAgree ↔
      (agentname = net.agentname → net.foreignAgents.contains agentname = true) := by
  rw [getAgent]
  by_cases hfound : net.foreignAgents.contains agentname = true
  · have hsame : net.foreignAgents.insertNew agentname AgentInfo.blank = net.foreignAgents :=
      if_pos hfound
    rw [iff_true_right fun _ => hfound]
    split
    · intro other
      exact (hagree other).trans (congrArg (SortedMap.contains · other) hsame.symm)
    · exact hagree
  · have hstatus : net.checkAgentStatus agentname now = false := by
      have hnone : net.foreignAgents.find? agentname = none := by
        simpa [SortedMap.contains] using hfound
      rw [checkAgentStatus, hnone]
    rw [hstatus]
    by_cases hown : agentname = net.agentname
    · rw [if_pos (Or.inl hown)]
      apply iff_of_false
      · intro h
        have hobserver : net.tcpObservers.contains agentname =
            (net.foreignAgents.insertNew agentname AgentInfo.blank).contains agentname :=
          h agentname
        rw [hagree agentname, (SortedMap.contains_insertNew _ _ _ _).mpr (Or.inl rfl)] at hobserver
        exact hfound hobserver
      · exact fun h => hfound (h hown)
    · rw [if_neg (by simp [hown])]
      exact iff_of_true hagree fun h => absurd h hown

/-! ## Runs -/

variable (parse)

theorem keysAgree_call_iff (hagree : net.KeysAgree) (c : NetCall) :
    (∀ next, net.call parse c = some next → next.KeysAgree) ↔ net.OwnKnown c := by
  cases c with
  | update message now =>
      refine iff_of_true (fun next hnext => ?_) trivial
      obtain ⟨result, hresult, rfl⟩ := Option.map_eq_some_iff.mp hnext
      exact hagree.update hresult
  | checkExpired clock =>
      refine iff_of_true (fun next hnext => ?_) trivial
      obtain ⟨found, hfound, hagree⟩ := hagree.checkExpired clock
      rw [← Option.some.inj (hfound.symm.trans hnext)]
      exact hagree
  | getAgentIp agentname now =>
      refine Iff.trans ?_ (keysAgree_getAgent_iff hagree "ip" "127.0.0.1" agentname now)
      exact ⟨fun h => h _ rfl, fun h next hnext => Option.some.inj hnext ▸ h⟩
  | getAgentPort agentname now =>
      refine Iff.trans ?_ (keysAgree_getAgent_iff hagree "port" "8888" agentname now)
      exact ⟨fun h => h _ rfl, fun h next hnext => Option.some.inj hnext ▸ h⟩
  | retrieveInfoOf agent =>
      exact iff_of_true (fun next hnext => Option.some.inj hnext ▸ hagree) trivial
  | retrieveInfo =>
      exact iff_of_true (fun next hnext => Option.some.inj hnext ▸ hagree) trivial
  | subjectsUpdate exported imported ip =>
      exact iff_of_true (fun next hnext => Option.some.inj hnext ▸ hagree) trivial
  | subjectDateUpdate now =>
      exact iff_of_true (fun next hnext => Option.some.inj hnext ▸ hagree) trivial

theorem KeysAgree.findsObservers (hagree : net.KeysAgree) (c : NetCall) :
    net.FindsObservers c := by
  cases c with
  | update message now =>
      intro _ hcontains
      obtain ⟨next, hnext, _⟩ := hagree.change hcontains message
      rw [hnext]
      exact Option.some_ne_none next
  | checkExpired clock =>
      obtain ⟨next, hnext, _⟩ := hagree.checkExpired clock
      rw [FindsObservers, hnext]
      exact Option.some_ne_none next
  | _ => trivial

/-- Throughout a run the observers are those of the table, and every observer that is
taken down is there, exactly when no lookup of the own name finds it missing. -/
theorem keysAgree_iff (conf : Conf) (ip : String) (calls : List NetCall) :
    (Machine.Always (call parse) KeysAgree (init conf ip) calls ∧
        Machine.Along (call parse) FindsObservers (init conf ip) calls) ↔
      Machine.Along (call parse) OwnKnown (init conf ip) calls := by
  have hiff : Machine.Always (call parse) KeysAgree (init conf ip) calls ↔
      Machine.Along (call parse) OwnKnown (init conf ip) calls := by
    apply Machine.always_iff_along (I := fun _ => True)
    · intros
      trivial
    · intro net c _ hagree
      exact keysAgree_call_iff parse hagree c
    · trivial
    · exact fun _ => rfl
  refine ⟨fun h => hiff.mp h.1, fun h => ⟨hiff.mpr h, ?_⟩⟩
  refine Machine.Along.imp_of_guarded (I := KeysAgree) (C := OwnKnown) ?_ ?_ (fun _ => rfl) h
  · exact fun net c hagree _ => hagree.findsObservers c
  · exact fun net c next hagree hown hnext =>
      (keysAgree_call_iff parse hagree c).mpr hown next hnext

/-- What a newly started agent knows. -/
def newAgent : Conf :=
  ⟨"alarm", "8086", 180, ["door.event", "window.event"], [], SortedMap.empty,
    SortedMap.empty, 0⟩

/-- A lookup of the own name is followed by the check of expired agents. -/
theorem not_keysAgree_ownLookup :
    ¬(Machine.Always (call fun _ => []) KeysAgree (init newAgent "10.0.0.1")
          [.getAgentIp "alarm" 1000, .checkExpired fun _ => 1030] ∧
        Machine.Along (call fun _ => []) FindsObservers (init newAgent "10.0.0.1")
          [.getAgentIp "alarm" 1000, .checkExpired fun _ => 1030]) := by
  rintro ⟨⟨hagree, hrest⟩, _⟩
  have hlookup := (hrest _ rfl).1
  have hown := (keysAgree_getAgent_iff hagree "ip" "127.0.0.1" "alarm" 1000).mp hlookup
  exact absurd (hown rfl) (by decide)

end Hat.AgentNet
