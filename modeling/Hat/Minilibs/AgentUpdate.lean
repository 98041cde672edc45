import Hat.Minilibs.AgentObservers

/-!
# Announcements and what is stored of them

The first announcement of an agent stores its events, address and port, and builds its
observer.  A later one may change the address only: the branch for other events looks at
a field of another name.  The module determines after which announcements the entry, the
file and the observer agree with what was announced.
-/

namespace Hat.AgentNet

/-- The observer that is built from these values. -/
def observerOf (agent address port : String) (events : List String) : ObserverTCP :=
  let desc := descriptor agent address port events
  ⟨agent, desc.attributes, desc.attributes.filter fun attr => attr.category = "observe"⟩

/-- The file and the observer are those of the announcement. -/
structure Built (message : MMessage) (net : AgentNet) : Prop where
  file : net.home.find? (message.getString "agentname" ++ ".xml") =
    some (message.getString "agentname",
      (descriptor (message.getString "agentname") (message.getString "ip")
        (message.getString "port")
        (evFilter net.mysubjects (message.getList "observe"))).attributes)
  observer : net.tcpObservers.find? (message.getString "agentname") =
    some (observerOf (message.getString "agentname") (message.getString "ip")
      (message.getString "port") (evFilter net.mysubjects (message.getList "observe")))

/-- The entry, the file and the observer of the agent hold what it has announced. -/
structure Follows (message : MMessage) (net : AgentNet) : Prop where
  observe : (net.infoOf (message.getString "agentname")).getList "observe" =
    evFilter net.mysubjects (message.getList "observe")
  ip : (net.infoOf (message.getString "agentname")).getString "ip" = message.getString "ip"
  port : (net.infoOf (message.getString "agentname")).getString "port" = message.getString "port"
  built : net.Built message

variable (parse : String → List XmlNode)

/-- The address of the entry is to be changed. -/
abbrev Moved (message : MMessage) (info : AgentInfo) : Prop :=
  message.getString "ip" ≠ info.getString "ip"

/-- The observer is to be rebuilt for other reasons. -/
abbrev Outdated (message : MMessage) (info : AgentInfo) (net : AgentNet) : Prop :=
  info.getList "events" ≠ message.getList "events" ∨ net.lastSubjectUpdate > info.timestamp

/-- A new agent, of whose announcement nothing is read back as text; or a known one that
announces the stored events and port, and whose observer is rebuilt or holds them already. -/
def Ready (message : MMessage) (net : AgentNet) : Prop :=
  match net.foreignAgents.find? (message.getString "agentname") with
  | none => ∀ info, AgentInfo.ofXml parse (message.xmlEncode 0) = some info →
      info.TakesList "observe" ∧ info.Takes "ip" (message.getString "ip") ∧
        info.Takes "port" (message.getString "port")
  | some info =>
      (info.getList "observe" = evFilter net.mysubjects (message.getList "observe") ∧
        info.getString "port" = message.getString "port") ∧
      (Moved message info → info.Takes "ip" (message.getString "ip")) ∧
      (Moved message info ∨ Outdated message info net ∨ net.Built message)

/-- The announcement is accepted and defined: it observes a subject, and an observer that
has to be taken down is there. -/
def Accepts (message : MMessage) (net : AgentNet) : Prop :=
  evFilter net.mysubjects (message.getList "observe") ≠ [] ∧
    ∀ info, net.foreignAgents.find? (message.getString "agentname") = some info →
      Moved message info ∨ Outdated message info net →
        net.tcpObservers.contains (message.getString "agentname") = true

variable {parse} {net next : AgentNet} {agent : String} {info : AgentInfo} {message : MMessage}

theorem ty_foldl_addCategory (events : List String) (desc : MParams) :
    (events.foldl (fun desc event =>
      desc.addCategory (split event).2 "observe" (split event).1) desc).ty = desc.ty := by
  induction events generalizing desc with
  | nil => rfl
  | cons event rest ih => exact ih _

theorem ty_add (desc : MParams) (name value : String) : (desc.add name value).ty = desc.ty := by
  unfold MParams.add
  split <;> rfl

theorem ty_descriptor (agent address port : String) (events : List String) :
    (descriptor agent address port events).ty = agent := by
  simp only [descriptor, ty_foldl_addCategory, ty_add]

theorem home_mkTcpObserverXML (message : MMessage) (net : AgentNet) :
    (net.mkTcpObserverXML message).home.find? (message.getString "agentname" ++ ".xml") =
      some (message.getString "agentname",
        (descriptor (message.getString "agentname") (message.getString "ip")
          (message.getString "port")
          (evFilter net.mysubjects (message.getList "observe"))).attributes) := by
  refine (SortedMap.find?_insert_self _ _ _).trans ?_
  rw [ty_descriptor]

/-- The observer is loaded from the file that has just been written. -/
theorem new_mkTcpObserverXML (message : MMessage) (net : AgentNet) :
    ObserverTCP.new net.config (net.mkTcpObserverXML message).home
        (message.getString "agentname") =
      observerOf (message.getString "agentname") (message.getString "ip")
        (message.getString "port") (evFilter net.mysubjects (message.getList "observe")) := by
  simp only [ObserverTCP.new, home_mkTcpObserverXML, MParams.load]
  rfl

theorem built_install (hfree : net.tcpObservers.contains (message.getString "agentname") = false)
    (info : AgentInfo) :
    (net.install (message.getString "agentname") info message).Built message := by
  constructor
  · exact home_mkTcpObserverXML message net
  · rw [tcpObservers_install, SortedMap.find?_insertNew, if_pos ⟨rfl, hfree⟩]
    exact congrArg some (new_mkTcpObserverXML message net)

theorem infoOf_install (agent : String) (info : AgentInfo) (message : MMessage) (net : AgentNet) :
    (net.install agent info message).infoOf agent = info := by
  rw [infoOf, foreignAgents_install, SortedMap.find?_insert_self, Option.getD_some]

theorem built_congr (hhome : net.home = next.home)
    (hobservers : net.tcpObservers = next.tcpObservers)
    (hsubjects : net.mysubjects = next.mysubjects) :
    net.Built message ↔ next.Built message := by
  constructor
  · rintro ⟨hfile, hobserver⟩
    rw [hhome, hsubjects] at hfile
    rw [hobservers, hsubjects] at hobserver
    exact ⟨hfile, hobserver⟩
  · rintro ⟨hfile, hobserver⟩
    rw [← hhome, ← hsubjects] at hfile
    rw [← hobservers, ← hsubjects] at hobserver
    exact ⟨hfile, hobserver⟩

/-- What a conditional rebuilding leaves. -/
theorem rebuild_if {c : Prop} [Decidable c]
    (h : (if c then net.rebuild (message.getString "agentname") info message
      else some net) = some next) :
    (next.mysubjects = net.mysubjects ∧ next.lastSubjectUpdate = net.lastSubjectUpdate) ∧
      next.infoOf (message.getString "agentname") =
        (if c then info else net.infoOf (message.getString "agentname")) ∧
      (next.Built message ↔ c ∨ net.Built message) := by
  by_cases hc : c
  · rw [if_pos hc] at h
    obtain ⟨_, rfl⟩ := (rebuild_eq_some_iff _ _ _ _).mp h
    refine ⟨⟨rfl, rfl⟩, ?_, ?_⟩
    · rw [infoOf_install, if_pos hc]
    · rw [iff_true_right (Or.inl hc)]
      apply built_install
      simp [SortedMap.contains, SortedMap.find?_erase]
  · rw [if_neg hc] at h
    obtain rfl := Option.some.inj h
    refine ⟨⟨rfl, rfl⟩, (if_neg hc).symm, ?_⟩
    rw [or_iff_right hc]

/-- A conditional change of the address leaves the other fields alone. -/
theorem fields_movedInfo (c : Prop) [Decidable c] (value : String) (info : AgentInfo) :
    (∀ field, "ip" ≠ field →
        (if c then info.add "ip" value else info).getList field = info.getList field ∧
          (if c then info.add "ip" value else info).getString field = info.getString field) ∧
      (if c then info.add "ip" value else info).timestamp = info.timestamp := by
  split
  · refine ⟨fun field hne => ⟨?_, ?_⟩, rfl⟩
    · exact MMessage.getList_add_of_ne value info.toMMessage hne
    · exact MMessage.getString_add_of_ne value info.toMMessage hne
  · exact ⟨fun _ _ => ⟨rfl, rfl⟩, rfl⟩

theorem fields_changedInfo (c : Prop) [Decidable c] (events : List String) (info : AgentInfo) :
    ∀ field, "events" ≠ field →
      (if c then info.addList "events" events else info).getList field = info.getList field ∧
        (if c then info.addList "events" events else info).getString field =
          info.getString field := by
  split
  · intro field hne
    exact ⟨MMessage.getList_addList_of_ne events info.toMMessage hne,
      MMessage.getString_addList_of_ne events info.toMMessage hne⟩
  · exact fun _ _ => ⟨rfl, rfl⟩

/-- The address is the announced one after a change that the entry takes. -/
theorem getString_movedInfo_iff (message : MMessage) (info : AgentInfo) :
    (if Moved message info then info.add "ip" (message.getString "ip") else info).getString "ip" =
        message.getString "ip" ↔
      (Moved message info → info.Takes "ip" (message.getString "ip")) := by
  by_cases hmoved : Moved message info
  · rw [if_pos hmoved, forall_prop_of_true hmoved]
    exact MMessage.getString_add_iff "ip" (message.getString "ip") info.toMMessage
  · rw [if_neg hmoved]
    exact iff_of_true (not_ne_iff.mp hmoved).symm fun h => absurd h hmoved

theorem follows_iff : net.Follows message ↔
    ((net.infoOf (message.getString "agentname")).getList "observe" =
          evFilter net.mysubjects (message.getList "observe") ∧
        (net.infoOf (message.getString "agentname")).getString "port" =
          message.getString "port") ∧
      (net.infoOf (message.getString "agentname")).getString "ip" = message.getString "ip" ∧
      net.Built message :=
  ⟨fun h => ⟨⟨h.observe, h.port⟩, h.ip, h.built⟩, fun ⟨⟨ho, hp⟩, hi, hb⟩ => ⟨ho, hi, hp, hb⟩⟩

theorem follows_change_iff
    (hinfo : net.foreignAgents.find? (message.getString "agentname") = some info)
    (hchange : net.change (message.getString "agentname") message = some next) :
    next.Follows message ↔ net.Ready parse message := by
  have hof : net.infoOf (message.getString "agentname") = info := by
    rw [infoOf, hinfo, Option.getD_some]
  rw [change, hof] at hchange
  obtain ⟨moved, hmoved, hchanged⟩ := Option.bind_eq_some_iff.mp hchange
  obtain ⟨⟨hsubjects, hlast⟩, hmovedInfo, hmovedBuilt⟩ := rebuild_if hmoved
  obtain ⟨⟨hsubjects', _⟩, hnextInfo, hnextBuilt⟩ := rebuild_if hchanged
  rw [hof] at hmovedInfo
  obtain ⟨hfields, htimestamp⟩ := fields_movedInfo
    (message.getString "ip" ≠ info.getString "ip") (message.getString "ip") info
  rw [hmovedInfo, (hfields "events" (by decide)).1, htimestamp, hlast] at hnextInfo hnextBuilt
  have hlater := fields_changedInfo (info.getList "events" ≠ message.getList "events" ∨
    net.lastSubjectUpdate > info.timestamp) (message.getList "events")
    (if message.getString "ip" ≠ info.getString "ip" then info.add "ip" (message.getString "ip")
      else info)
  rw [follows_iff, Ready, hinfo]
  simp only [hnextInfo, (hlater "observe" (by decide)).1, (hlater "port" (by decide)).2,
    (hlater "ip" (by decide)).2, (hfields "observe" (by decide)).1,
    (hfields "port" (by decide)).2, hsubjects', hsubjects, hnextBuilt, hmovedBuilt]
  apply and_congr_right
  intro _
  apply and_congr
  · exact getString_movedInfo_iff message info
  · exact or_left_comm

/-- What the first announcement adds is read back where the message takes it. -/
theorem fields_connected (info : MMessage) (agent ip port : String) {ev : List String}
    (hev : ev ≠ []) :
    let stored := (((info.add "agentname" agent).add "ip" ip).add "port" port).addList "observe" ev
    (stored.getList "observe" = ev ↔ info.TakesList "observe") ∧
      (stored.getString "port" = port ↔ info.Takes "port" port) ∧
      (stored.getString "ip" = ip ↔ info.Takes "ip" ip) := by
  refine ⟨?_, ?_, ?_⟩
  · rw [MMessage.getList_addList_iff hev, MMessage.takesList_add_of_ne _ _ (by decide),
      MMessage.takesList_add_of_ne _ _ (by decide), MMessage.takesList_add_of_ne _ _ (by decide)]
  · rw [MMessage.getString_addList_of_ne _ _ (by decide), MMessage.getString_add_iff,
      MMessage.takes_add_of_ne _ _ _ (by decide), MMessage.takes_add_of_ne _ _ _ (by decide)]
  · rw [MMessage.getString_addList_of_ne _ _ (by decide),
      MMessage.getString_add_of_ne _ _ (by decide), MMessage.getString_add_iff,
      MMessage.takes_add_of_ne _ _ _ (by decide)]

theorem follows_connect_iff (hinfo : net.foreignAgents.find? (message.getString "agentname") = none)
    (hfree : net.tcpObservers.contains (message.getString "agentname") = false)
    (hev : evFilter net.mysubjects (message.getList "observe") ≠ [])
    (hconnect : net.connect parse (message.getString "agentname")
      (evFilter net.mysubjects (message.getList "observe")) message = some next) :
    next.Follows message ↔ net.Ready parse message := by
  obtain ⟨info, htext, rfl⟩ := Option.map_eq_some_iff.mp hconnect
  obtain ⟨hobserve, hport, hip⟩ := fields_connected info.toMMessage
    (message.getString "agentname") (message.getString "ip") (message.getString "port") hev
  have hready : net.Ready parse message ↔
      info.TakesList "observe" ∧ info.Takes "ip" (message.getString "ip") ∧
        info.Takes "port" (message.getString "port") := by
    simp only [Ready, hinfo, htext, Option.some.injEq, forall_eq']
  rw [follows_iff, infoOf_install, and_iff_left (built_install hfree _), hready, ← hobserve,
    ← hport, ← hip]
  exact ⟨fun ⟨⟨ho, hp⟩, hi⟩ => ⟨ho, hi, hp⟩, fun ⟨ho, hi, hp⟩ => ⟨⟨ho, hp⟩, hi⟩⟩

theorem follows_touch (now : ℤ) : (net.touch (message.getString "agentname") now).Follows message ↔
    net.Follows message := by
  have hof : (net.touch (message.getString "agentname") now).infoOf
      (message.getString "agentname") =
        { net.infoOf (message.getString "agentname") with timestamp := now } := by
    rw [touch, setInfo, infoOf, SortedMap.find?_insert_self, Option.getD_some]
  have hbuilt : (net.touch (message.getString "agentname") now).Built message ↔
      net.Built message := built_congr rfl rfl rfl
  rw [follows_iff, follows_iff, hof, hbuilt]
  rfl

theorem tcpObservers_rebuild (h : net.rebuild agent info message = some next) :
    next.tcpObservers.contains agent = true := by
  obtain ⟨_, rfl⟩ := (rebuild_eq_some_iff _ _ _ _).mp h
  exact (contains_install _ _ _ _ agent).1.mpr (Or.inl rfl)

theorem rebuild_of_contains (hcontains : net.tcpObservers.contains agent = true)
    (info : AgentInfo) (message : MMessage) : ∃ next, net.rebuild agent info message = some next :=
  ⟨_, (rebuild_eq_some_iff _ _ _ _).mpr ⟨hcontains, rfl⟩⟩

/-- A change finds the observers that it takes down, where the agent has one. -/
theorem change_of_observer
    (hinfo : net.foreignAgents.find? (message.getString "agentname") = some info)
    (hobserver : Moved message info ∨ Outdated message info net →
      net.tcpObservers.contains (message.getString "agentname") = true) :
    ∃ next, net.change (message.getString "agentname") message = some next := by
  have hof : net.infoOf (message.getString "agentname") = info := by
    rw [infoOf, hinfo, Option.getD_some]
  rw [change, hof]
  by_cases hmoved : Moved message info
  · obtain ⟨moved, hrebuild⟩ := rebuild_of_contains (hobserver (Or.inl hmoved))
      (info.add "ip" (message.getString "ip")) message
    rw [if_pos hmoved, hrebuild, Option.bind_some]
    split
    · exact rebuild_of_contains (tcpObservers_rebuild hrebuild) _ _
    · exact ⟨moved, rfl⟩
  · rw [if_neg hmoved, Option.bind_some, hof]
    split
    · rename_i houtdated
      exact rebuild_of_contains (hobserver (Or.inr houtdated)) _ _
    · exact ⟨net, rfl⟩

theorem observer_of_change
    (hinfo : net.foreignAgents.find? (message.getString "agentname") = some info)
    (hchange : net.change (message.getString "agentname") message = some next)
    (h : Moved message info ∨ Outdated message info net) :
    net.tcpObservers.contains (message.getString "agentname") = true := by
  have hof : net.infoOf (message.getString "agentname") = info := by
    rw [infoOf, hinfo, Option.getD_some]
  rw [change, hof] at hchange
  obtain ⟨moved, hmoved, hchanged⟩ := Option.bind_eq_some_iff.mp hchange
  by_cases hcase : Moved message info
  · rw [if_pos hcase] at hmoved
    exact ((rebuild_eq_some_iff _ _ _ _).mp hmoved).1
  · rw [if_neg hcase] at hmoved
    obtain rfl := Option.some.inj hmoved
    rw [hof, if_pos (h.resolve_left hcase)] at hchanged
    exact ((rebuild_eq_some_iff _ _ _ _).mp hchanged).1

/-- An announcement that observes a subject is accepted once it has been stored. -/
theorem accept_true_iff (hev : evFilter net.mysubjects (message.getList "observe") ≠ [])
    (now : ℤ) : net.accept parse message now = some (true, next) ↔
      ∃ stored, (if net.foreignAgents.contains (message.getString "agentname") then
          net.change (message.getString "agentname") message
        else net.connect parse (message.getString "agentname")
          (evFilter net.mysubjects (message.getList "observe")) message) = some stored ∧
        stored.touch (message.getString "agentname") now = next := by
  simp [accept, hev]

theorem follows_accept_iff_of_known
    (hinfo : net.foreignAgents.find? (message.getString "agentname") = some info)
    (hev : evFilter net.mysubjects (message.getList "observe") ≠ []) (now : ℤ) :
    (∀ next, net.accept parse message now = some (true, next) → next.Follows message) ↔
      (net.Accepts message → net.Ready parse message) := by
  have hcontains : net.foreignAgents.contains (message.getString "agentname") = true :=
    SortedMap.contains_iff.mpr ⟨info, hinfo⟩
  simp only [accept_true_iff hev, hcontains, if_true]
  constructor
  · intro h haccepts
    obtain ⟨stored, hstored⟩ := change_of_observer hinfo (haccepts.2 info hinfo)
    rw [← follows_change_iff hinfo hstored, ← follows_touch now]
    exact h _ ⟨stored, hstored, rfl⟩
  · rintro h next ⟨stored, hstored, rfl⟩
    rw [follows_touch, follows_change_iff hinfo hstored]
    apply h
    refine ⟨hev, fun other hother => ?_⟩
    obtain rfl : info = other := Option.some.inj (hinfo.symm.trans hother)
    exact observer_of_change hinfo hstored

theorem follows_accept_iff_of_new
    (hinfo : net.foreignAgents.find? (message.getString "agentname") = none)
    (hfree : net.tcpObservers.contains (message.getString "agentname") = false)
    (hev : evFilter net.mysubjects (message.getList "observe") ≠ []) (now : ℤ) :
    (∀ next, net.accept parse message now = some (true, next) → next.Follows message) ↔
      (net.Accepts message → net.Ready parse message) := by
  have hmissing : ¬net.foreignAgents.contains (message.getString "agentname") = true := by
    simp [SortedMap.contains, hinfo]
  simp only [accept_true_iff hev, hmissing, Bool.false_eq_true, if_false]
  constructor
  · intro h _
    -- Without an element in the text nothing is stored, and nothing is asked for.
    cases htext : AgentInfo.ofXml parse (message.xmlEncode 0) with
    | none =>
        rw [Ready, hinfo]
        intro info hinfo
        exact absurd (htext.symm.trans hinfo).symm (Option.some_ne_none info)
    | some info =>
        obtain ⟨stored, hconnect⟩ : ∃ stored, net.connect parse
            (message.getString "agentname")
            (evFilter net.mysubjects (message.getList "observe")) message = some stored := by
          rw [connect, htext]
          exact ⟨_, rfl⟩
        rw [← follows_connect_iff hinfo hfree hev hconnect, ← follows_touch now]
        exact h _ ⟨_, hconnect, rfl⟩
  · rintro h next ⟨stored, hstored, rfl⟩
    rw [follows_touch, follows_connect_iff hinfo hfree hev hstored]
    apply h
    refine ⟨hev, fun info hsome => ?_⟩
    rw [hinfo] at hsome
    exact absurd hsome.symm (Option.some_ne_none info)

/-- Every accepted announcement is followed exactly when the agent is ready for it. -/
theorem follows_accept_iff (net : AgentNet) (message : MMessage)
    (hkeys : ∀ agent, net.tcpObservers.contains agent = true →
      net.foreignAgents.contains agent = true) (now : ℤ) :
    (∀ next, net.accept parse message now = some (true, next) → next.Follows message) ↔
      (net.Accepts message → net.Ready parse message) := by
  by_cases hev : evFilter net.mysubjects (message.getList "observe") = []
  · apply iff_of_true
    · intro next haccept
      rw [accept, if_pos hev] at haccept
      exact absurd (Option.some.inj haccept) (by simp)
    · exact fun h => absurd hev h.1
  · cases hinfo : net.foreignAgents.find? (message.getString "agentname") with
    | some info => exact follows_accept_iff_of_known hinfo hev now
    | none =>
        have hfree : net.tcpObservers.contains (message.getString "agentname") = false := by
          rw [← Bool.not_eq_true]
          intro hobserver
          have hcontains := hkeys _ hobserver
          rw [SortedMap.contains, hinfo] at hcontains
          exact absurd hcontains Bool.false_ne_true
        exact follows_accept_iff_of_new hinfo hfree hev now

theorem follows_update_iff (hkeys : ∀ agent, net.tcpObservers.contains agent = true →
      net.foreignAgents.contains agent = true) (now : ℤ) :
    (∀ next, net.update parse message now = some (true, next) → next.Follows message) ↔
      (net.Accepts message → net.Ready parse message) := by
  obtain ⟨ip, port, heq⟩ := update_eq parse message now net
  have hready : ({ net with wsserverIp := ip, wsserverPort := port } : AgentNet).Ready parse
      message ↔ net.Ready parse message := by
    have hbuilt : ({ net with wsserverIp := ip, wsserverPort := port } : AgentNet).Built message ↔
        net.Built message := built_congr rfl rfl rfl
    simp only [Ready, Outdated, hbuilt]
  rw [heq, ← hready]
  exact follows_accept_iff { net with wsserverIp := ip, wsserverPort := port } message hkeys now

/-! ## Runs -/

/-- Every agent with an observer is in the table. -/
def ObserversKnown (net : AgentNet) : Prop :=
  ∀ agent, net.tcpObservers.contains agent = true → net.foreignAgents.contains agent = true

theorem ObserversKnown.install (hknown : net.ObserversKnown) (agent : String) (info : AgentInfo)
    (message : MMessage) : (net.install agent info message).ObserversKnown := by
  intro other hother
  have hother := (contains_install net agent info message other).1.mp hother
  exact (contains_install net agent info message other).2.mpr (hother.imp_right (hknown other))

theorem ObserversKnown.rebuild_if (hknown : net.ObserversKnown) {c : Prop} [Decidable c]
    (h : (if c then net.rebuild agent info message else some net) = some next) :
    next.ObserversKnown := by
  split at h
  · obtain ⟨_, rfl⟩ := (rebuild_eq_some_iff _ _ _ _).mp h
    apply ObserversKnown.install
    exact fun other hother => hknown other ((SortedMap.contains_erase _ _ _).mp hother).2
  · obtain rfl := Option.some.inj h
    exact hknown

theorem ObserversKnown.touch (hknown : net.ObserversKnown) (agent : String) (now : ℤ) :
    (net.touch agent now).ObserversKnown :=
  fun other hother => (SortedMap.contains_insert _ _ _ _).mpr (Or.inr (hknown other hother))

theorem ObserversKnown.accept (hknown : net.ObserversKnown) {now : ℤ}
    {result : Bool × AgentNet} (haccept : net.accept parse message now = some result) :
    result.2.ObserversKnown := by
  simp only [AgentNet.accept] at haccept
  split at haccept
  · rw [← Option.some.inj haccept]
    exact hknown
  · obtain ⟨stored, hstored, rfl⟩ := Option.map_eq_some_iff.mp haccept
    apply ObserversKnown.touch
    split at hstored
    · obtain ⟨moved, hmoved, hchanged⟩ := Option.bind_eq_some_iff.mp hstored
      exact (hknown.rebuild_if hmoved).rebuild_if hchanged
    · obtain ⟨info, _, rfl⟩ := Option.map_eq_some_iff.mp hstored
      exact hknown.install _ _ message

theorem ObserversKnown.disconnect (hknown : net.ObserversKnown) {agents : List String}
    (hdisconnect : net.disconnect agents = some next) : next.ObserversKnown := by
  induction agents generalizing net with
  | nil => exact Option.some.inj hdisconnect ▸ hknown
  | cons agent rest ih =>
      obtain ⟨without, hwithout, hrest⟩ := Option.bind_eq_some_iff.mp hdisconnect
      rw [disactivateObserverTCP] at hwithout
      split at hwithout
      · obtain rfl := Option.some.inj hwithout
        apply ih _ hrest
        intro other hother
        obtain ⟨hne, hother⟩ := (SortedMap.contains_erase _ _ _).mp hother
        exact (SortedMap.contains_erase _ _ _).mpr ⟨hne, hknown other hother⟩
      · exact absurd hwithout.symm (Option.some_ne_none without)

theorem ObserversKnown.getAgent (hknown : net.ObserversKnown) (field default agentname : String)
    (now : ℤ) : (net.getAgent field default agentname now).2.ObserversKnown := by
  rw [AgentNet.getAgent]
  split
  · intro other hother
    exact (SortedMap.contains_insertNew _ _ _ _).mpr (Or.inr (hknown other hother))
  · exact hknown

variable (parse)

theorem ObserversKnown.call (hknown : net.ObserversKnown) (c : NetCall)
    (hcall : net.call parse c = some next) : next.ObserversKnown := by
  cases c with
  | update message now =>
      obtain ⟨result, hresult, rfl⟩ := Option.map_eq_some_iff.mp hcall
      obtain ⟨ip, port, heq⟩ := update_eq parse message now net
      rw [heq] at hresult
      have hserver : ObserversKnown { net with wsserverIp := ip, wsserverPort := port } := hknown
      exact hserver.accept hresult
  | checkExpired clock => exact hknown.disconnect hcall
  | getAgentIp agentname now => exact Option.some.inj hcall ▸ hknown.getAgent _ _ agentname now
  | getAgentPort agentname now => exact Option.some.inj hcall ▸ hknown.getAgent _ _ agentname now
  | retrieveInfoOf agent => exact Option.some.inj hcall ▸ hknown
  | retrieveInfo => exact Option.some.inj hcall ▸ hknown
  | subjectsUpdate exported imported ip => exact Option.some.inj hcall ▸ hknown
  | subjectDateUpdate now => exact Option.some.inj hcall ▸ hknown

/-- After an announcement that is accepted, what has been announced is stored and built. -/
def FollowsAnnouncement (net : AgentNet) : NetCall → Prop
  | .update message now =>
      ∀ next, net.update parse message now = some (true, next) → next.Follows message
  | _ => True

def ReadyForAnnouncement (net : AgentNet) : NetCall → Prop
  | .update message _ => net.Accepts message → net.Ready parse message
  | _ => True

/-- In every run the accepted announcements are followed exactly when the agent is ready
for each of them. -/
theorem followsAnnouncement_iff (conf : Conf) (ip : String) (calls : List NetCall) :
    Machine.Along (call parse) (FollowsAnnouncement parse) (init conf ip) calls ↔
      Machine.Along (call parse) (ReadyForAnnouncement parse) (init conf ip) calls := by
  apply Machine.along_iff_of_guarded (I := ObserversKnown)
  · intro net c hknown
    cases c with
    | update message now => exact follows_update_iff hknown now
    | _ => exact Iff.rfl
  · intro net c next hknown _ hcall
    exact hknown.call parse c hcall
  · exact fun agent hagent => absurd hagent Bool.false_ne_true

def announcement (event : String) : MMessage :=
  (((MMessage.mk2 "*" "*").add "agentname" "panel").add "ip" "10.0.0.2").add "port" "8087"
    |>.addList "observe" [event]

/-- What the reader makes of the first announcement, written without a declaration. -/
def readAnnouncement (text : String) : List XmlNode :=
  if text = (announcement "door.event").xmlEncode 0 then [(announcement "door.event").node]
  else []

/-- The panel asks for the door first and for the window then. -/
theorem not_followsAnnouncement_otherEvent :
    ¬Machine.Along (call readAnnouncement) (FollowsAnnouncement readAnnouncement)
      (init newAgent "10.0.0.1")
      [.update (announcement "door.event") 1000, .update (announcement "window.event") 1010] := by
  rintro ⟨_, hrest⟩
  have hrun : (((init newAgent "10.0.0.1").call readAnnouncement
      (.update (announcement "door.event") 1000)).bind fun net =>
        (net.update readAnnouncement (announcement "window.event") 1010).map fun result =>
          (net, result)).map (fun run => (run.2.1, (run.2.2.infoOf "panel").getList "observe",
            evFilter run.2.2.mysubjects ["window.event"])) =
      some (true, ["door.event"], ["window.event"]) := by
    decide +kernel
  obtain ⟨⟨net, accepted, next⟩, hnext, hvalues⟩ := Option.map_eq_some_iff.mp hrun
  obtain ⟨net', hnet, hupdate⟩ := Option.bind_eq_some_iff.mp hnext
  obtain ⟨result, hresult, hpair⟩ := Option.map_eq_some_iff.mp hupdate
  obtain ⟨rfl, rfl⟩ := Prod.mk.inj hpair
  obtain ⟨rfl, hvalues⟩ := Prod.mk.inj hvalues
  obtain ⟨hstored, hannounced⟩ := Prod.mk.inj hvalues
  have hfollows := ((hrest net' hnet).1 next hresult).observe
  have hsame : ["door.event"] = ["window.event"] := hstored.symm.trans (hfollows.trans hannounced)
  exact absurd hsame (by decide)

end Hat.AgentNet
