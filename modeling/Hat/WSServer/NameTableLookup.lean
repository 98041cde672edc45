import Hat.Core.Machine
import Hat.WSServer.NameTable

/-!
# Where an agent is reached

Messages are sent where the lookup points, and an agent is described by its first descriptor.
A run of announcements is followed with the endpoint that each agent announced last, and
both are compared with it in every state.
-/

namespace Hat

open NameTable

/-- The table, and for every agent the endpoint that it announced last. -/
structure Registry where
  table : NameTable
  latest : SortedMap String (String × String)

namespace Registry

def start : Registry := ⟨NameTable.empty, SortedMap.empty⟩

/-- The pages that are asked for can be fetched. -/
def Fetched (registry : Registry) (announcement : Announcement) : Prop :=
  Refreshes announcement.message registry.table →
    ¬ Fails announcement.pages "/subjects/imported" announcement.id ∧
      ¬ Fails announcement.pages "/subjects/exported" announcement.id

instance (registry : Registry) (announcement : Announcement) :
    Decidable (registry.Fetched announcement) :=
  inferInstanceAs (Decidable (_ → _))

/-- A run stops at a page that cannot be fetched. -/
def announce (registry : Registry) (announcement : Announcement) : Option Registry :=
  let table := (registry.table.update announcement.pages announcement.message).2
  if Active announcement.message then
    if registry.Fetched announcement then
      some ⟨table, registry.latest.insert announcement.id.name announcement.id.endpoint⟩
    else none
  else some ⟨table, registry.latest⟩

/-- The endpoint in the description of an agent. -/
def described (name : String) (table : NameTable) : String × String :=
  ((table.getAgentDescription name).getString "port",
    (table.getAgentDescription name).getString "address")

/-- Messages are sent to the endpoint announced last, and the description has it. -/
def Agrees (registry : Registry) : Prop :=
  ∀ name target, registry.latest.find? name = some target →
    registry.table.rpcTarget name = some target ∧ described name registry.table = target

/-- The agent is where it was when it announced itself before. -/
def Unmoved (registry : Registry) (announcement : Announcement) : Prop :=
  ∀ target, registry.latest.find? announcement.id.name = some target →
    target = announcement.id.endpoint

/-- The last one of the later agents that list the name of an agent as a device is at that
agent's own endpoint. -/
def Unusurped (pages : AgentPages) (agents : List AgentId) : Prop :=
  ∀ front other rest, agents = front ++ other :: rest → ∀ ag ∈ front,
    ag.name ∈ listed pages other → (∀ later ∈ rest, ag.name ∉ listed pages later) →
      other.endpoint = ag.endpoint

/-- No agent moves, and when the table is made no agent lists another one. -/
def Settled (registry : Registry) (announcement : Announcement) : Prop :=
  Active announcement.message → registry.Fetched announcement →
    registry.Unmoved announcement ∧
      (Refreshes announcement.message registry.table →
        Unusurped announcement.pages
          (registry.table.addifnew (AgentDesc.ofMessage announcement.message)).ids)

theorem described_eq (name : String) (table : NameTable) :
    described name table =
      ((table.ids.find? fun ag => ag.name = name).map AgentId.endpoint).getD ("", "") := by
  rw [ids, List.find?_map]
  cases hfind : table.agent.find? fun desc => desc.name = name with
  | none =>
      have hcomp : table.agent.find? ((fun ag : AgentId => decide (ag.name = name)) ∘
          AgentDesc.toAgentId) = none := hfind
      rw [hcomp, described, getAgentDescription, hfind]
      rfl
  | some desc =>
      have hcomp : table.agent.find? ((fun ag : AgentId => decide (ag.name = name)) ∘
          AgentDesc.toAgentId) = some desc := hfind
      rw [hcomp, described, getAgentDescription, hfind]
      simp only [getString_port_description, getString_address_description]
      rfl

theorem find?_of_nodup {agents : List AgentId} (hnames : (agents.map AgentId.name).Nodup)
    {ag : AgentId} (hag : ag ∈ agents) :
    (agents.find? fun other => other.name = ag.name) = some ag := by
  induction agents with
  | nil => exact absurd hag List.not_mem_nil
  | cons head rest ih =>
      rw [List.map_cons, List.nodup_cons] at hnames
      rcases List.mem_cons.mp hag with rfl | hrest
      · rw [List.find?_cons_of_pos (by simp)]
      · have hne : head.name ≠ ag.name := fun heq =>
          hnames.1 (heq ▸ List.mem_map_of_mem hrest)
        rw [List.find?_cons_of_neg (by simpa using hne)]
        exact ih hnames.2 hrest

/-- After the table is made every agent is reached at its endpoint exactly when it is not
usurped. -/
theorem targets_iff {table : NameTable} {pages : AgentPages}
    (hnames : (table.ids.map AgentId.name).Nodup)
    (hlookup : table.namelookup = mkLookup pages table.ids) :
    (∀ ag ∈ table.ids, table.rpcTarget ag.name = some ag.endpoint) ↔
      Unusurped pages table.ids := by
  have htarget : ∀ {name front other rest}, table.ids = front ++ other :: rest →
      name ∈ entered pages other → (∀ later ∈ rest, name ∉ entered pages later) →
      table.rpcTarget name = some other.endpoint := by
    intro name front other rest hids hother hlater
    have hplace := find?_mkLookup_eq_some.mpr ⟨front, other, rest, hids, rfl, hother, hlater⟩
    rw [rpcTarget, hlookup, hplace, Option.bind_some, hids,
      List.getElem?_append_right (le_refl _), Nat.sub_self]
    rfl
  have hne : ∀ {front other rest ag}, table.ids = front ++ other :: rest → ag ∈ front →
      ∀ later ∈ other :: rest, ag.name ≠ later.name := by
    intro front other rest ag hids hag later hlater
    rw [hids, List.map_append] at hnames
    exact (List.nodup_append.mp hnames).2.2 _ (List.mem_map_of_mem hag) _
      (List.mem_map_of_mem hlater)
  constructor
  · intro hall front other rest hids ag hag hlisted hlater
    have hentered : ∀ later ∈ rest, ag.name ∉ entered pages later := by
      intro later hmem hentered
      rcases List.mem_cons.mp hentered with heq | hdevice
      · exact hne hids hag later (List.mem_cons_of_mem other hmem) heq
      · exact hlater later hmem hdevice
    have hown := hall ag (hids ▸ List.mem_append_left _ hag)
    rw [htarget hids (List.mem_cons_of_mem _ hlisted) hentered] at hown
    exact Option.some.inj hown
  · intro hunusurped ag hag
    have hown : ag.name ∈ entered pages ag := List.mem_cons_self
    obtain ⟨place, hplace⟩ := exists_place hag hown
    obtain ⟨front, other, rest, hids, -, hother, hlater⟩ := find?_mkLookup_eq_some.mp hplace
    rw [htarget hids hother hlater]
    rw [hids] at hag
    rcases List.mem_append.mp hag with hfront | hrest
    · have hlisted : ag.name ∈ listed pages other :=
        (List.mem_cons.mp hother).resolve_left (hne hids hfront other List.mem_cons_self)
      rw [hunusurped front other rest hids ag hfront hlisted fun later hmem hdevice =>
        hlater later hmem (List.mem_cons_of_mem _ hdevice)]
    · rcases List.mem_cons.mp hrest with rfl | hlast
      · rfl
      · exact absurd List.mem_cons_self (hlater ag hlast)

/-! ## Runs without moves -/

/-- What holds as long as no agent has moved or was usurped. -/
structure Kept (registry : Registry) : Prop where
  names : (registry.table.ids.map AgentId.name).Nodup
  announced : ∀ name target, registry.latest.find? name = some target ↔
    ∃ ag ∈ registry.table.ids, ag.name = name ∧ ag.endpoint = target
  targets : ∀ ag ∈ registry.table.ids, registry.table.rpcTarget ag.name = some ag.endpoint

theorem kept_start : start.Kept where
  names := List.nodup_nil
  announced name target := by
    refine iff_of_false (Option.some_ne_none _).symm ?_
    rintro ⟨ag, hag, -⟩
    exact absurd hag List.not_mem_nil
  targets ag hag := absurd hag List.not_mem_nil

/-- The two lookups find the descriptor of the name. -/
theorem Kept.agrees {registry : Registry} (h : registry.Kept) : registry.Agrees := by
  intro name target hlatest
  obtain ⟨ag, hag, rfl, rfl⟩ := (h.announced name target).mp hlatest
  refine ⟨h.targets ag hag, ?_⟩
  rw [described_eq, find?_of_nodup h.names hag]
  rfl

section Step

variable {registry : Registry} {announcement : Announcement}

/-- The agents after an announcement. -/
def nextIds (registry : Registry) (announcement : Announcement) : List AgentId :=
  (registry.table.addifnew (AgentDesc.ofMessage announcement.message)).ids

theorem nextIds_eq (registry : Registry) (announcement : Announcement) :
    registry.nextIds announcement =
      if registry.table.Knows announcement.id then registry.table.ids
      else registry.table.ids ++ [announcement.id] :=
  ids_addifnew _ _

theorem id_mem_nextIds (registry : Registry) (announcement : Announcement) :
    announcement.id ∈ registry.nextIds announcement := by
  rw [nextIds_eq]
  split
  · assumption
  · exact List.mem_append_right _ List.mem_cons_self

theorem mem_nextIds {ag : AgentId} :
    ag ∈ registry.nextIds announcement ↔ ag ∈ registry.table.ids ∨ ag = announcement.id := by
  rw [nextIds_eq]
  split
  · rename_i hknown
    exact ⟨Or.inl, fun h => h.elim id fun heq => heq ▸ hknown⟩
  · rw [List.mem_append, List.mem_singleton]

/-- An agent that does not move and has a descriptor is the announcing one. -/
theorem Kept.eq_id (h : registry.Kept) (hunmoved : registry.Unmoved announcement) {ag : AgentId}
    (hag : ag ∈ registry.table.ids) (hname : ag.name = announcement.id.name) :
    ag = announcement.id :=
  AgentId.ext_endpoint hname
    (hunmoved _ ((h.announced _ _).mpr ⟨ag, hag, hname, rfl⟩))

theorem Kept.names_next (h : registry.Kept) (hunmoved : registry.Unmoved announcement) :
    ((registry.nextIds announcement).map AgentId.name).Nodup := by
  rw [nextIds_eq]
  split
  · exact h.names
  · rename_i hknown
    rw [List.map_append, List.map_singleton]
    refine List.nodup_append.mpr ⟨h.names, List.nodup_singleton _, ?_⟩
    intro name hmem other hother heq
    obtain ⟨ag, hag, rfl⟩ := List.mem_map.mp hmem
    have hname := heq.trans (List.mem_singleton.mp hother)
    exact hknown (h.eq_id hunmoved hag hname ▸ hag)

theorem Kept.announced_next (h : registry.Kept) (hunmoved : registry.Unmoved announcement)
    (name : String) (target : String × String) :
    (registry.latest.insert announcement.id.name announcement.id.endpoint).find? name =
        some target ↔
      ∃ ag ∈ registry.nextIds announcement, ag.name = name ∧ ag.endpoint = target := by
  rw [SortedMap.find?_insert]
  split
  · rename_i hname
    constructor
    · intro htarget
      exact ⟨announcement.id, id_mem_nextIds _ _, hname, Option.some.inj htarget⟩
    · rintro ⟨ag, hag, hagName, rfl⟩
      rcases mem_nextIds.mp hag with hold | rfl
      · rw [h.eq_id hunmoved hold (hagName.trans hname.symm)]
      · rfl
  · rename_i hname
    rw [h.announced]
    constructor
    · rintro ⟨ag, hag, hrest⟩
      exact ⟨ag, mem_nextIds.mpr (Or.inl hag), hrest⟩
    · rintro ⟨ag, hag, hagName, htarget⟩
      rcases mem_nextIds.mp hag with hold | rfl
      · exact ⟨ag, hold, hagName, htarget⟩
      · exact absurd hagName hname

theorem ids_next (hactive : Active announcement.message) :
    (registry.table.update announcement.pages announcement.message).2.ids =
      registry.nextIds announcement :=
  ids_update hactive _ _

/-- Targets after an announcement that is not followed by a new lookup. -/
theorem Kept.targets_same (h : registry.Kept) (hactive : Active announcement.message)
    (hrefresh : ¬ Refreshes announcement.message registry.table) :
    ∀ ag ∈ (registry.table.update announcement.pages announcement.message).2.ids,
      (registry.table.update announcement.pages announcement.message).2.rpcTarget ag.name =
        some ag.endpoint := by
  have hids : (registry.table.update announcement.pages announcement.message).2.ids =
      registry.table.ids := by
    have hknown : registry.table.Knows announcement.id :=
      not_not.mp fun hnot => hrefresh (Or.inl hnot)
    rw [ids_next hactive, nextIds_eq, if_pos hknown]
  have hlookup : (registry.table.update announcement.pages announcement.message).2.namelookup =
      registry.table.namelookup := by
    rw [namelookup_update hactive, if_neg fun hall => hrefresh hall.1]
  intro ag hag
  rw [rpcTarget, hids, hlookup]
  exact h.targets ag (hids ▸ hag)

/-- Targets after a new lookup. -/
theorem targets_fresh (hactive : Active announcement.message)
    (hrefresh : Refreshes announcement.message registry.table)
    (hfetched : registry.Fetched announcement)
    (hnames : ((registry.nextIds announcement).map AgentId.name).Nodup) :
    (∀ ag ∈ (registry.table.update announcement.pages announcement.message).2.ids,
      (registry.table.update announcement.pages announcement.message).2.rpcTarget ag.name =
        some ag.endpoint) ↔
      Unusurped announcement.pages (registry.nextIds announcement) := by
  have hids : (registry.table.update announcement.pages announcement.message).2.ids =
      registry.nextIds announcement := ids_next hactive
  have hlookup : (registry.table.update announcement.pages announcement.message).2.namelookup =
      mkLookup announcement.pages
        (registry.table.update announcement.pages announcement.message).2.ids := by
    rw [namelookup_update hactive, if_pos ⟨hrefresh, hfetched hrefresh⟩, hids]
    rfl
  rw [targets_iff (hids ▸ hnames) hlookup, hids]

theorem announce_of_active (hactive : Active announcement.message)
    (hfetched : registry.Fetched announcement) :
    registry.announce announcement =
      some ⟨(registry.table.update announcement.pages announcement.message).2,
        registry.latest.insert announcement.id.name announcement.id.endpoint⟩ := by
  rw [announce, if_pos hactive, if_pos hfetched]

theorem announce_of_not_active (hactive : ¬ Active announcement.message) :
    registry.announce announcement = some registry := by
  rw [announce, if_neg hactive, update_of_not_active hactive]

/-- Each condition keeps what holds. -/
theorem Kept.next (h : registry.Kept) (hsettled : registry.Settled announcement)
    {next : Registry} (hnext : registry.announce announcement = some next) : next.Kept := by
  by_cases hactive : Active announcement.message
  · by_cases hfetched : registry.Fetched announcement
    · rw [announce_of_active hactive hfetched] at hnext
      cases hnext
      obtain ⟨hunmoved, hunusurped⟩ := hsettled hactive hfetched
      have hids : (registry.table.update announcement.pages announcement.message).2.ids =
          registry.nextIds announcement := ids_next hactive
      refine ⟨?_, fun name target => ?_, ?_⟩
      · rw [hids]
        exact h.names_next hunmoved
      · rw [hids]
        exact h.announced_next hunmoved name target
      · by_cases hrefresh : Refreshes announcement.message registry.table
        · exact (targets_fresh hactive hrefresh hfetched (h.names_next hunmoved)).mpr
            (hunusurped hrefresh)
        · exact h.targets_same hactive hrefresh
    · rw [announce, if_pos hactive, if_neg hfetched] at hnext
      cases hnext
  · rw [announce_of_not_active hactive, Option.some.injEq] at hnext
    exact hnext ▸ h

/-- The description of an agent stays what it was first. -/
theorem Kept.described_next (h : registry.Kept) (hactive : Active announcement.message)
    {ag : AgentId} (hag : ag ∈ registry.table.ids) :
    described ag.name (registry.table.update announcement.pages announcement.message).2 =
      ag.endpoint := by
  have hfind := find?_of_nodup h.names hag
  have hnext : (registry.nextIds announcement).find? (fun other => other.name = ag.name) =
      some ag := by
    rw [nextIds_eq]
    split
    · exact hfind
    · rw [List.find?_append, hfind]
      rfl
  rw [described_eq, ids_next hactive, hnext]
  rfl

/-- The lookups agree after a step exactly when it meets the condition. -/
theorem Kept.agrees_next_iff (h : registry.Kept) :
    (∀ next, registry.announce announcement = some next → next.Agrees) ↔
      registry.Settled announcement := by
  constructor
  · intro hnext hactive hfetched
    have hagrees := hnext _ (announce_of_active hactive hfetched)
    have hunmoved : registry.Unmoved announcement := by
      intro target hlatest
      obtain ⟨ag, hag, hname, rfl⟩ := (h.announced _ _).mp hlatest
      have hdescribed := (hagrees _ _ (SortedMap.find?_insert_self _ _ _)).2
      rw [← hname, h.described_next hactive hag] at hdescribed
      exact hdescribed
    refine ⟨hunmoved, fun hrefresh => ?_⟩
    refine (targets_fresh hactive hrefresh hfetched (h.names_next hunmoved)).mp fun ag hag => ?_
    rw [ids_next hactive] at hag
    exact (hagrees _ _ ((h.announced_next hunmoved _ _).mpr ⟨ag, hag, rfl, rfl⟩)).1
  · intro hsettled next hnext
    exact (h.next hsettled hnext).agrees

end Step

/-- In every state of a run messages are sent to the endpoint announced last and descriptions
have it, exactly when no agent moves and none is listed by another one. -/
theorem lookups_agree_iff (announcements : List Announcement) :
    Machine.Always announce Agrees start announcements ↔
      Machine.Along announce Settled start announcements := by
  rw [Machine.always_iff_along_next, and_iff_right kept_start.agrees]
  refine Machine.along_iff_of_guarded (I := Kept) ?_ ?_ announcements kept_start
  · intro registry announcement h
    exact h.agrees_next_iff
  · intro registry announcement next h hsettled hnext
    exact h.next hsettled hnext

/-- An announcement of the agent of the lights. -/
def lights (address : String) : Announcement where
  message := ((((MMessage.mk2 "agent_info" "lights").add "agentname" "lights").add "address"
    address).add "port" "8080")
  pages _ _ := ""

/-- The agent moves to another address: the description keeps the old one. -/
theorem not_agrees_lights :
    ¬ Machine.Always announce Agrees start [lights "10.0.0.1", lights "10.0.0.2"] := by
  intro halways
  have hlast := halways.last rfl
  have htarget := (hlast "lights" ("8080", "10.0.0.2") (by decide)).2
  exact absurd htarget (by decide)

end Registry

end Hat
