import Hat.WSServer.NameTable

/-!
# What an announcement registers

The commands and events on an agent's pages belong to its descriptor, but `update` adds them
to the last one of the vector.  A descriptor is pushed before the pages are fetched, so after
a failed fetch the agent is no longer new, and only a first announcement fetches again.
-/

namespace Hat

namespace NameTable

/-- The commands and events that are read before a fetch fails. -/
def collected (pages : AgentPages) (ag : AgentId) : List String × List String :=
  if Fails pages "/subjects/imported" ag then ([], [])
  else if Fails pages "/subjects/exported" ag then
    (extractCommand (pages "/subjects/imported" ag), [])
  else
    (extractCommand (pages "/subjects/imported" ag), extractEvent (pages "/subjects/exported" ag))

/-- The commands and events are added to the descriptor of the announcing agent and to no
other. -/
def AddsToOwn (announcement : Announcement) (table : NameTable) : Prop :=
  let tmp := AgentDesc.ofMessage announcement.message
  let found := collected announcement.pages announcement.id
  (table.update announcement.pages announcement.message).2.agent =
    if Active announcement.message then
      if Refreshes announcement.message table then
        (table.addifnew tmp).agent.map fun ag =>
          if ag.toAgentId = announcement.id then ag.extend found.1 found.2 else ag
      else (table.addifnew tmp).agent
    else table.agent

/-- The agent is new or has the last descriptor, or there is nothing to add. -/
def OwnIsLast (announcement : Announcement) (table : NameTable) : Prop :=
  Active announcement.message → Refreshes announcement.message table →
    ¬ table.Knows announcement.id ∨ table.ids.getLast? = some announcement.id ∨
      collected announcement.pages announcement.id = ([], [])

end NameTable

namespace AgentDesc

theorem extend_nil (ag : AgentDesc) : ag.extend [] [] = ag := by
  rw [extend, List.append_nil, List.append_nil]

theorem extend_extend (command event : List String) (ag : AgentDesc) :
    (ag.extend command []).extend [] event = ag.extend command event := by
  simp only [extend, List.append_nil]

theorem extend_eq_self_iff {command event : List String} (ag : AgentDesc) :
    ag.extend command event = ag ↔ (command, event) = ([], []) := by
  constructor
  · intro heq
    have hcommand : ag.command ++ command = ag.command := congrArg AgentDesc.command heq
    have hevent : ag.event ++ event = ag.event := congrArg AgentDesc.event heq
    rw [List.append_right_eq_self.mp hcommand, List.append_right_eq_self.mp hevent]
  · intro heq
    cases heq
    exact extend_nil ag

end AgentDesc

namespace NameTable

theorem mapLast_eq_self {f : AgentDesc → AgentDesc} (hf : ∀ ag, f ag = ag)
    (agents : List AgentDesc) : mapLast f agents = agents := by
  rcases List.eq_nil_or_concat' agents with rfl | ⟨front, ag, rfl⟩
  · rfl
  · rw [mapLast_concat, hf]

theorem mapLast_mapLast (f g : AgentDesc → AgentDesc) (agents : List AgentDesc) :
    mapLast g (mapLast f agents) = mapLast (fun ag => g (f ag)) agents := by
  rcases List.eq_nil_or_concat' agents with rfl | ⟨front, ag, rfl⟩
  · rfl
  · rw [mapLast_concat, mapLast_concat, mapLast_concat]

/-- Whatever is read is added to the last descriptor. -/
theorem agent_update {announcement : Announcement} {table : NameTable}
    (hactive : Active announcement.message) (hrefresh : Refreshes announcement.message table) :
    (table.update announcement.pages announcement.message).2.agent =
      mapLast (AgentDesc.extend (collected announcement.pages announcement.id).1
          (collected announcement.pages announcement.id).2)
        (table.addifnew (AgentDesc.ofMessage announcement.message)).agent := by
  rw [update, if_pos hactive, collected, Announcement.id]
  simp only [if_pos hrefresh]
  split
  · rw [mapLast_eq_self AgentDesc.extend_nil]
  · split
    · rfl
    · change mapLast _ (mapLast _ _) = _
      rw [mapLast_mapLast]
      simp only [AgentDesc.extend_extend]

/-- A change of the last descriptor is the change of one agent's descriptor when that one is
the last, or nothing changes. -/
theorem mapLast_eq_map_iff {agents : List AgentDesc}
    (hdistinct : (agents.map AgentDesc.toAgentId).Nodup) {ag : AgentId}
    (hag : ag ∈ agents.map AgentDesc.toAgentId) (command event : List String) :
    mapLast (AgentDesc.extend command event) agents =
        agents.map (fun desc => if desc.toAgentId = ag then desc.extend command event else desc) ↔
      (agents.map AgentDesc.toAgentId).getLast? = some ag ∨ (command, event) = ([], []) := by
  rcases List.eq_nil_or_concat' agents with rfl | ⟨front, last, rfl⟩
  · exact absurd hag List.not_mem_nil
  · rw [mapLast_concat, List.map_append, List.map_append, List.map_singleton, List.map_singleton,
      List.getLast?_concat, Option.some.injEq]
    rw [List.map_append, List.map_singleton] at hdistinct
    by_cases hlast : last.toAgentId = ag
    · refine iff_of_true ?_ (Or.inl hlast)
      have hfront : front.map (fun desc =>
          if desc.toAgentId = ag then desc.extend command event else desc) = front.map id := by
        refine List.map_congr_left fun desc hdesc => if_neg fun heq => ?_
        exact (List.nodup_append.mp hdistinct).2.2 _ (List.mem_map_of_mem hdesc) _
          List.mem_cons_self (heq.trans hlast.symm)
      rw [hfront, List.map_id, if_pos hlast]
    · rw [if_neg hlast, or_iff_right hlast]
      constructor
      · intro heq
        have hend := List.singleton_inj.mp (List.append_inj' heq rfl).2
        exact (AgentDesc.extend_eq_self_iff last).mp hend
      · intro hnothing
        cases hnothing
        simp only [AgentDesc.extend_nil, ite_self, List.map_id']

theorem knows_addifnew (ag : AgentDesc) (table : NameTable) :
    (table.addifnew ag).Knows ag.toAgentId := by
  rw [Knows, ids_addifnew]
  split
  · assumption
  · exact List.mem_append_right _ List.mem_cons_self

theorem addsToOwn_iff (announcement : Announcement) (table : NameTable) :
    AddsToOwn announcement table ↔ OwnIsLast announcement table := by
  simp only [AddsToOwn, OwnIsLast]
  by_cases hactive : Active announcement.message
  · by_cases hrefresh : Refreshes announcement.message table
    · have hmap := mapLast_eq_map_iff
        (table.addifnew (AgentDesc.ofMessage announcement.message)).distinct
        (knows_addifnew _ table) (collected announcement.pages announcement.id).1
        (collected announcement.pages announcement.id).2
      have hlast : (table.addifnew (AgentDesc.ofMessage announcement.message)).ids.getLast? =
          some announcement.id ↔
          ¬ table.Knows announcement.id ∨ table.ids.getLast? = some announcement.id := by
        rw [ids_addifnew]
        by_cases hknown : table.Knows announcement.id
        · have hpos : table.Knows (AgentDesc.ofMessage announcement.message).toAgentId := hknown
          rw [if_pos hpos, or_iff_right (not_not_intro hknown)]
        · have hneg : ¬ table.Knows (AgentDesc.ofMessage announcement.message).toAgentId := hknown
          rw [if_neg hneg, List.getLast?_concat]
          exact iff_of_true rfl (Or.inl hknown)
      rw [if_pos hactive, if_pos hrefresh, agent_update hactive hrefresh, ← or_assoc, ← hlast]
      exact hmap.trans ⟨fun h _ _ => h, fun h => h hactive hrefresh⟩
    · refine iff_of_true ?_ fun _ h => absurd h hrefresh
      rw [if_pos hactive, if_neg hrefresh, update, if_pos hactive]
      simp only [if_neg hrefresh]
  · refine iff_of_true ?_ fun h => absurd h hactive
    rw [if_neg hactive, update_of_not_active hactive]

/-- The table after a list of announcements. -/
def updates (table : NameTable) (announcements : List Announcement) : NameTable :=
  announcements.foldl (fun table announcement =>
    (table.update announcement.pages announcement.message).2) table

/-- An agent whose pages could not be fetched at its first announcement, and that announces
itself again, whatever happens between, when they can. -/
structure Retry where
  table : NameTable
  first : Announcement
  first_active : Active first.message
  first_refreshes : Refreshes first.message table
  first_fails : Fails first.pages "/subjects/imported" first.id ∨
    Fails first.pages "/subjects/exported" first.id
  between : List Announcement
  again : Announcement
  again_active : Active again.message
  same_name : again.id.name = first.id.name
  imported_fetched : ¬ Fails again.pages "/subjects/imported" again.id
  exported_fetched : ¬ Fails again.pages "/subjects/exported" again.id

namespace Retry

/-- The table that the second announcement finds. -/
def before (retry : Retry) : NameTable :=
  (retry.table.update retry.first.pages retry.first.message).2.updates retry.between

/-- The agent is in the lookup in the end. -/
def Completed (retry : Retry) : Prop :=
  (retry.before.update retry.again.pages retry.again.message).2.namelookup.contains
    retry.first.id.name

/-- The second announcement is a first one or from another address or port, or the agent was
in the lookup anyway. -/
def Completes (retry : Retry) : Prop :=
  firstAnnounce retry.again.message ∨ ¬ retry.before.Knows retry.again.id ∨
    retry.before.namelookup.contains retry.first.id.name

end Retry

/-- Descriptors stay. -/
theorem knows_update {ag : AgentId} {table : NameTable} (h : table.Knows ag)
    (announcement : Announcement) :
    (table.update announcement.pages announcement.message).2.Knows ag := by
  by_cases hactive : Active announcement.message
  · rw [Knows, ids_update hactive, ids_addifnew]
    split
    · exact h
    · exact List.mem_append_left _ h
  · rw [update_of_not_active hactive]
    exact h

theorem knows_updates {ag : AgentId} {table : NameTable} (h : table.Knows ag)
    (announcements : List Announcement) : (table.updates announcements).Knows ag := by
  induction announcements generalizing table with
  | nil => exact h
  | cons announcement rest ih => exact ih (knows_update h announcement)

/-- The failed announcement has left a descriptor, which makes the agent known. -/
theorem knows_first (retry : Retry) : retry.before.Knows retry.first.id := by
  refine knows_updates ?_ retry.between
  rw [Knows, ids_update retry.first_active]
  exact knows_addifnew _ _

theorem completed_iff (retry : Retry) : retry.Completed ↔ retry.Completes := by
  rw [Retry.Completed, Retry.Completes, namelookup_update retry.again_active]
  by_cases hrefresh : Refreshes retry.again.message retry.before
  · rw [if_pos ⟨hrefresh, retry.imported_fetched, retry.exported_fetched⟩]
    refine iff_of_true ?_ ?_
    · have hentered : retry.first.id.name ∈ entered retry.again.pages retry.again.id :=
        List.mem_cons.mpr (Or.inl retry.same_name.symm)
      obtain ⟨place, hplace⟩ := exists_place (knows_addifnew _ retry.before) hentered
      exact SortedMap.contains_iff.mpr ⟨place, hplace⟩
    · exact hrefresh.elim (fun hnew => Or.inr (Or.inl hnew)) Or.inl
  · rw [if_neg fun h => hrefresh h.1]
    have hfirst : ¬ firstAnnounce retry.again.message := fun h => hrefresh (Or.inr h)
    have hknown : ¬ ¬ retry.before.Knows retry.again.id := fun h => hrefresh (Or.inl h)
    rw [or_iff_right hfirst, or_iff_right hknown]

/-- Where commands and events go, and which announcements complete a registration. -/
theorem registers_iff (announcement : Announcement) (table : NameTable) (retry : Retry) :
    (AddsToOwn announcement table ↔ OwnIsLast announcement table) ∧
      retry.before.Knows retry.first.id ∧ (retry.Completed ↔ retry.Completes) :=
  ⟨addsToOwn_iff announcement table, knows_first retry, completed_iff retry⟩

def announcementOf (name first : String) (pages : AgentPages) : Announcement where
  message := ((MMessage.mk2 "agent_info" name).add "agentname" name).add "first_announce" first
  pages := pages

/-- A page that lists one command. -/
def commandPages : AgentPages := fun url _ =>
  if url = "/subjects/imported" then "<subject name=\"on.cmd\"/>" else ""

def failingPages : AgentPages := fun _ _ => "unknown"

/-- The table of two agents. -/
def lightsAndHeat : NameTable :=
  empty.updates [announcementOf "lights" "FALSE" commandPages,
    announcementOf "heat" "FALSE" commandPages]

def lightsRetry : Retry where
  table := empty
  first := announcementOf "lights" "TRUE" failingPages
  first_active := by decide
  first_refreshes := by decide
  first_fails := by decide
  between := []
  again := announcementOf "lights" "FALSE" commandPages
  again_active := by decide
  same_name := rfl
  imported_fetched := by decide
  exported_fetched := by decide

/-- The first of two agents announces itself again and its command goes to the second; an
agent whose pages failed does not come into the lookup. -/
theorem not_registers_lights :
    ¬ AddsToOwn (announcementOf "lights" "TRUE" commandPages) lightsAndHeat ∧
      ¬ lightsRetry.Completed := by
  unfold AddsToOwn Retry.Completed
  decide

end NameTable

end Hat
