import Hat.Minilibs.AgentUpdate
import Hat.Minilibs.FileManager
import Hat.Minilibs.ObserverThread

/-!
# The events that an observer is told of

An announcement observes events, of which those are kept that match a subject of the agent,
and the kept ones are written to the file of the observer.  An event is kept once for every
subject it matches, and the file holds one entry for all events with one name.
-/

namespace Hat.AgentNet

open ObserverThread

/-- A subject or an event is written as its name, a dot and its type. -/
def Dotted (text : String) : Prop := '.' ∈ text.toList

instance : DecidablePred Dotted := fun text => inferInstanceAs (Decidable ('.' ∈ text.toList))

/-- The subject is the event, or has its type and one of the two names is a wildcard. -/
def Matches (subject event : String) : Prop :=
  subject = event ∨ ((split subject).1 = (split event).1 ∧
    ('*' ∈ (split subject).2.toList ∨ '*' ∈ (split event).2.toList))

instance (subject event : String) : Decidable (Matches subject event) :=
  inferInstanceAs (Decidable (_ ∨ _))

theorem toList_eq_of_dotted {text : String} (h : Dotted text) :
    text.toList = (split text).2.toList ++ '.' :: (split text).1.toList := by
  obtain ⟨rest, hdrop, hchars⟩ := FileManager.exists_dropWhile_eq_cons h
  rw [split, beforeDot, afterDot, hdrop, String.toList_ofList, String.toList_ofList]
  exact hchars.symm

theorem afterDot_of_dotted {text : String} (h : Dotted text) (missing : String) :
    afterDot missing text = (split text).1 := by
  obtain ⟨rest, hdrop, -⟩ := FileManager.exists_dropWhile_eq_cons h
  rw [split, afterDot, afterDot, hdrop]

/-- A name and a type tell their text. -/
theorem eq_of_split_eq {left right : String} (hleft : Dotted left) (hright : Dotted right)
    (h : split left = split right) : left = right := by
  rw [String.ext_iff, toList_eq_of_dotted hleft, toList_eq_of_dotted hright, h]

theorem observesSubject_iff {event subject : String} (hevent : Dotted event)
    (hsubject : Dotted subject) :
    observesSubject event subject = true ↔ Matches subject event := by
  rw [observesSubject, afterDot_of_dotted hevent, afterDot_of_dotted hsubject, Matches]
  simp only [isStar, Bool.or_eq_true, Bool.and_eq_true, decide_eq_true_eq, List.contains_iff_mem]
  rw [and_comm, eq_comm (a := (split event).1)]
  rfl

/-- How often an event is kept. -/
def matchCount (mysubjects : List String) (event : String) : ℕ :=
  mysubjects.countP (observesSubject event)

theorem evFilter_eq (mysubjects events : List String) :
    evFilter mysubjects events =
      events.flatMap fun event => List.replicate (matchCount mysubjects event) event := by
  rw [evFilter]
  congr 1
  funext event
  rw [List.map_const', matchCount, List.countP_eq_length_filter]

theorem mem_evFilter_iff (mysubjects events : List String) (event : String) :
    event ∈ evFilter mysubjects events ↔
      event ∈ events ∧ ∃ subject ∈ mysubjects, observesSubject event subject = true := by
  rw [evFilter_eq, List.mem_flatMap]
  constructor
  · rintro ⟨other, hother, hmem⟩
    obtain ⟨hcount, rfl⟩ := List.mem_replicate.mp hmem
    exact ⟨hother, List.countP_pos_iff.mp (Nat.pos_of_ne_zero hcount)⟩
  · rintro ⟨hevent, hmatch⟩
    refine ⟨event, hevent, List.mem_replicate.mpr ⟨?_, rfl⟩⟩
    exact (List.countP_pos_iff.mpr hmatch).ne'

/-- The loop filters the events exactly when it finds no event more than once. -/
theorem evFilter_eq_filter_iff {mysubjects events : List String} (hnodup : events.Nodup) :
    evFilter mysubjects events =
        events.filter (fun event => ∃ subject ∈ mysubjects, observesSubject event subject = true) ↔
      ∀ event ∈ events, matchCount mysubjects event ≤ 1 := by
  rw [evFilter_eq]
  constructor
  · intro h event hevent
    have hsublist : (List.replicate (matchCount mysubjects event) event).Sublist
        (events.flatMap fun event => List.replicate (matchCount mysubjects event) event) :=
      List.sublist_flatten_of_mem (List.mem_map_of_mem hevent)
    rw [h] at hsublist
    exact List.nodup_replicate.mp (hsublist.nodup (hnodup.filter _))
  · intro h
    induction events with
    | nil => rfl
    | cons event rest ih =>
        obtain ⟨hevent, hrest⟩ := List.forall_mem_cons.mp h
        rw [List.flatMap_cons, ih hnodup.of_cons hrest, List.filter_cons]
        split_ifs with hmatch
        · have hpos : 0 < matchCount mysubjects event :=
            List.countP_pos_iff.mpr (of_decide_eq_true hmatch)
          have hone : matchCount mysubjects event = 1 := by
            omega
          rw [hone]
          rfl
        · have hzero : matchCount mysubjects event = 0 := by
            by_contra hne
            exact hmatch (decide_eq_true (List.countP_pos_iff.mp (Nat.pos_of_ne_zero hne)))
          rw [hzero]
          rfl

/-- The pair that an event adds to the file. -/
def request (event : String) : Request := ⟨(split event).1, (split event).2⟩

/-- The entry of an event: its name, and its type as the value. -/
def observeEntry (event : String) : MAttribute := ⟨(split event).2, "observe", (split event).1⟩

/-- What stands in the file before the entries. -/
def header (agent address port : String) : List MAttribute :=
  [⟨"name", "generic", agent⟩, ⟨"agent", "generic", agent⟩, ⟨"address", "generic", address⟩,
    ⟨"port", "generic", port⟩, ⟨"language", "generic", "xml"⟩, ⟨"status", "generic", "ON"⟩]

theorem nodup_header (agent address port : String) :
    ((header agent address port).map attributeKey).Nodup := by
  have hkeys : (header agent address port).map attributeKey =
      ["name", "agent", "address", "port", "language", "status"].map fun name =>
        (name, "generic") := rfl
  rw [hkeys]
  decide

theorem observeEntry_notMem_header (agent address port event : String) :
    attributeKey (observeEntry event) ∉ (header agent address port).map attributeKey := by
  have hcategory : ∀ attr ∈ header agent address port, attr.category = "generic" := by
    simp [header]
  intro hmem
  obtain ⟨attr, hattr, hkey⟩ := List.mem_map.mp hmem
  have hobserve := hcategory attr hattr
  rw [show attr.category = "observe" from congrArg Prod.snd hkey] at hobserve
  exact absurd hobserve (by decide)

theorem attributes_descriptor (agent address port : String) (events : List String) :
    (descriptor agent address port events).attributes =
      (events.map observeEntry).foldl (fun kept attr => overwrite attributeKey attr kept)
        (header agent address port) := by
  have hfold := attributes_foldl_add "observe" (events.map request)
    ⟨agent, header agent address port, none, none⟩
  rw [List.map_map, List.foldl_map] at hfold
  exact hfold

/-- The entries that are left are those whose name no later event has. -/
theorem mem_descriptor_iff (agent address port : String) (events : List String) (event : String) :
    observeEntry event ∈ (descriptor agent address port events).attributes ↔
      Survives Request.subtype (events.map request) (request event) := by
  have hkey : ∀ left right : Request, attributeKey (left.attribute "observe") =
      attributeKey (right.attribute "observe") ↔ left.subtype = right.subtype :=
    fun left right => Prod.mk_inj.trans (and_iff_left rfl)
  have hmap : events.map observeEntry = (events.map request).map (Request.attribute "observe") := by
    rw [List.map_map]
    rfl
  rw [attributes_descriptor, mem_foldl_overwrite_iff attributeKey _
    (nodup_header agent address port) (observeEntry_notMem_header agent address port event), hmap]
  exact survives_map attributeKey _ _ hkey (Request.attribute_injective "observe")
    (events.map request) (request event)

/-- Every event has its entry exactly when no two events have one name. -/
theorem forall_mem_descriptor_iff (agent address port : String) {events : List String}
    (hdotted : ∀ event ∈ events, Dotted event) :
    (∀ event ∈ events, observeEntry event ∈ (descriptor agent address port events).attributes) ↔
      ∀ left ∈ events, ∀ right ∈ events, (split left).2 = (split right).2 → left = right := by
  have hrequest : ∀ left ∈ events, ∀ right ∈ events,
      request left = request right ↔ left = right := by
    intro left hleft right hright
    constructor
    · intro h
      obtain ⟨htype, hname⟩ := Request.mk.inj h
      exact eq_of_split_eq (hdotted left hleft) (hdotted right hright) (Prod.ext htype hname)
    · exact congrArg request
  have hsurvive := forall_survives_iff Request.subtype (events.map request)
  simp only [List.forall_mem_map] at hsurvive
  simp only [mem_descriptor_iff]
  rw [hsurvive]
  refine forall₂_congr fun left hleft => forall₂_congr fun right hright => ?_
  rw [hrequest left hleft right hright]
  rfl

/-! ## Announcements -/

section Announcements

variable (message : MMessage) (net : AgentNet)

/-- The announced events that match a subject of the agent. -/
def matchingEvents : List String :=
  (message.getList "observe").filter fun event =>
    ∃ subject ∈ net.mysubjects, Matches subject event

/-- The matching events are left, each once and in their order, and every one of them has an
entry in the file that is written. -/
structure ObservesMatching : Prop where
  filtered : evFilter net.mysubjects (message.getList "observe") = matchingEvents message net
  described : ∃ ty attributes,
    (net.mkTcpObserverXML message).home.find? (message.getString "agentname" ++ ".xml") =
      some (ty, attributes) ∧
    ∀ event ∈ matchingEvents message net, observeEntry event ∈ attributes

/-- No event matches two subjects, and no two matching events have one name. -/
structure MatchesSingly : Prop where
  once : ∀ event ∈ message.getList "observe",
    net.mysubjects.countP (fun subject => Matches subject event) ≤ 1
  names : ∀ left ∈ matchingEvents message net, ∀ right ∈ matchingEvents message net,
    (split left).2 = (split right).2 → left = right

end Announcements

section Filtering

variable {message : MMessage} {net : AgentNet}

theorem matchCount_eq {event : String} (hevent : Dotted event)
    (hsubjects : ∀ subject ∈ net.mysubjects, Dotted subject) :
    matchCount net.mysubjects event =
      net.mysubjects.countP fun subject => Matches subject event := by
  refine List.countP_congr fun subject hsubject => ?_
  rw [observesSubject_iff hevent (hsubjects subject hsubject), decide_eq_true_iff]

theorem exists_observesSubject_iff {event : String} (hevent : Dotted event)
    (hsubjects : ∀ subject ∈ net.mysubjects, Dotted subject) :
    (∃ subject ∈ net.mysubjects, observesSubject event subject = true) ↔
      ∃ subject ∈ net.mysubjects, Matches subject event := by
  refine exists_congr fun subject => and_congr_right fun hsubject => ?_
  exact observesSubject_iff hevent (hsubjects subject hsubject)

theorem mem_evFilter_iff_mem_matchingEvents
    (hsubjects : ∀ subject ∈ net.mysubjects, Dotted subject)
    (hevents : ∀ event ∈ message.getList "observe", Dotted event) (event : String) :
    event ∈ evFilter net.mysubjects (message.getList "observe") ↔
      event ∈ matchingEvents message net := by
  rw [mem_evFilter_iff, matchingEvents, List.mem_filter, decide_eq_true_iff]
  refine and_congr_right fun hevent => ?_
  exact exists_observesSubject_iff (hevents event hevent) hsubjects

theorem filtered_iff (hsubjects : ∀ subject ∈ net.mysubjects, Dotted subject)
    (hnodup : (message.getList "observe").Nodup)
    (hevents : ∀ event ∈ message.getList "observe", Dotted event) :
    evFilter net.mysubjects (message.getList "observe") = matchingEvents message net ↔
      ∀ event ∈ message.getList "observe",
        net.mysubjects.countP (fun subject => Matches subject event) ≤ 1 := by
  have hfilter : matchingEvents message net = (message.getList "observe").filter fun event =>
      ∃ subject ∈ net.mysubjects, observesSubject event subject = true := by
    refine List.filter_congr fun event hevent => ?_
    exact decide_eq_decide.mpr (exists_observesSubject_iff (hevents event hevent) hsubjects).symm
  rw [hfilter, evFilter_eq_filter_iff hnodup]
  refine forall₂_congr fun event hevent => ?_
  rw [matchCount_eq (hevents event hevent) hsubjects]

theorem described_iff (hsubjects : ∀ subject ∈ net.mysubjects, Dotted subject)
    (hevents : ∀ event ∈ message.getList "observe", Dotted event) :
    (∃ ty attributes,
      (net.mkTcpObserverXML message).home.find? (message.getString "agentname" ++ ".xml") =
        some (ty, attributes) ∧
      ∀ event ∈ matchingEvents message net, observeEntry event ∈ attributes) ↔
      ∀ left ∈ matchingEvents message net, ∀ right ∈ matchingEvents message net,
        (split left).2 = (split right).2 → left = right := by
  have hmem := mem_evFilter_iff_mem_matchingEvents hsubjects hevents
  have hdotted : ∀ event ∈ evFilter net.mysubjects (message.getList "observe"), Dotted event :=
    fun event hevent => hevents event (List.mem_filter.mp ((hmem event).mp hevent)).1
  have hentries := forall_mem_descriptor_iff (message.getString "agentname")
    (message.getString "ip") (message.getString "port") hdotted
  simp only [hmem] at hentries
  rw [← hentries, home_mkTcpObserverXML]
  constructor
  · rintro ⟨ty, attributes, hfile, hall⟩
    cases hfile
    exact hall
  · exact fun hall => ⟨_, _, rfl, hall⟩

end Filtering

/-- The observer of an announcement is told of the matching events, each once, exactly when no
event matches two subjects and no two matching events have one name. -/
theorem observesMatching_iff (message : MMessage) (net : AgentNet)
    (hsubjects : ∀ subject ∈ net.mysubjects, Dotted subject)
    (hnodup : (message.getList "observe").Nodup)
    (hevents : ∀ event ∈ message.getList "observe", Dotted event) :
    ObservesMatching message net ↔ MatchesSingly message net := by
  have hfiltered := filtered_iff hsubjects hnodup hevents
  have hdescribed := described_iff hsubjects hevents
  constructor
  · exact fun h => ⟨hfiltered.mp h.filtered, hdescribed.mp h.described⟩
  · exact fun h => ⟨hfiltered.mpr h.once, hdescribed.mpr h.names⟩

section Examples

def observing (events : List String) : MMessage :=
  ((MMessage.mk2 "*" "*").add "agentname" "panel").addList "observe" events

def owning (mysubjects : List String) : AgentNet :=
  { init newAgent "10.0.0.1" with mysubjects := mysubjects }

theorem observesMatching_oneEach :
    ObservesMatching (observing ["door.event", "window.state", "lamp.level"])
      (owning ["*.event", "window.state"]) := by
  refine (observesMatching_iff _ _ ?_ ?_ ?_).mpr ⟨?_, ?_⟩
  all_goals decide +kernel

/-- Of two events with one name the first has no entry. -/
theorem not_observesMatching_sameName :
    ¬∀ (message : MMessage) (net : AgentNet), (∀ subject ∈ net.mysubjects, Dotted subject) →
      (message.getList "observe").Nodup → (∀ event ∈ message.getList "observe", Dotted event) →
        ObservesMatching message net := by
  intro h
  have hsubjects : ∀ subject ∈ (owning ["door.event", "door.state"]).mysubjects,
      Dotted subject := by
    decide +kernel
  have hevents : ∀ event ∈ (observing ["door.event", "door.state"]).getList "observe",
      Dotted event := by
    decide +kernel
  have hnodup : ((observing ["door.event", "door.state"]).getList "observe").Nodup := by
    decide +kernel
  have hnames := (described_iff hsubjects hevents).mp (h _ _ hsubjects hnodup hevents).described
  have hsame := hnames "door.event" (by decide +kernel) "door.state" (by decide +kernel)
    (by decide +kernel)
  exact absurd hsame (by decide)

end Examples

end Hat.AgentNet
