import Hat.Core.Outbox
import Hat.Minilibs.AgentInfo
import Hat.Minilibs.ArchiveTimes
import Hat.Minilibs.MParams

/-!
# Inputs with two states

A `BinaryInput` reports each change of its input channel as an event.  With a delay the
event is kept under a key made of the delay, the name and the second of the change, and is
reported when the timer ends the wait for that key.  An input with a delay reports every
change, and shows the last one on its page, exactly when no two changes fall into one second
and the last value is the one that was on the page before.
-/

namespace Hat

open Hat.Hsrv

structure BinaryInput where
  params : MParams
  name : String
  inp : String
  delay : String
  currentValue : String
  /-- The events that are to be reported when their wait ends. -/
  delayTable : SortedMap String MMessage
  deriving DecidableEq

/-- The page of an input, before it becomes a text. -/
structure SourcePage where
  name : String
  value : String
  status : String
  deriving DecidableEq

def SourcePage.text (page : SourcePage) : String :=
  "type=\"source\" value=\"" ++ page.value ++ "\" status=\"" ++ page.status ++ "\""

/-- What a call notifies and the page it publishes. -/
structure InputReply where
  notified : List MMessage
  published : Option SourcePage
  deriving DecidableEq

namespace BinaryInput

def page (input : BinaryInput) : SourcePage :=
  ⟨input.name, input.currentValue, input.params.get "status"⟩

def new (params : MParams) (n : String) : BinaryInput :=
  let params := params.load
  { params := params
    name := n
    inp := params.getCategory "input" "input"
    delay := if params.get "delay" ≠ "" then params.get "delay" else "0"
    currentValue := "0"
    delayTable := SortedMap.empty }

def remap (input : BinaryInput) (value : String) : String :=
  let tvalue := input.params.getCategory value "remap"
  if tvalue = "" then value else tvalue

def event (env : Env) (input : BinaryInput) : MMessage :=
  ({ MMessage.blank with mtype := "event", msubtype := input.name }.add "value"
    input.currentValue).add "time" (double2a env.gettime)

def delayKey (env : Env) (input : BinaryInput) : String :=
  input.delay ++ "_" ++ input.name ++ "$" ++ getasciitimecompact env.localtime

def update (env : Env) (channel value : String) (input : BinaryInput) :
    BinaryInput × InputReply :=
  if input.params.get "status" = "OFF" then (input, ⟨[], none⟩)
  else if channel = input.inp then
    if input.remap value ≠ input.currentValue then
      let changed := { input with currentValue := input.remap value }
      let m := changed.event env
      if input.delay = "0" ∨ input.delay = "" then (changed, ⟨[m], some changed.page⟩)
      else
        let key := input.delayKey env
        if input.delayTable.contains key then (changed, ⟨[], none⟩)
        else
          -- The wait is the event, filled once more.
          ({ changed with delayTable := input.delayTable.insert key m },
            ⟨[{ m with mtype := "wait", msubtype := "set" }.add "value" key], none⟩)
    else (input, ⟨[], none⟩)
  else (input, ⟨[], none⟩)

def execcmd (env : Env) (m : MMessage) (input : BinaryInput) : BinaryInput × InputReply :=
  if input.params.get "status" = "OFF" then (input, ⟨[], none⟩)
  else if m.mtype = "wait" ∧ m.msubtype = "end" then
    match input.delayTable.find? (m.getString "value") with
    | some event =>
        ({ input with delayTable := input.delayTable.erase (m.getString "value") },
          ⟨[event], none⟩)
    | none => (input, ⟨[], none⟩)
  else input.update env m.msubtype (m.getString "value")

end BinaryInput

/-- An input with its page and all that it has notified. -/
structure InputSite where
  input : BinaryInput
  page : SourcePage
  notified : List MMessage
  deriving DecidableEq

namespace InputSite

def next (site : InputSite) (call : Env × MMessage) : InputSite :=
  let called := site.input.execcmd call.1 call.2
  ⟨called.1, called.2.published.getD site.page, site.notified ++ called.2.notified⟩

def run (site : InputSite) (calls : List (Env × MMessage)) : InputSite := calls.foldl next site

def start (params : MParams) (n : String) : InputSite :=
  ⟨.new params n, (BinaryInput.new params n).page, []⟩

/-- A value of the channel of the input. -/
def localUpdate (input : BinaryInput) (update : Env × String) : Env × MMessage :=
  (update.1, (MMessage.mk2 "local_event" input.inp).add "value" update.2)

/-- The keys of the waits that were set. -/
def waits (notified : List MMessage) : List String :=
  (notified.filter fun m => m.mtype = "wait" && m.msubtype = "set").map (·.getString "value")

/-- The values of the events that were reported. -/
def events (notified : List MMessage) : List String :=
  (notified.filter fun m => m.mtype = "event").map (·.getString "value")

def waitEnd (clock : String → Env) (key : String) : Env × MMessage :=
  (clock key, (MMessage.mk2 "wait" "end").add "value" key)

/-- Updates of the channel, and then the ends of all waits they have set.  The waits last
equally long, so they end in the order in which they were set. -/
def played (site : InputSite) (updates : List (Env × String)) (clock : String → Env) :
    InputSite :=
  let updated := { site with notified := [] }.run (updates.map (localUpdate site.input))
  updated.run ((waits updated.notified).map (waitEnd clock))

/-- The changes among the updates, with the value each leads to. -/
def changes (remap : String → String) : String → List (Env × String) → List (Env × String)
  | _, [] => []
  | current, update :: rest =>
      if remap update.2 ≠ current then
        (update.1, remap update.2) :: changes remap (remap update.2) rest
      else changes remap current rest

/-- The value that the updates end with. -/
def lastValue (remap : String → String) (current : String) (updates : List (Env × String)) :
    String :=
  (updates.getLast?.map fun update => remap update.2).getD current

/-- After the updates and the wait ends, the input has the last value and shows it on its
page, the last event reports it, and every change has been reported. -/
structure Settles (site : InputSite) (updates : List (Env × String)) (clock : String → Env) :
    Prop where
  value : (site.played updates clock).input.currentValue =
    lastValue site.input.remap site.input.currentValue updates
  event : ∀ last, (events (site.played updates clock).notified).getLast? = some last →
    last = (site.played updates clock).input.currentValue
  page : (site.played updates clock).page.value = (site.played updates clock).input.currentValue
  kept : events (site.played updates clock).notified =
    (changes site.input.remap site.input.currentValue updates).map Prod.snd

/-! ## A round of updates and wait ends -/

/-- The input is on and reports with a delay. -/
structure Delays (input : BinaryInput) : Prop where
  status : input.params.get "status" ≠ "OFF"
  delay : ¬(input.delay = "0" ∨ input.delay = "")

/-- The event of a change, under its key. -/
def entry (input : BinaryInput) (change : Env × String) : String × MMessage :=
  (input.delayKey change.1, { input with currentValue := change.2 }.event change.1)

def entries (input : BinaryInput) (updates : List (Env × String)) : List (String × MMessage) :=
  (changes input.remap input.currentValue updates).map (entry input)

def waitSet (item : String × MMessage) : MMessage :=
  { item.2 with mtype := "wait", msubtype := "set" }.add "value" item.1

theorem getString_event (env : Env) (input : BinaryInput) :
    (input.event env).getString "value" = input.currentValue := by
  rw [BinaryInput.event, MMessage.getString_add_of_ne _ _ (by decide)]
  exact MMessage.getString_add_self _ _ _ fun _ => Option.some_ne_none _ ∘ Eq.symm

theorem getString_waitSet (input : BinaryInput) (change : Env × String) :
    (waitSet (entry input change)).getString "value" = (entry input change).1 := by
  refine MMessage.getString_add_self _ _ _ fun items => ?_
  change (({ input with currentValue := change.2 }.event change.1).fields.find? "value") ≠ _
  rw [BinaryInput.event, MMessage.find?_add_of_ne _ _ (by decide), MMessage.find?_add, if_pos rfl]
  exact fun h => nomatch h

/-- The input after a change: its event is kept, unless there is one under its key. -/
def changed (input : BinaryInput) (change : Env × String) : BinaryInput :=
  let item := entry input change
  { input with
    currentValue := change.2
    delayTable := input.delayTable.insertNew item.1 item.2 }

/-- The wait that a change sets. -/
def asked (input : BinaryInput) (change : Env × String) : List MMessage :=
  if input.delayTable.contains (entry input change).1 then [] else [waitSet (entry input change)]

theorem update_eq {input : BinaryInput} (hdelays : Delays input) (env : Env) (value : String) :
    input.update env input.inp value =
      if input.remap value ≠ input.currentValue then
        (changed input (env, input.remap value), ⟨asked input (env, input.remap value), none⟩)
      else (input, ⟨[], none⟩) := by
  rw [BinaryInput.update, if_neg hdelays.status, if_pos rfl]
  refine if_congr Iff.rfl ?_ rfl
  rw [if_neg hdelays.delay, changed, asked]
  by_cases hkey : input.delayTable.contains (entry input (env, input.remap value)).1 = true
  · rw [if_pos hkey, Outbox.insertNew_of_contains _ hkey]
    exact if_pos hkey
  · rw [if_neg hkey, SortedMap.insertNew, if_neg hkey]
    exact if_neg hkey

theorem next_localUpdate {site : InputSite} (hdelays : Delays site.input) (update : Env × String) :
    site.next (localUpdate site.input update) =
      if site.input.remap update.2 ≠ site.input.currentValue then
        ⟨changed site.input (update.1, site.input.remap update.2), site.page,
          site.notified ++ asked site.input (update.1, site.input.remap update.2)⟩
      else site := by
  have hvalue : ((MMessage.mk2 "local_event" site.input.inp).add "value" update.2).getString
      "value" = update.2 :=
    MMessage.getString_add_self _ _ _ fun _ => Option.some_ne_none _ ∘ Eq.symm
  have hinp : (MMessage.mk2 "local_event" site.input.inp).msubtype = site.input.inp := rfl
  rw [next, localUpdate, BinaryInput.execcmd, if_neg hdelays.status,
    if_neg (by simp [MMessage.mk2]), MMessage.msubtype_add, hvalue, hinp, update_eq hdelays]
  split_ifs
  · rfl
  · simp

theorem lastValue_cons (remap : String → String) (current : String) (update : Env × String)
    (rest : List (Env × String)) :
    lastValue remap current (update :: rest) = lastValue remap (remap update.2) rest := by
  rw [lastValue, List.getLast?_cons, lastValue]
  cases rest.getLast? <;> rfl

theorem run_localUpdates {site : InputSite} (hdelays : Delays site.input)
    (updates : List (Env × String)) :
    site.run (updates.map (localUpdate site.input)) =
      ⟨{ site.input with
          currentValue := lastValue site.input.remap site.input.currentValue updates
          delayTable := Outbox.fill site.input.delayTable (entries site.input updates) }, site.page,
        site.notified ++
          (Outbox.accepted site.input.delayTable (entries site.input updates)).map waitSet⟩ := by
  induction updates generalizing site with
  | nil => simp [run, lastValue, entries, changes, Outbox.fill, Outbox.accepted]
  | cons update rest ih =>
      rw [run, List.map_cons, List.foldl_cons, next_localUpdate hdelays, lastValue_cons]
      by_cases hchange : site.input.remap update.2 ≠ site.input.currentValue
      · have hafter : Delays (changed site.input (update.1, site.input.remap update.2)) :=
          ⟨hdelays.status, hdelays.delay⟩
        have hentries : entries site.input (update :: rest) =
            entry site.input (update.1, site.input.remap update.2) ::
              entries (changed site.input (update.1, site.input.remap update.2)) rest := by
          rw [entries, changes, if_pos hchange]
          rfl
        rw [if_pos hchange, hentries, Outbox.accepted]
        refine Eq.trans (@ih ⟨_, site.page, _⟩ hafter) ?_
        refine congrArg (InputSite.mk _ site.page) ?_
        rw [asked, List.append_assoc]
        split_ifs with hkey
        · rw [changed, Outbox.insertNew_of_contains _ hkey, List.nil_append]
        · rfl
      · rw [if_neg hchange, not_ne_iff.mp hchange]
        have hentries : entries site.input (update :: rest) = entries site.input rest := by
          rw [entries, changes, if_neg hchange, entries]
        rw [hentries]
        exact ih hdelays

/-- The end of a wait reports the event under its key. -/
theorem next_waitEnd {site : InputSite} (hstatus : site.input.params.get "status" ≠ "OFF")
    (clock : String → Env) (key : String) :
    site.next (waitEnd clock key) =
      match site.input.delayTable.find? key with
      | some event =>
          ⟨{ site.input with delayTable := site.input.delayTable.erase key }, site.page,
            site.notified ++ [event]⟩
      | none => site := by
  have hkey : ((MMessage.mk2 "wait" "end").add "value" key).getString "value" = key :=
    MMessage.getString_add_self _ _ _ fun _ => Option.some_ne_none _ ∘ Eq.symm
  rw [next, waitEnd, BinaryInput.execcmd, if_neg hstatus, if_pos (by simp [MMessage.mk2]), hkey]
  cases site.input.delayTable.find? key with
  | none => simp
  | some event => rfl

theorem run_waitEnds {site : InputSite} (hstatus : site.input.params.get "status" ≠ "OFF")
    (clock : String → Env) (keys : List String) :
    (site.run (keys.map (waitEnd clock))).input.currentValue = site.input.currentValue ∧
      (site.run (keys.map (waitEnd clock))).page = site.page ∧
      (site.run (keys.map (waitEnd clock))).notified =
        site.notified ++ Outbox.drain site.input.delayTable keys := by
  induction keys generalizing site with
  | nil => exact ⟨rfl, rfl, (List.append_nil _).symm⟩
  | cons key rest ih =>
      rw [run, List.map_cons, List.foldl_cons, next_waitEnd hstatus, Outbox.drain]
      cases site.input.delayTable.find? key with
      | none => exact ih hstatus
      | some event =>
          obtain ⟨hvalue, hpage, hnotified⟩ := @ih
            ⟨{ site.input with delayTable := site.input.delayTable.erase key }, site.page,
              site.notified ++ [event]⟩ hstatus
          refine ⟨hvalue, hpage, hnotified.trans ?_⟩
          rw [List.append_assoc, List.singleton_append]

theorem waits_map_waitSet (input : BinaryInput) (kept : List (Env × String)) :
    waits ((kept.map (entry input)).map waitSet) = (kept.map (entry input)).map Prod.fst := by
  have hall : ((kept.map (entry input)).map waitSet).filter
      (fun m => m.mtype = "wait" && m.msubtype = "set") = (kept.map (entry input)).map waitSet := by
    rw [List.filter_eq_self]
    intro m hm
    obtain ⟨item, -, rfl⟩ := List.mem_map.mp hm
    simp [waitSet]
  rw [waits, hall, List.map_map, List.map_map, List.map_map]
  exact List.map_congr_left fun change _ => getString_waitSet input change

theorem events_append (before after : List MMessage) :
    events (before ++ after) = events before ++ events after := by
  rw [events, List.filter_append, List.map_append, events, events]

theorem events_map_waitSet (items : List (String × MMessage)) :
    events (items.map waitSet) = [] := by
  have hnone : (items.map waitSet).filter (fun m => m.mtype = "event") = [] := by
    rw [List.filter_eq_nil_iff]
    intro m hm
    obtain ⟨item, -, rfl⟩ := List.mem_map.mp hm
    simp [waitSet]
  rw [events, hnone, List.map_nil]

theorem events_map_entry (input : BinaryInput) (kept : List (Env × String)) :
    events ((kept.map (entry input)).map Prod.snd) = kept.map Prod.snd := by
  have hall : ((kept.map (entry input)).map Prod.snd).filter (fun m => m.mtype = "event") =
      (kept.map (entry input)).map Prod.snd := by
    rw [List.filter_eq_self]
    intro m hm
    obtain ⟨item, hitem, rfl⟩ := List.mem_map.mp hm
    obtain ⟨change, -, rfl⟩ := List.mem_map.mp hitem
    simp [entry, BinaryInput.event]
  rw [events, hall, List.map_map, List.map_map]
  exact List.map_congr_left fun change _ => getString_event change.1 _

/-- What a round leaves: the last value, the page as it was, and the events that were kept. -/
theorem played_eq {site : InputSite} (hdelays : Delays site.input) (updates : List (Env × String))
    (clock : String → Env) :
    (site.played updates clock).input.currentValue =
        lastValue site.input.remap site.input.currentValue updates ∧
      (site.played updates clock).page = site.page ∧
      ∃ kept : List (Env × String),
        Outbox.accepted site.input.delayTable (entries site.input updates) =
          kept.map (entry site.input) ∧
        kept.Sublist (changes site.input.remap site.input.currentValue updates) ∧
        events (site.played updates clock).notified = kept.map Prod.snd := by
  obtain ⟨kept, hsublist, hkept⟩ := List.sublist_map_iff.mp
    (Outbox.accepted_sublist site.input.delayTable (entries site.input updates))
  have hupdated : InputSite.run { site with notified := [] }
        (updates.map (localUpdate site.input)) =
      ⟨{ site.input with
          currentValue := lastValue site.input.remap site.input.currentValue updates
          delayTable := Outbox.fill site.input.delayTable (entries site.input updates) }, site.page,
        (kept.map (entry site.input)).map waitSet⟩ := by
    rw [← hkept]
    exact @run_localUpdates { site with notified := [] } hdelays updates
  have hdrain := Outbox.drain_fill site.input.delayTable (entries site.input updates)
  rw [played, hupdated, waits_map_waitSet]
  obtain ⟨hvalue, hpage, hnotified⟩ := @run_waitEnds
    ⟨{ site.input with
        currentValue := lastValue site.input.remap site.input.currentValue updates
        delayTable := Outbox.fill site.input.delayTable (entries site.input updates) }, site.page,
      (kept.map (entry site.input)).map waitSet⟩ hdelays.status clock
    ((kept.map (entry site.input)).map Prod.fst)
  refine ⟨hvalue, hpage, kept, hkept, hsublist, ?_⟩
  rw [hnotified, events_append, events_map_waitSet, List.nil_append, ← hkept, hdrain, hkept,
    events_map_entry]

theorem getLast?_changes (remap : String → String) (current : String)
    (updates : List (Env × String)) :
    ((changes remap current updates).map Prod.snd).getLast?.getD current =
      lastValue remap current updates := by
  induction updates generalizing current with
  | nil => rfl
  | cons update rest ih =>
      rw [lastValue_cons, changes]
      split_ifs with hchange
      · rw [List.map_cons, List.getLast?_cons, Option.getD_some, ih]
      · rw [not_ne_iff.mp hchange, ih]

/-- Two keys of one input are equal exactly if they are of one second. -/
theorem nodup_entries_iff (input : BinaryInput) (all : List (Env × String)) :
    ((all.map (entry input)).map Prod.fst).Nodup ↔
      (all.map fun change => getasciitimecompact change.1.localtime).Nodup := by
  have hinjective : Function.Injective fun second => input.delay ++ "_" ++ input.name ++ "$" ++
      second := by
    intro left right heq
    have hchars := congrArg String.toList heq
    simp only [String.toList_append] at hchars
    exact String.toList_inj.mp (List.append_cancel_left hchars)
  have hkeys : (all.map (entry input)).map Prod.fst =
      (all.map fun change => getasciitimecompact change.1.localtime).map
        fun second => input.delay ++ "_" ++ input.name ++ "$" ++ second := by
    rw [List.map_map, List.map_map]
    rfl
  rw [hkeys, List.nodup_map_iff hinjective]

/-- An input with a delay settles, whatever the updates of its channel, exactly if no two
changes fall into one second and the last value is the one that its page shows already. -/
theorem settles_iff (site : InputSite) (hdelays : Delays site.input)
    (hidle : site.input.delayTable = SortedMap.empty) (updates : List (Env × String))
    (clock : String → Env) :
    site.Settles updates clock ↔
      ((changes site.input.remap site.input.currentValue updates).map
          fun change => getasciitimecompact change.1.localtime).Nodup ∧
        lastValue site.input.remap site.input.currentValue updates = site.page.value := by
  obtain ⟨hvalue, hpage, kept, hkept, hsublist, hevents⟩ := played_eq hdelays updates clock
  have hall : kept = changes site.input.remap site.input.currentValue updates ↔
      ((changes site.input.remap site.input.currentValue updates).map
        fun change => getasciitimecompact change.1.localtime).Nodup := by
    rw [← nodup_entries_iff site.input]
    have hself := Outbox.accepted_eq_self_iff site.input.delayTable (entries site.input updates)
    have hfree : ∀ item ∈ entries site.input updates,
        site.input.delayTable.contains item.1 = false := by
      intro item _
      rw [hidle]
      rfl
    rw [and_iff_left hfree, hkept] at hself
    rw [← entries, ← hself]
    constructor
    · rintro rfl
      rfl
    · intro heq
      apply hsublist.eq_of_length
      have hlength := congrArg List.length heq
      rwa [List.length_map, entries, List.length_map] at hlength
  constructor
  · intro h
    refine ⟨hall.mp (hsublist.eq_of_length ?_), ?_⟩
    · have hlength := congrArg List.length (hevents.symm.trans h.kept)
      rwa [List.length_map, List.length_map] at hlength
    · rw [← hvalue, ← h.page, hpage]
  · rintro ⟨hnodup, hlast⟩
    have hsame := hall.mpr hnodup
    refine ⟨hvalue, fun last hmem => ?_, by rw [hpage, hvalue, hlast], by rw [hevents, hsame]⟩
    rw [hevents, hsame] at hmem
    rw [hvalue, ← getLast?_changes, hmem, Option.getD_some]

/-- A switch that reports what it is set to five seconds later. -/
def lightSwitch : MParams where
  ty := "input"
  attributes := []
  path := some ("input",
    [⟨"status", "generic", "ON"⟩, ⟨"delay", "generic", "5"⟩, ⟨"input", "input", "gpio3"⟩])
  pathh := none

theorem delays_lightSwitch : Delays (start lightSwitch "LS_hall").input :=
  ⟨by decide +kernel, by decide +kernel⟩

def nightAt (second : ℕ) (hsecond : second < 60) : Env :=
  { firstNight with
    gettime := 11040 + second
    gettime_nonneg := by positivity
    localtime := { firstNight.localtime with sec := second, sec_le := by omega } }

/-- Switched on and off again, seconds apart. -/
def onAndOff : List (Env × String) :=
  [(nightAt 5 (by decide), "1"), (nightAt 7 (by decide), "1"), (nightAt 9 (by decide), "0")]

theorem settles_lightSwitch :
    (start lightSwitch "LS_hall").Settles onAndOff fun _ => firstNight :=
  (settles_iff (start lightSwitch "LS_hall") delays_lightSwitch rfl onAndOff
    fun _ => firstNight).mpr ⟨by decide +kernel, by decide +kernel⟩

/-- Switched on, the page still shows the old value; switched on and off again within one second,
the second change is lost. -/
theorem not_settles_lightSwitch :
    Delays (start lightSwitch "LS_hall").input ∧
      ¬(start lightSwitch "LS_hall").Settles [(firstNight, "1")] (fun _ => firstNight) ∧
      ¬(start lightSwitch "LS_hall").Settles [(firstNight, "1"), (firstNight, "0")]
        fun _ => firstNight := by
  refine ⟨⟨by decide +kernel, by decide +kernel⟩, fun h => ?_, fun h => ?_⟩
  · exact absurd h.page (by decide +kernel)
  · exact absurd h.kept (by decide +kernel)

end InputSite

end Hat
