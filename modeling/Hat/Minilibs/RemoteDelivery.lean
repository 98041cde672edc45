import Hat.Minilibs.MMessageQueue
import Hat.Minilibs.MParams
import Hat.Minilibs.MessageForm
import Hat.Minilibs.MessageReaders
import Hat.Minilibs.SubjectSet
import Mathlib.Data.List.Infix
import Mathlib.Logic.Relation

/-!
# Messages between agents

An agent notifies its observers of a message; one of them may stand for another agent, to which
it posts the message as text, and which notifies its own observers of what it reads.  Whatever
reaches an observer of any agent was notified by some agent, and on its way from agent to agent
it keeps its type, its subtype and its texts, but loses its lists.
-/

namespace Hat

open Hat.Hsrv

/-- Another agent, as the agent that posts to it knows it. -/
structure RemoteAgent where
  params : MParams
  name : String
  deriving DecidableEq

namespace MMessage

def remove (field : String) (message : MMessage) : MMessage :=
  { message with fields := message.fields.erase field }

end MMessage

namespace RemoteAgent

/-- The fields of a command that is executed by a relay. -/
def completeExec (remote : RemoteAgent) (m : MMessage) : MMessage :=
  if m.mtype = "cmd" ∧ m.getString "cmdname" = "cmdexec" then
    let m := m.add "source" (remote.params.get "relay")
    let m := if m.getString "value" = "" then m.add "value" (remote.params.get "command") else m
    (m.add "duration" (remote.params.get "cmdduration")).remove "comment"
  else m

/-- A reset is sent as the execution of another command. -/
def completeReset (remote : RemoteAgent) (m : MMessage) : MMessage :=
  if m.mtype = "cmd" ∧ m.getString "cmdname" = "reset" then
    ((((m.add "source" (remote.params.get "relay")).add "cmdname" "cmdexec").add "value"
      (remote.params.get "reset")).add "duration" (remote.params.get "resetduration")).remove
        "comment"
  else m

def messageComplete (agentname : String) (remote : RemoteAgent) (m : MMessage) : MMessage :=
  let language := remote.params.get "language"
  let m := if language ≠ "" then m.add "language" language else m
  remote.completeReset (remote.completeExec (m.add "agent" agentname))

/-- The text that is posted, unless nothing is. -/
def send (agentname : String) (remote : RemoteAgent) (m : MMessage) : Option String :=
  if remote.name = "none" ∨ remote.params.get "status" = "OFF" then none
  else
    let m := remote.messageComplete agentname m
    some (if remote.params.get "language" = "xml" then m.xmlEncode 1 else m.htmlPostEncode)

end RemoteAgent

namespace RestService

def isXmlstring (s : String) : Bool := decide ("xml version=".toList <:+: s.toList)

/-- The message that an agent reads from what is posted to its top. -/
def nonRestPOST (parse : String → List XmlNode) (body : String) : Option MMessage :=
  let msg := ((MMessage.mk2 "dummy" "*").add "method" "POST").add "url" "/"
  if isXmlstring body then (msg.add "language" "xml").xmlAppend parse (body ++ "\r\n")
  else some ((msg.add "language" "html").htmlAppend body)

end RestService

/-- What stands behind an observer: the names under which it is addressed, and the agent that it
posts to, if it is not a thread. -/
structure House.ObserverInfo (ι : Type*) where
  target : NameList
  remote : Option (RemoteAgent × ι)

/-- The agents with their observers, each of one agent. -/
structure House (ι O : Type*) where
  agentname : ι → String
  status : ι → Status
  subjects : ι → SubjectSet O
  info : O → House.ObserverInfo ι
  owner : O → ι
  owner_eq : ∀ i key observer, observer ∈ (subjects i).observersOf key → owner observer = i

/-- The queues of the observers, with what was notified by an agent on its own and what has ever
been put into a queue. -/
structure House.Traffic (ι O : Type*) where
  queue : O → List MMessage
  emitted : List (ι × MMessage)
  received : List (O × MMessage)

/-- An agent notifies a message, a thread takes one, or the next message of an observer is posted,
where it arrives or is lost. -/
inductive House.Move (ι O : Type*)
  | emit (i : ι) (m : MMessage)
  | take (observer : O)
  | post (observer : O) (arrives : Bool)

namespace House

variable {ι O : Type*} [DecidableEq O] (parse : String → List XmlNode) (house : House ι O)

/-- A message without targets is for every observer. -/
def matchTarget (target : NameList) (m : MMessage) : Bool :=
  let tg := m.getList "target"
  tg.length = 0 || tg.any target.member

def put (traffic : Traffic ι O) (m : MMessage) (observer : O) : Traffic ι O :=
  if matchTarget (house.info observer).target m then
    { traffic with
      queue := Function.update traffic.queue observer (traffic.queue observer ++ [m])
      received := traffic.received ++ [(observer, m)] }
  else traffic

def notify (i : ι) (m : MMessage) (traffic : Traffic ι O) : Traffic ι O :=
  ((house.subjects i).notify (house.status i) m.mtype m.msubtype).2.foldl
    (fun traffic observer => house.put traffic m observer) traffic

/-- The agent looks for a subject of the message before it notifies it. -/
def arrive (i : ι) (m : MMessage) (traffic : Traffic ι O) : Traffic ι O :=
  if (house.subjects i).contains (SubjectSet.key m.mtype m.msubtype) ||
      (house.subjects i).contains (SubjectSet.key m.mtype "*") then house.notify i m traffic
  else traffic

/-- What the queue of an observer gives, and the queues without it. -/
def receive (observer : O) (traffic : Traffic ι O) : Option (MMessage × Traffic ι O) :=
  (PriorityQueue.select MMessage.priority (traffic.queue observer)).map fun taken =>
    (taken.1, { traffic with queue := Function.update traffic.queue observer taken.2 })

/-- What the other agent reads of a message. -/
def relay (observer : O) (remote : RemoteAgent) (m : MMessage) : Option MMessage :=
  (remote.send (house.agentname (house.owner observer)) m).bind (RestService.nonRestPOST parse)

/-- One turn of the dispatcher, as far as the agent that is posted to. -/
def dispatch (observer : O) (arrives : Bool) (m : MMessage) (traffic : Traffic ι O) :
    Traffic ι O :=
  match (house.info observer).remote with
  | none => traffic
  | some (remote, other) =>
      if house.status (house.owner observer) = .on && arrives then
        match house.relay parse observer remote m with
        | some read => house.arrive other read traffic
        | none => traffic
      else traffic

def step (traffic : Traffic ι O) : Move ι O → Option (Traffic ι O)
  | .emit i m => some (house.notify i m { traffic with emitted := traffic.emitted ++ [(i, m)] })
  | .take observer => (receive observer traffic).map Prod.snd
  | .post observer arrives =>
      (receive observer traffic).map fun taken =>
        house.dispatch parse observer arrives taken.1 taken.2

end House

/-! ## One hop -/

/-- Inserting the images of all values over another map. -/
theorem SortedMap.find?_foldl_insert {κ ν μ : Type*} [LinearOrder κ] (f : ν → μ)
    (map : SortedMap κ ν) (start : SortedMap κ μ) (key : κ) :
    (map.entries.foldl (fun built entry => built.insert entry.1 (f entry.2)) start).find? key =
      ((map.find? key).map f).or (start.find? key) := by
  obtain ⟨entries, hsorted⟩ := map
  induction entries generalizing start with
  | nil => rfl
  | cons head rest ih =>
      obtain ⟨hhead, hrest⟩ := List.pairwise_cons.mp hsorted
      rw [List.foldl_cons, ih _ hrest, find?_insert]
      by_cases hkey : head.1 = key
      · have hnone : (SortedMap.mk rest hrest).find? key = none :=
          find?_eq_none fun entry hentry heq => (hhead entry hentry).ne (hkey.trans heq.symm)
        have hfind : (SortedMap.mk (head :: rest) hsorted).find? key = some head.2 := if_pos hkey
        rw [hnone, hfind, if_pos hkey]
        rfl
      · have hfind : (SortedMap.mk (head :: rest) hsorted).find? key =
            (SortedMap.mk rest hrest).find? key := if_neg hkey
        rw [hfind, if_neg hkey]

/-- What is left of a field that was sent as text. -/
def MstringList.emptied : MstringList → MstringList
  | mstring value => mstring value
  | mstringList _ => mstringList []

theorem MstringList.emptied_emptied (list : MstringList) : list.emptied.emptied = list.emptied := by
  cases list <;> rfl

namespace MMessage

theorem appended_encoded (list : MstringList) : list.encoded.appended = some list.emptied := by
  cases list <;> rfl

/-- What the reader of an encoded message has under a name. -/
theorem find?_xmlAppend {parse : String → List XmlNode} {text : String} {m into read : MMessage}
    (hparse : parse text = [.other, m.node]) (hread : into.xmlAppend parse text = some read) :
    read.mtype = m.mtype ∧ read.msubtype = m.msubtype ∧ ∀ field,
      read.fields.find? field =
        ((m.fields.find? field).map MstringList.emptied).or (into.fields.find? field) := by
  rw [xmlAppend, hparse] at hread
  rw [← Option.some.inj hread]
  refine ⟨rfl, rfl, fun field => ?_⟩
  have hchildren : m.node.children =
      m.fields.entries.map fun entry => entry.2.encoded.node entry.1 := by
    rw [node, XmlNode.children]
    apply List.map_congr_left
    rintro ⟨name, list⟩ -
    cases list <;> rfl
  have hstep : (fun fields (entry : String × MstringList) =>
      appendField fields (entry.2.encoded.node entry.1)) =
        fun fields entry => fields.insert entry.1 entry.2.emptied := by
    funext fields entry
    rw [appendField_node, appended_encoded]
  dsimp only
  rw [hchildren, List.foldl_map, hstep, SortedMap.find?_foldl_insert]

theorem find?_remove (field other : String) (m : MMessage) (hne : field ≠ other) :
    (m.remove field).fields.find? other = m.fields.find? other := by
  rw [remove, SortedMap.find?_erase, if_neg hne]

/-- The command of a relay, which is completed before it is posted. -/
def Rewrites (m : MMessage) : Prop :=
  m.mtype = "cmd" ∧ (m.getString "cmdname" = "cmdexec" ∨ m.getString "cmdname" = "reset")

instance : DecidablePred Rewrites := fun _ => inferInstanceAs (Decidable (_ ∧ _))

/-- The fields that belong to the way of a message. -/
def wayFields (m : MMessage) : List String :=
  ["method", "url", "language", "agent"] ++
    if m.Rewrites then ["source", "value", "duration", "comment", "cmdname"] else []

/-- The last message is what agents on the way have left of the first one. -/
structure Arrived (first last : MMessage) : Prop where
  mtype : last.mtype = first.mtype
  msubtype : last.msubtype = first.msubtype
  fields : ∀ field, field ∉ first.wayFields →
    last.fields.find? field = (first.fields.find? field).map MstringList.emptied

theorem getString_emptied (list : MstringList) :
    list.emptied.getString = list.getString ∨ list.emptied.getString = "" := by
  cases list with
  | mstring _ => exact Or.inl rfl
  | mstringList _ => exact Or.inr rfl

/-- A message that is no command of a relay does not become one. -/
theorem Arrived.rewrites {first last : MMessage} (h : Arrived first last)
    (hrewrites : last.Rewrites) : first.Rewrites := by
  by_contra hnot
  have hfield : "cmdname" ∉ first.wayFields := by
    rw [wayFields, if_neg hnot]
    decide
  have hfind := h.fields "cmdname" hfield
  have hstring : last.getString "cmdname" = first.getString "cmdname" ∨
      last.getString "cmdname" = "" := by
    rw [getString, getString, hfind]
    cases first.fields.find? "cmdname" with
    | none => exact Or.inl rfl
    | some list => exact getString_emptied list
  obtain ⟨hcmd, hname⟩ := hrewrites
  rcases hstring with hsame | hempty
  · rw [hsame] at hname
    exact hnot ⟨h.mtype ▸ hcmd, hname⟩
  · rw [hempty] at hname
    exact absurd hname (by decide)

theorem Arrived.wayFields_subset {first last : MMessage} (h : Arrived first last) :
    last.wayFields ⊆ first.wayFields := by
  rw [wayFields, wayFields]
  by_cases hlast : last.Rewrites
  · rw [if_pos hlast, if_pos (h.rewrites hlast)]
    exact List.Subset.refl _
  · rw [if_neg hlast, List.append_nil]
    exact List.subset_append_left _ _

/-- Several hops leave what one does. -/
theorem Arrived.trans {first middle last : MMessage} (h : Arrived first middle)
    (h' : Arrived middle last) : Arrived first last where
  mtype := h'.mtype.trans h.mtype
  msubtype := h'.msubtype.trans h.msubtype
  fields field hfield := by
    rw [h'.fields field fun hmem => hfield (h.wayFields_subset hmem), h.fields field hfield,
      Option.map_map]
    congr 1
    funext list
    exact list.emptied_emptied

/-- Nothing but the fields is changed. -/
structure KeptBut (fields : List String) (m changed : MMessage) : Prop where
  mtype : changed.mtype = m.mtype
  msubtype : changed.msubtype = m.msubtype
  find? : ∀ field, field ∉ fields → changed.fields.find? field = m.fields.find? field

section KeptBut

variable {fields : List String} {m changed other : MMessage}

theorem KeptBut.refl (fields : List String) (m : MMessage) : KeptBut fields m m :=
  ⟨rfl, rfl, fun _ _ => rfl⟩

theorem KeptBut.add (h : KeptBut fields m changed) {field : String} (hfield : field ∈ fields)
    (value : String) : KeptBut fields m (changed.add field value) where
  mtype := (mtype_add field value changed).trans h.mtype
  msubtype := (msubtype_add field value changed).trans h.msubtype
  find? name hname := by
    have hne : field ≠ name := ne_of_mem_of_not_mem hfield hname
    rw [find?_add_of_ne value changed hne, h.find? name hname]

theorem KeptBut.remove (h : KeptBut fields m changed) {field : String} (hfield : field ∈ fields) :
    KeptBut fields m (changed.remove field) where
  mtype := h.mtype
  msubtype := h.msubtype
  find? name hname := by
    have hne : field ≠ name := ne_of_mem_of_not_mem hfield hname
    rw [find?_remove field name changed hne, h.find? name hname]

theorem KeptBut.trans (h : KeptBut fields m changed) (h' : KeptBut fields changed other) :
    KeptBut fields m other where
  mtype := h'.mtype.trans h.mtype
  msubtype := h'.msubtype.trans h.msubtype
  find? field hfield := (h'.find? field hfield).trans (h.find? field hfield)

theorem KeptBut.mono (h : KeptBut fields m changed) {more : List String} (hmore : fields ⊆ more) :
    KeptBut more m changed where
  mtype := h.mtype
  msubtype := h.msubtype
  find? field hfield := h.find? field fun hmem => hfield (hmore hmem)

theorem KeptBut.getString (h : KeptBut fields m changed) {field : String}
    (hfield : field ∉ fields) : changed.getString field = m.getString field := by
  rw [MMessage.getString, MMessage.getString, h.find? field hfield]

end KeptBut

end MMessage

namespace RemoteAgent

open MMessage

variable (agentname : String) (remote : RemoteAgent) (m : MMessage)

theorem keptBut_completeExec :
    KeptBut ["source", "value", "duration", "comment"] m (remote.completeExec m) := by
  rw [completeExec]
  split
  · apply KeptBut.remove _ (by decide)
    apply KeptBut.add _ (by decide)
    split
    · apply KeptBut.add _ (by decide)
      exact (KeptBut.refl _ m).add (by decide) _
    · exact (KeptBut.refl _ m).add (by decide) _
  · exact KeptBut.refl _ m

theorem keptBut_completeReset :
    KeptBut ["source", "value", "duration", "comment", "cmdname"] m (remote.completeReset m) := by
  rw [completeReset]
  split
  · apply KeptBut.remove _ (by decide)
    apply KeptBut.add _ (by decide)
    apply KeptBut.add _ (by decide)
    apply KeptBut.add _ (by decide)
    exact (KeptBut.refl _ m).add (by decide) _
  · exact KeptBut.refl _ m

/-- Only the commands of a relay are rewritten. -/
theorem complete_of_not_rewrites (hnot : ¬m.Rewrites) :
    remote.completeReset (remote.completeExec m) = m := by
  have hexec : remote.completeExec m = m := if_neg fun h => hnot ⟨h.1, Or.inl h.2⟩
  rw [hexec]
  exact if_neg fun h => hnot ⟨h.1, Or.inr h.2⟩

theorem keptBut_messageComplete :
    KeptBut m.wayFields m (remote.messageComplete agentname m) := by
  have hnamed : KeptBut ["method", "url", "language", "agent"] m
      ((if remote.params.get "language" ≠ "" then
        m.add "language" (remote.params.get "language") else m).add "agent" agentname) := by
    apply KeptBut.add _ (by decide)
    split
    · exact (KeptBut.refl _ m).add (by decide) _
    · exact KeptBut.refl _ m
  rw [messageComplete]
  generalize (if remote.params.get "language" ≠ "" then
    m.add "language" (remote.params.get "language") else m).add "agent" agentname = named at *
  have hrewrites : named.Rewrites ↔ m.Rewrites := by
    rw [Rewrites, Rewrites, hnamed.mtype, hnamed.getString (by decide)]
  rw [wayFields]
  by_cases hm : m.Rewrites
  · rw [if_pos hm]
    apply (hnamed.mono (List.subset_append_left _ _)).trans
    apply KeptBut.trans ((remote.keptBut_completeExec named).mono (by decide))
    exact (remote.keptBut_completeReset _).mono (List.subset_append_right _ _)
  · rw [if_neg hm, remote.complete_of_not_rewrites named fun h => hm (hrewrites.mp h)]
    exact hnamed

theorem isXmlstring_xmlEncode : RestService.isXmlstring (m.xmlEncode 1) = true := by
  have hheader : "xml version=".toList <:+: "<?xml version=\"1.0\" ?>".toList :=
    ⟨"<?".toList, "\"1.0\" ?>".toList, by decide⟩
  apply decide_eq_true
  apply hheader.trans
  apply List.IsPrefix.isInfix
  simp only [xmlEncode, gt_iff_lt, one_pos, if_true, String.toList_append, List.append_assoc]
  exact List.prefix_append _ _

/-- The encoded message is read back as it was written. -/
def ReadBack (parse : String → List XmlNode) : Prop :=
  let sent := remote.messageComplete agentname m
  parse (sent.xmlEncode 1 ++ "\r\n") = [.other, sent.node]

theorem on_of_send {text : String} (hsend : remote.send agentname m = some text) :
    remote.name ≠ "none" ∧ remote.params.get "status" ≠ "OFF" := by
  rw [send] at hsend
  by_cases hoff : remote.name = "none" ∨ remote.params.get "status" = "OFF"
  · rw [if_pos hoff] at hsend
    exact absurd hsend.symm (Option.some_ne_none text)
  · exact not_or.mp hoff

/-- What another agent reads of a message that is sent as text of a document. -/
theorem arrived_of_send {parse : String → List XmlNode} {text : String} {read : MMessage}
    (hxml : remote.params.get "language" = "xml") (hback : remote.ReadBack agentname m parse)
    (hsend : remote.send agentname m = some text)
    (hread : RestService.nonRestPOST parse text = some read) : m.Arrived read := by
  rw [send] at hsend
  by_cases hoff : remote.name = "none" ∨ remote.params.get "status" = "OFF"
  · rw [if_pos hoff] at hsend
    exact absurd hsend.symm (Option.some_ne_none text)
  · rw [if_neg hoff] at hsend
    simp only [hxml, if_true, Option.some.injEq] at hsend
    rw [← hsend, RestService.nonRestPOST, if_pos (isXmlstring_xmlEncode _)] at hread
    obtain ⟨htype, hsubtype, hfields⟩ := find?_xmlAppend hback hread
    have hkept := remote.keptBut_messageComplete agentname m
    refine ⟨htype.trans hkept.mtype, hsubtype.trans hkept.msubtype, fun field hfield => ?_⟩
    have hown : ∀ name ∈ ["method", "url", "language", "agent"], name ≠ field := by
      intro name hname heq
      exact hfield (heq ▸ List.mem_append_left _ hname)
    rw [hfields field, hkept.find? field hfield, find?_add_of_ne _ _ (hown _ (by decide)),
      find?_add_of_ne _ _ (hown _ (by decide)), find?_add_of_ne _ _ (hown _ (by decide))]
    exact Option.or_none

end RemoteAgent

/-! ## Whatever is received -/

namespace House

open MMessage

variable {ι O : Type*} [DecidableEq O] {parse : String → List XmlNode} {house : House ι O}

/-- An agent that is on posts to another one. -/
def Posts (house : House ι O) (i j : ι) : Prop :=
  house.status i = .on ∧ ∃ observer remote, house.owner observer = i ∧
    (house.info observer).remote = some (remote, j) ∧
      remote.name ≠ "none" ∧ remote.params.get "status" ≠ "OFF"

/-- A message that an observer got is one that its agent notified by itself, for which it was
addressed, or what the way to its agent left of one that an agent on this way notified. -/
def Descends (house : House ι O) (emitted : List (ι × MMessage)) (got : O × MMessage) : Prop :=
  ∃ first ∈ emitted, (first.1 = house.owner got.1 ∧ got.2 = first.2 ∧
      matchTarget (house.info got.1).target first.2) ∨
    Relation.TransGen house.Posts first.1 (house.owner got.1) ∧ first.2.Arrived got.2

/-- All that is in a queue was put there, and all that was descends from something notified. -/
structure Sound (house : House ι O) (traffic : Traffic ι O) : Prop where
  descends : ∀ got ∈ traffic.received, house.Descends traffic.emitted got
  queued : ∀ observer, ∀ m ∈ traffic.queue observer, (observer, m) ∈ traffic.received

theorem Sound.put {traffic : Traffic ι O} (h : house.Sound traffic) {m : MMessage} {observer : O}
    (hdescends : matchTarget (house.info observer).target m →
      house.Descends traffic.emitted (observer, m)) :
    house.Sound (house.put traffic m observer) ∧
      (house.put traffic m observer).emitted = traffic.emitted := by
  rw [House.put]
  split
  · rename_i hmatch
    refine ⟨⟨?_, ?_⟩, rfl⟩
    · intro got hgot
      rcases List.mem_append.mp hgot with hold | hnew
      · exact h.descends got hold
      · rw [List.mem_singleton.mp hnew]
        exact hdescends hmatch
    · intro other kept hkept
      dsimp only at hkept
      apply List.mem_append.mpr
      by_cases hother : other = observer
      · rw [hother, Function.update_self, List.mem_append, List.mem_singleton] at hkept
        rw [hother, List.mem_singleton]
        exact hkept.imp (h.queued observer kept) fun heq => by rw [heq]
      · rw [Function.update_of_ne hother] at hkept
        exact Or.inl (h.queued other kept hkept)
  · exact ⟨h, rfl⟩

omit [DecidableEq O] in
theorem mem_notify {subjects : SubjectSet O} {status : Status} {type subtype : String}
    {observer : O} (hmem : observer ∈ (subjects.notify status type subtype).2) :
    ∃ key, observer ∈ subjects.observersOf key := by
  rw [SubjectSet.notify] at hmem
  split at hmem
  · exact absurd hmem List.not_mem_nil
  · obtain ⟨key, -, hobserver⟩ := List.mem_flatMap.mp hmem
    exact ⟨key, hobserver⟩

/-- An agent puts a message into queues of its own observers only. -/
theorem Sound.notify {traffic : Traffic ι O} (h : house.Sound traffic) {i : ι} {m : MMessage}
    (hdescends : ∀ observer, house.owner observer = i →
      matchTarget (house.info observer).target m →
        house.Descends traffic.emitted (observer, m)) : house.Sound (house.notify i m traffic) := by
  rw [House.notify]
  have howner : ∀ observer ∈ ((house.subjects i).notify (house.status i) m.mtype m.msubtype).2,
      house.owner observer = i := by
    intro observer hobserver
    obtain ⟨key, hkey⟩ := mem_notify hobserver
    exact house.owner_eq i key observer hkey
  generalize ((house.subjects i).notify (house.status i) m.mtype m.msubtype).2 = observers at *
  induction observers generalizing traffic with
  | nil => exact h
  | cons observer rest ih =>
      obtain ⟨hfirst, hrest⟩ := List.forall_mem_cons.mp howner
      obtain ⟨hput, hemitted⟩ := h.put (hdescends observer hfirst)
      rw [List.foldl_cons]
      apply ih hput _ hrest
      rw [hemitted]
      exact hdescends

theorem Sound.receive {traffic after : Traffic ι O} (h : house.Sound traffic) {observer : O}
    {m : MMessage} (hreceive : receive observer traffic = some (m, after)) :
    house.Sound after ∧ after.emitted = traffic.emitted ∧ (observer, m) ∈ traffic.received := by
  obtain ⟨taken, htaken, heq⟩ := Option.map_eq_some_iff.mp hreceive
  obtain ⟨hm, hafter⟩ := Prod.mk.inj heq
  have hready : (traffic.queue observer).length ≠ 0 := by
    intro hlength
    rw [List.length_eq_zero_iff.mp hlength] at htaken
    exact absurd htaken.symm (Option.some_ne_none taken)
  obtain ⟨v, hv, r, hselect⟩ := PriorityQueue.select_of_ready MMessage.priority hready
  rw [hselect, Option.some.injEq] at htaken
  rw [← htaken] at hm hafter
  rw [← hafter, ← hm]
  refine ⟨⟨h.descends, ?_⟩, rfl, h.queued observer v hv⟩
  intro other kept hkept
  dsimp only at hkept
  by_cases hother : other = observer
  · rw [hother, Function.update_self] at hkept
    rw [hother]
    exact h.queued observer kept (List.mem_of_mem_eraseIdx hkept)
  · rw [Function.update_of_ne hother] at hkept
    exact h.queued other kept hkept

/-- All agents are posted to in documents. -/
def AllXml (house : House ι O) : Prop :=
  ∀ observer remote other, (house.info observer).remote = some (remote, other) →
    remote.params.get "language" = "xml"

/-- What a move posts is read back as it was written. -/
def ReadsBack (parse : String → List XmlNode) (house : House ι O) (traffic : Traffic ι O) :
    Move ι O → Prop
  | .post observer _ => ∀ m after, receive observer traffic = some (m, after) →
      ∀ remote other, (house.info observer).remote = some (remote, other) →
        remote.ReadBack (house.agentname (house.owner observer)) m parse
  | _ => True

/-- What is posted is one hop further on its way. -/
theorem Sound.dispatch {traffic after : Traffic ι O} (h : house.Sound traffic)
    (hxml : house.AllXml) {observer : O} {arrives : Bool} {m : MMessage}
    (hreceive : House.receive observer traffic = some (m, after))
    (hback : house.ReadsBack parse traffic (.post observer arrives)) :
    house.Sound (house.dispatch parse observer arrives m after) := by
  obtain ⟨hafter, hemitted, hgot⟩ := h.receive hreceive
  rw [House.dispatch]
  cases hremote : (house.info observer).remote with
  | none => exact hafter
  | some target =>
      obtain ⟨remote, other⟩ := target
      dsimp only
      split
      · rename_i hon
        cases hrelay : house.relay parse observer remote m with
        | none => exact hafter
        | some read =>
            dsimp only
            obtain ⟨text, hsend, hread⟩ := Option.bind_eq_some_iff.mp hrelay
            have hhop := remote.arrived_of_send _ m (hxml observer remote other hremote)
              (hback m after hreceive remote other hremote) hsend hread
            have hposts : house.Posts (house.owner observer) other := by
              rw [Bool.and_eq_true, decide_eq_true_eq] at hon
              exact ⟨hon.1, observer, remote, rfl, hremote, remote.on_of_send _ m hsend⟩
            rw [arrive]
            split
            · apply hafter.notify
              intro next hnext _
              rw [hemitted]
              obtain ⟨first, hfirst, ⟨hown, hsame, -⟩ | ⟨hway, harrived⟩⟩ := h.descends _ hgot
              · have hway : Relation.TransGen house.Posts first.1 other := by
                  rw [hown]
                  exact .single hposts
                have harrived : first.2.Arrived read := by
                  rw [← hsame]
                  exact hhop
                exact ⟨first, hfirst, Or.inr ⟨hnext.symm ▸ hway, harrived⟩⟩
              · exact ⟨first, hfirst, Or.inr ⟨hnext.symm ▸ hway.tail hposts, harrived.trans hhop⟩⟩
            · exact hafter
      · exact hafter

/-- Before anything is notified. -/
def quiet : Traffic ι O := ⟨fun _ => [], [], []⟩

theorem Sound.step {traffic next : Traffic ι O} {move : Move ι O} (hxml : house.AllXml)
    (h : house.Sound traffic) (hback : house.ReadsBack parse traffic move)
    (hnext : house.step parse traffic move = some next) : house.Sound next := by
  cases move with
  | emit i m =>
      rw [House.step, Option.some.injEq] at hnext
      rw [← hnext]
      apply Sound.notify
      · refine ⟨fun got hgot => ?_, h.queued⟩
        obtain ⟨first, hfirst, hway⟩ := h.descends got hgot
        exact ⟨first, List.mem_append_left _ hfirst, hway⟩
      · intro observer howner hmatch
        exact ⟨(i, m), List.mem_append_right _ (List.mem_singleton_self _),
          Or.inl ⟨howner.symm, rfl, hmatch⟩⟩
  | take observer =>
      obtain ⟨⟨m, after⟩, hreceive, heq⟩ := Option.map_eq_some_iff.mp hnext
      rw [← heq]
      exact (h.receive hreceive).1
  | post observer arrives =>
      obtain ⟨⟨m, after⟩, hreceive, heq⟩ := Option.map_eq_some_iff.mp hnext
      rw [← heq]
      exact h.dispatch hxml hreceive hback

/-- In any order of notifying, taking, posting and losing messages, all that an observer ever
gets is a message of its own agent that it is addressed by, or what the hops have left of a
message that another agent notified, its targets no longer among it. -/
theorem descends_of_exec (hxml : house.AllXml) {moves : List (Move ι O)} {final : Traffic ι O}
    (hback : Machine.Along (house.step parse) (house.ReadsBack parse) quiet moves)
    (hexec : Machine.exec (house.step parse) quiet moves = some final) :
    ∀ got ∈ final.received, house.Descends final.emitted got := by
  have hquiet : house.Sound quiet :=
    ⟨fun got hgot => absurd hgot List.not_mem_nil, fun _ m hm => absurd hm List.not_mem_nil⟩
  exact ((Machine.always_of_along (fun _ _ _ h hreads hnext => h.step hxml hreads hnext) hquiet
    hback).last hexec).descends

/-- An agent that posts its lamps to another one, where a thread observes them. -/
def lampRemote : RemoteAgent :=
  ⟨⟨"remote", [⟨"language", "generic", "xml"⟩], none, none⟩, "Manager"⟩

def lampHouse : House Bool Bool where
  agentname agent := if agent then "Manager" else "Net"
  status _ := .on
  subjects agent := SortedMap.empty.insert (SubjectSet.key "status" "lamp") [agent]
  info observer :=
    if observer then ⟨["Player"], none⟩ else ⟨["Manager"], some (lampRemote, true)⟩
  owner := id
  owner_eq agent key observer hobserver := by
    rw [SubjectSet.observersOf, SortedMap.find?_insert] at hobserver
    split at hobserver
    · exact List.mem_singleton.mp hobserver
    · exact absurd hobserver List.not_mem_nil

def lampOn : MMessage :=
  ((MMessage.mk2 "status" "lamp").add "value" "1").addList "target" ["Manager"]

/-- The parser of the one text that is posted. -/
def lampParse : String → List XmlNode :=
  MMessage.readsOnly ((lampRemote.messageComplete "Net" lampOn).xmlEncode 1 ++ "\r\n")
    [.other, (lampRemote.messageComplete "Net" lampOn).node]

def lampMoves : List (Move Bool Bool) := [.emit false lampOn, .post false true]

/-- What is addressed to the manager reaches a thread of it that is no target. -/
theorem descends_of_exec_lampHouse :
    ∃ final, Machine.exec (lampHouse.step lampParse) quiet lampMoves = some final ∧
      final.received.map Prod.fst = [false, true] ∧
      ∀ got ∈ final.received, lampHouse.Descends final.emitted got := by
  have hxml : lampHouse.AllXml := by
    intro observer remote other hremote
    cases observer with
    | true => cases hremote
    | false =>
        rw [← (Prod.mk.inj (Option.some.inj hremote)).1]
        decide +kernel
  have htaken : (receive false (lampHouse.notify false lampOn
      { (quiet : Traffic Bool Bool) with emitted := [] ++ [(false, lampOn)] })).map Prod.fst =
        some lampOn := by decide +kernel
  have hread : lampRemote.ReadBack "Net" lampOn lampParse := by
    simp only [RemoteAgent.ReadBack, lampParse, MMessage.readsOnly, if_true]
  have hback : Machine.Along (lampHouse.step lampParse) (lampHouse.ReadsBack lampParse) quiet
      lampMoves := by
    refine ⟨trivial, fun next hnext => ⟨?_, fun _ _ => trivial⟩⟩
    intro m after hreceive remote other hremote
    rw [← Option.some.inj hnext] at hreceive
    have hm : m = lampOn := by
      apply Option.some.inj
      rw [← htaken]
      exact (congrArg (Option.map Prod.fst) hreceive).symm
    rw [hm, ← (Prod.mk.inj (Option.some.inj hremote)).1]
    exact hread
  have hreceived : (Machine.exec (lampHouse.step lampParse) quiet lampMoves).map
      (fun final => final.received.map Prod.fst) = some [false, true] := by decide +kernel
  obtain ⟨final, hexec, hfirst⟩ := Option.map_eq_some_iff.mp hreceived
  exact ⟨final, hexec, hfirst, descends_of_exec hxml hback hexec⟩

end House

end Hat
