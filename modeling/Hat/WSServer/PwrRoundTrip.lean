import Hat.Core.Overwrite
import Hat.WSServer.PwrOrder

/-!
# Lists that come back

The texts of the numbers increase up to nine, and the text of ten comes before that of nine.
A posted list comes back as it was if it is not longer than that and the controls can keep
what is posted.
-/

namespace Hat

open Hat.Hsrv

namespace PwrManager

/-- A list that is posted and asked for again. -/
structure RoundTrip extends Posting where
  /-- The text of the page that the controller gives after the post. -/
  queue : String
  page : PTree
  list : PTree
  downloaded : readJson queue = some page
  listed_page : page.getChild "list" = some list
  /-- The page shows the name, the priority and the status of every control. -/
  shows : (loads list).Perm (toPosting.after.map Control.descriptor)

/-- The text of the answer for a list of names and states. -/
def listAnswer (par : MParams) (posted : List (String × String)) : String :=
  strReplace (par.get "get_answer_template") "$BODY" (",".intercalate (posted.map entryText))

theorem mkAnswer_eq (par : MParams) (devices : List DeviceDescriptor) :
    mkAnswer par devices = listAnswer par (devices.map entry) := by
  rw [mkAnswer, listAnswer, List.map_map]
  rfl

namespace RoundTrip

variable (p : RoundTrip)

/-- Every list of the category that may be answered has the posted devices in the posted order
with their states, and there is an answer. -/
def Returns : Prop :=
  ∀ params : List String, categoryOf params = p.category →
    (∃ devices answer, ExecGet p.readJson p.par p.queue params devices answer) ∧
      ∀ devices answer, ExecGet p.readJson p.par p.queue params devices answer →
        devices.map entry = p.posted ∧ answer = listAnswer p.par p.posted

/-- What a posted list needs to come back. -/
structure Fits : Prop where
  short : p.posted.length ≤ 9
  states : ∀ row ∈ p.posted, row.2 = "true" ∨ row.2 = "false"
  named : p.Named
  priorities : ∀ row ∈ p.posted.tail, p.Keeps row.1 "priority"
  statuses : ∀ row ∈ p.posted, row.2 = "true" → p.Keeps row.1 "status"

variable {p}

theorem perm_listed : (getDevices p.category p.list).Perm p.listed := by
  rw [getDevices_eq, Posting.listed]
  exact p.shows.filter _

theorem execGet_iff {params : List String} (hparams : categoryOf params = p.category)
    (devices : List DeviceDescriptor) (answer : String) :
    ExecGet p.readJson p.par p.queue params devices answer ↔
      IsArrangement DeviceDescriptor.priority p.listed devices ∧
        answer = mkAnswer p.par devices := by
  constructor
  · rintro ⟨rpt, pt, hread, hlist, hsorts, hanswer⟩
    obtain rfl : p.page = rpt := Option.some.inj (p.downloaded.symm.trans hread)
    obtain rfl : p.list = pt := Option.some.inj (p.listed_page.symm.trans hlist)
    rw [hparams] at hsorts
    exact ⟨hsorts.of_perm perm_listed, hanswer⟩
  · rintro ⟨hsorts, hanswer⟩
    refine ⟨p.page, p.list, p.downloaded, p.listed_page, ?_, hanswer⟩
    rw [hparams]
    exact hsorts.of_perm perm_listed.symm

theorem returns_iff : p.Returns ↔
    ∀ devices, IsArrangement DeviceDescriptor.priority p.listed devices →
      devices.map entry = p.posted := by
  constructor
  · intro h devices hsorts
    exact ((h p.params rfl).2 devices _ ((execGet_iff rfl devices _).mpr ⟨hsorts, rfl⟩)).1
  · intro h params hparams
    constructor
    · obtain ⟨devices, hsorts⟩ := exists_arrangement DeviceDescriptor.priority p.listed
      exact ⟨devices, _, (execGet_iff hparams devices _).mpr ⟨hsorts, rfl⟩⟩
    · intro devices answer hget
      obtain ⟨hsorts, hanswer⟩ := (execGet_iff hparams devices answer).mp hget
      have hentries := h devices hsorts
      exact ⟨hentries, by rw [hanswer, mkAnswer_eq, hentries]⟩

/-- A list without a name twice cannot come from controls of one name. -/
theorem named_of_returns (h : p.Returns) : p.Named := by
  obtain ⟨devices, hsorts⟩ := exists_arrangement DeviceDescriptor.priority p.listed
  have hentries := returns_iff.mp h devices hsorts
  have hnames : devices.map DeviceDescriptor.name = p.posted.map Prod.fst := by
    rw [← hentries, List.map_map]
    rfl
  have hlisted : p.listed.map DeviceDescriptor.name =
      p.owned.map fun control => control.params.get "name" := by
    rw [Posting.listed_eq, List.map_map]
    exact Selection.map_key_changeEach Control.get_name_ordered _ _
  rw [Posting.Named, ← hlisted, ← (hsorts.perm.map DeviceDescriptor.name).nodup_iff, hnames]
  exact p.distinct

theorem nodup_shown : p.shown.Nodup := by
  apply List.Nodup.of_map DeviceDescriptor.name
  rw [Posting.map_name_shown]
  exact p.distinct

/-- The list comes back when what the page shows says the same, and its numbers increase. -/
theorem returns_iff_increasing (hnamed : p.Named) : p.Returns ↔
    p.shown.map entry = p.posted ∧
      p.shown.Pairwise fun device other => device.priority < other.priority := by
  rw [returns_iff]
  have hperm := Posting.perm_shown hnamed
  constructor
  · intro h
    have hone : ∀ devices, IsArrangement DeviceDescriptor.priority p.shown devices →
        devices = p.shown := by
      intro devices hsorts
      have hentries := h devices (hsorts.of_perm hperm.symm)
      have hnames : devices.map DeviceDescriptor.name = p.shown.map DeviceDescriptor.name := by
        rw [Posting.map_name_shown, ← hentries, List.map_map]
        rfl
      refine eq_of_perm_of_map_eq hsorts.perm ?_ hnames
      rw [Posting.map_name_shown]
      exact p.distinct
    obtain ⟨devices, hsorts⟩ := exists_arrangement DeviceDescriptor.priority p.shown
    have hentries := h devices (hsorts.of_perm hperm.symm)
    rw [hone devices hsorts] at hentries
    exact ⟨hentries, (forall_arrangement_eq_iff nodup_shown).mp hone⟩
  · rintro ⟨hentries, hincreasing⟩ devices hsorts
    rw [(hsorts.of_perm hperm).eq_of_increasing hincreasing, hentries]

/-! ## What the page says of the states and of the places -/

/-- A state comes back if it is one of the two and the control has kept it. -/
theorem entry_eq_iff (name status priority : String) (kept : Prop) [Decidable kept] :
    entry ⟨name, priority, if kept then onOff status else ""⟩ = (name, status) ↔
      (status = "true" ∨ status = "false") ∧ (status = "true" → kept) := by
  rw [entry, Prod.mk.injEq, and_iff_right rfl, enableStatus, onOff]
  by_cases hstatus : status = "true"
  · subst hstatus
    by_cases hkept : kept
    · simp [hkept]
    · simp [hkept]
  · have hoff : ¬ (if kept then if status = "true" then "ON" else "OFF" else "") = "ON" := by
      rw [if_neg hstatus]
      split <;> decide
    rw [if_neg hoff, or_iff_right hstatus]
    exact ⟨fun h => ⟨h.symm, fun htrue => absurd htrue hstatus⟩, fun h => h.1.symm⟩

theorem map_entry_shown_iff : p.shown.map entry = p.posted ↔
    (∀ row ∈ p.posted, row.2 = "true" ∨ row.2 = "false") ∧
      ∀ row ∈ p.posted, row.2 = "true" → p.Keeps row.1 "status" := by
  have hentries : p.shown.map entry = p.posted.map fun row =>
      entry ⟨row.1, "", if p.Keeps row.1 "status" then onOff row.2 else ""⟩ := by
    rw [Posting.shown]
    refine map_mapIdx (fun i row => ?_) p.posted
    rfl
  rw [hentries, ← forall₂_and]
  conv => lhs; rhs; rw [← List.map_id p.posted]
  rw [List.map_inj_left]
  exact forall₂_congr fun row _ => entry_eq_iff row.1 row.2 "" _

theorem forall_mem_tail_iff {α : Type*} {P : α → Prop} {xs : List α} :
    (∀ x ∈ xs.tail, P x) ↔ ∀ j (hj : j < xs.length), 0 < j → P xs[j] := by
  cases xs with
  | nil => simp
  | cons x rest =>
      rw [List.tail_cons, List.forall_mem_iff_getElem]
      constructor
      · intro h j hj hpos
        cases j with
        | zero => exact absurd hpos (lt_irrefl 0)
        | succ i => exact h i (Nat.lt_of_succ_lt_succ hj)
      · intro h i hi
        exact h (i + 1) (Nat.succ_lt_succ hi) i.succ_pos

/-- The numbers increase up to nine, if all but the first of them are kept. -/
theorem increasing_iff :
    (p.shown.Pairwise fun device other => device.priority < other.priority) ↔
      p.posted.length ≤ 9 ∧ ∀ row ∈ p.posted.tail, p.Keeps row.1 "priority" := by
  have hlength : p.shown.length = p.posted.length := List.length_mapIdx
  rw [List.pairwise_iff_getElem, forall_mem_tail_iff]
  constructor
  · intro h
    have hkeeps : ∀ j (hj : j < p.posted.length), 0 < j →
        p.Keeps (p.posted[j]).1 "priority" := by
      intro j hj hpos
      by_contra hnot
      have hlt := h 0 j (by omega) (by omega) hpos
      simp only [Posting.shown, List.getElem_mapIdx, if_neg hnot] at hlt
      exact not_lt_empty _ hlt
    refine ⟨?_, hkeeps⟩
    by_contra hlong
    -- The ninth and the tenth device have kept their numbers, which are out of order.
    have hlt := h 8 9 (by omega) (by omega) (by omega)
    have height := hkeeps 8 (by omega) (by omega)
    have hnine := hkeeps 9 (by omega) (by omega)
    simp only [Posting.shown, List.getElem_mapIdx, if_pos height, if_pos hnine] at hlt
    exact not_place_lt hlt
  · rintro ⟨hshort, hkeeps⟩ i j hi hj hij
    rw [hlength] at hi hj
    have hkept := hkeeps j hj (by omega)
    simp only [Posting.shown, List.getElem_mapIdx, if_pos hkept]
    split
    · exact place_lt_place j (by omega) i hij
    · exact empty_lt_place j (by omega)

/-- A posted list comes back as it was exactly when it has at most nine devices, its states are
`true` and `false`, the names of the controls differ, and the controls can keep what is posted. -/
theorem returns_iff_fits (p : RoundTrip) : p.Returns ↔ p.Fits := by
  constructor
  · intro h
    have hnamed := named_of_returns h
    obtain ⟨hentries, hincreasing⟩ := (returns_iff_increasing hnamed).mp h
    obtain ⟨hstates, hstatuses⟩ := map_entry_shown_iff.mp hentries
    obtain ⟨hshort, hpriorities⟩ := increasing_iff.mp hincreasing
    exact ⟨hshort, hstates, hnamed, hpriorities, hstatuses⟩
  · intro h
    refine (returns_iff_increasing h.named).mpr ⟨?_, ?_⟩
    · exact map_entry_shown_iff.mpr ⟨h.states, h.statuses⟩
    · exact increasing_iff.mpr ⟨h.short, h.priorities⟩

end RoundTrip

/-- The message that the text of a command stands for. -/
def message (order : DeviceOrder) : MMessage :=
  ((((MMessage.mk2 "cmd" "setcontrol").add "name" order.name).add "priority" order.priority).add
    "status" (onOff order.status)).add "url" "/cmd/setcontrol"

theorem setControl_message (order : DeviceOrder) : SetControl (message order) order := by
  have hnew : ∀ field, (MMessage.mk2 "cmd" "setcontrol").fields.find? field = none :=
    fun _ => SortedMap.find?_empty _
  have hfresh : ∀ {m : MMessage} {field : String}, m.fields.find? field = none →
      ∀ items, m.fields.find? field ≠ some (.mstringList items) := by
    intro m field hnone items hsome
    rw [hnone] at hsome
    exact Option.some_ne_none _ hsome.symm
  constructor
  · rw [message, MMessage.getString_add_of_ne _ _ (by decide),
      MMessage.getString_add_of_ne _ _ (by decide), MMessage.getString_add_of_ne _ _ (by decide)]
    exact MMessage.getString_add_self _ _ _ (hfresh (hnew "name"))
  · rw [message, MMessage.getString_add_of_ne _ _ (by decide),
      MMessage.getString_add_of_ne _ _ (by decide)]
    refine MMessage.getString_add_self _ _ _ (hfresh ?_)
    rw [MMessage.find?_add_of_ne _ _ (by decide), hnew]
  · rw [message, MMessage.getString_add_of_ne _ _ (by decide)]
    refine MMessage.getString_add_self _ _ _ (hfresh ?_)
    rw [MMessage.find?_add_of_ne _ _ (by decide), MMessage.find?_add_of_ne _ _ (by decide), hnew]
  · intro field hfield
    have hother : ∀ known ∈ ["name", "priority", "status", "url"], known ≠ field := by
      revert field
      decide
    rw [message, MMessage.getString_add_of_ne _ _ (hother "url" (by decide)),
      MMessage.getString_add_of_ne _ _ (hother "status" (by decide)),
      MMessage.getString_add_of_ne _ _ (hother "priority" (by decide)),
      MMessage.getString_add_of_ne _ _ (hother "name" (by decide)), MMessage.getString, hnew]

/-- An entry of the page for a load. -/
def pageItem (device : DeviceDescriptor) : String × PTree :=
  ("", .node "" [(device.name, .node "" [("type", .node "load" []),
    ("device", .node device.name []), ("status", .node device.status []),
    ("priority", .node device.priority [])])])

def pageList (devices : List DeviceDescriptor) : PTree := .node "" (devices.map pageItem)

/-- Such a page shows the loads it is made of. -/
theorem loads_pageList (devices : List DeviceDescriptor) : loads (pageList devices) = devices := by
  rw [pageList, loads]
  generalize (PTree.node "" (devices.map pageItem)) = pt
  induction devices with
  | nil => rfl
  | cons device rest ih =>
      rw [List.map_cons, pageItem, loadsFrom, ih, if_neg (by simp)]
      simp [loads, loadsFrom, description, lastValue, PTree.children, PTree.data]

def tenPosted : List (String × String) :=
  (List.range 10).map fun i => ("SA_" ++ toString i, "true")

def tenControls : ControlSet :=
  tenPosted.map fun row => Control.new ⟨row.1, [⟨"name", "generic", row.1⟩,
    ⟨"status", "generic", "ON"⟩, ⟨"priority", "generic", "0"⟩], none, none⟩

/-- The loads with their places, as the page shows them after the post. -/
def tenDevices : List DeviceDescriptor :=
  (List.range 10).map fun i => ⟨"SA_" ++ toString i, place i, "ON"⟩

/-- A template with the three places in this order is filled in. -/
theorem setDeviceStatus_eq {par : MParams} {first second third last : String}
    (hpar : par.get "set_device_cmd" =
      first ++ "$NAME" ++ (second ++ "$PRIORITY" ++ (third ++ "$STATUS" ++ last)))
    {order : DeviceOrder} (hfirst : '$' ∉ (first ++ order.name ++ second).toList)
    (hsecond : '$' ∉ (first ++ order.name ++ second ++ order.priority ++ third).toList) :
    setDeviceStatus par order =
      first ++ order.name ++
        (second ++ order.priority ++ (third ++ onOff order.status ++ last)) := by
  have hfront : '$' ∉ first.toList := by
    intro hmem
    rw [String.toList_append, String.toList_append] at hfirst
    exact hfirst (List.mem_append_left _ (List.mem_append_left _ hmem))
  rw [setDeviceStatus, hpar, strReplace_append rfl hfront]
  have hpriority := strReplace_append (show "$PRIORITY".toList = '$' :: _ from rfl) hfirst
    order.priority (third ++ "$STATUS" ++ last)
  have hstatus := strReplace_append (show "$STATUS".toList = '$' :: _ from rfl) hsecond
    (onOff order.status) last
  simp only [String.append_assoc] at hpriority hstatus ⊢
  rw [hpriority, hstatus]

/-- The template of the configuration, cut at the places where the values go. -/
def nameOpen : String :=
  "<?xml version=\"1.0\" ?><message type=\"cmd\" subtype=\"setcontrol\">" ++
    "<field name=\"name\" value=\""

def priorityOpen : String := "\"/><field name=\"priority\" value=\""

def statusOpen : String := "\"/><field name=\"status\" value=\""

def urlField : String := "\"/><field name=\"url\" value=\"/cmd/setcontrol\"/></message>"

def pwrPar : MParams :=
  ⟨"pwrmanager", [⟨"set_device_cmd", "generic", nameOpen ++ "$NAME" ++
    (priorityOpen ++ "$PRIORITY" ++ (statusOpen ++ "$STATUS" ++ urlField))⟩], none, none⟩

def postText (posted : List (String × String)) : String :=
  "\x7b\"devices\":[" ++ ",".intercalate (posted.map entryText) ++ "]\x7d"

def postTree (posted : List (String × String)) : PTree :=
  .node "" [("devices", .node "" (posted.map fun row => ("", .node "" [("name", .node row.1 []),
    ("enable_status", .node row.2 [])])))]

def itemText (device : DeviceDescriptor) : String :=
  "\x7b\"" ++ device.name ++ "\":\x7b\"type\":\"load\",\"device\":\"" ++ device.name ++
    "\",\"status\":\"" ++ device.status ++ "\",\"priority\":" ++ device.priority ++ "\x7d\x7d"

def pageText (devices : List DeviceDescriptor) : String :=
  "\x7b\"list\": [" ++ ",".intercalate (devices.map itemText) ++ "]\x7d"

def tenJson (text : String) : Option PTree :=
  if text = postText tenPosted then some (postTree tenPosted)
  else if text = pageText tenDevices then some (.node "" [("list", pageList tenDevices)])
  else none

theorem tenJson_page : tenJson (pageText tenDevices) =
    some (.node "" [("list", pageList tenDevices)]) := by
  have hne : pageText tenDevices ≠ postText tenPosted := by decide +kernel
  rw [tenJson, if_neg hne, if_pos rfl]

def tenDecode (text : String) : Option MMessage :=
  ((orders tenPosted).find? fun order => setDeviceStatus pwrPar order = text).map message

theorem setDeviceStatus_ten {order : DeviceOrder} (horder : order ∈ orders tenPosted) :
    setDeviceStatus pwrPar order = nameOpen ++ order.name ++
      (priorityOpen ++ order.priority ++ (statusOpen ++ onOff order.status ++ urlField)) := by
  have htemplate : pwrPar.get "set_device_cmd" = nameOpen ++ "$NAME" ++
      (priorityOpen ++ "$PRIORITY" ++ (statusOpen ++ "$STATUS" ++ urlField)) := by
    decide +kernel
  have hopen :
      '$' ∉ nameOpen.toList ∧ '$' ∉ priorityOpen.toList ∧ '$' ∉ statusOpen.toList := by
    decide +kernel
  have hvalues : ∀ order ∈ orders tenPosted,
      '$' ∉ order.name.toList ∧ '$' ∉ order.priority.toList := by
    decide +kernel
  apply setDeviceStatus_eq htemplate
  · simp [String.toList_append, hopen, hvalues order horder]
  · simp [String.toList_append, hopen, hvalues order horder]

/-- The texts of the commands differ in the names. -/
theorem nodup_commands_ten : ((orders tenPosted).map (setDeviceStatus pwrPar)).Nodup := by
  have hnames : ((orders tenPosted).map DeviceOrder.name).Nodup := by decide +kernel
  have hlength : ∀ order ∈ orders tenPosted, order.name.toList.length = 4 := by decide +kernel
  refine List.Nodup.map_on (fun order horder other hother heq => ?_) (List.Nodup.of_map _ hnames)
  rw [setDeviceStatus_ten horder, setDeviceStatus_ten hother] at heq
  have hchars := congrArg String.toList heq
  simp only [String.toList_append, List.append_assoc, List.append_right_inj] at hchars
  have hname := (List.append_inj hchars
    ((hlength order horder).trans (hlength other hother).symm)).1
  exact List.inj_on_of_nodup_map hnames horder hother (String.toList_inj.mp hname)

theorem tenDecode_eq {order : DeviceOrder} (horder : order ∈ orders tenPosted) :
    tenDecode (setDeviceStatus pwrPar order) = some (message order) := by
  have hnodup := nodup_commands_ten
  have hfind := (find?_eq_some_iff_of_nodup (setDeviceStatus pwrPar) hnodup order).mpr horder
  rw [tenDecode, hfind, Option.map_some]

def tenPosting : Posting where
  par := pwrPar
  devCategories := ["SA"]
  readJson := tenJson
  params := ["SA"]
  body := postText tenPosted
  posted := tenPosted
  replies := fun _ => "done"
  decode := tenDecode
  controls := tenControls
  member := by decide +kernel
  read := by
    rw [postedOf, tenJson, if_pos rfl]
    decide +kernel
  distinct := by decide +kernel
  of_category := by decide +kernel
  covers := by decide +kernel
  controlled := by decide +kernel
  decoded := fun order horder => ⟨message order, tenDecode_eq horder, setControl_message order⟩

theorem readJson_tenPosting : tenPosting.readJson = tenJson := rfl

theorem after_tenPosting : tenPosting.after.map Control.descriptor = tenDevices := by
  rw [Posting.after_eq]
  decide +kernel

/-- Ten loads are switched on in order and asked for again. -/
def tenLoads : RoundTrip where
  toPosting := tenPosting
  queue := pageText tenDevices
  page := .node "" [("list", pageList tenDevices)]
  list := pageList tenDevices
  downloaded := by rw [readJson_tenPosting, tenJson_page]
  listed_page := by simp [PTree.getChild, PTree.children]
  shows := by
    rw [loads_pageList, after_tenPosting]

/-- The tenth load comes back as the second. -/
theorem not_returns_tenLoads : ¬ tenLoads.Returns := by
  intro h
  obtain ⟨_, hincreasing⟩ :=
    (RoundTrip.returns_iff_increasing (RoundTrip.named_of_returns h)).mp h
  have hshort := (RoundTrip.increasing_iff.mp hincreasing).1
  exact absurd hshort (by decide)

end PwrManager

end Hat
