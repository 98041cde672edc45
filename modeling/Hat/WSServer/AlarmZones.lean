import Hat.Core.Outbox
import Hat.WSServer.JParserRows
import Mathlib.Data.List.Pairwise

/-!
# The alarms of the zones

The program `ZONE` lists the sensors and the actions that are selected in the enabled zones.
One table for both says which names are listed already, so of a sensor and an action with one
name only the kind that is met first gets in.
-/

namespace Hat.AlarmZones

open Hat.Hsrv

/-- The template of the program, the files of the archive by their url, and the reader. -/
structure ZoneArchive where
  template : String
  getFile : String → String
  readJson : String → Option PTree

/-- The list of alarms and the table of names. -/
structure Listed where
  alist : NameList
  lookup : SortedMap String Bool

inductive Kind
  | sensor
  | action
  deriving DecidableEq

/-- The alarms of a sensor or an action. -/
def alarmsFor : String × Kind → NameList
  | (name, .sensor) => [name]
  | (name, .action) => [name ++ "_on", name ++ "_off"]

/-- A name that is in the table is passed over. -/
def add (listed : Listed) (selection : String × Kind) : Listed :=
  if listed.lookup.contains selection.1 then listed
  else ⟨listed.alist ++ alarmsFor selection, listed.lookup.insert selection.1 true⟩

def addRow (kind : Kind) (listed : Listed) (row : StringPair) : Listed :=
  if row.second = "true" then add listed (row.first, kind) else listed

def addSensor : Listed → StringPair → Listed := addRow .sensor

def addAction : Listed → StringPair → Listed := addRow .action

def alarmElements (alist : NameList) : String :=
  String.join (alist.map fun name => "<alarm name=\"" ++ name ++ "\"/>")

namespace ZoneArchive

variable (archive : ZoneArchive)

/-- The rows of the sensors and of the actions of a zone. -/
def zoneRows (zone : String) : Option (List StringPair × List StringPair) := do
  let tzpt ← archive.readJson
    (archive.getFile ("/program/programs/Alarm/Zones/" ++ zone ++ ".json"))
  let sensors ← tzpt.getChild "sensors"
  let sensorParse ← JParser.new2 "name" "selection_status" sensors
  let actions ← tzpt.getChild "actions"
  let actionParse ← JParser.new2 "name" "selection_status" actions
  pure (sensorParse, actionParse)

def addZone (listed : Listed) (zone : String) : Option Listed :=
  (archive.zoneRows zone).map fun rows =>
    rows.2.foldl addAction (rows.1.foldl addSensor listed)

def alarmsOf (zlist : NameList) : Option NameList :=
  (zlist.foldlM archive.addZone ⟨[], SortedMap.empty⟩).map Listed.alist

def enabledZones (zonesjs : String) : Option NameList := do
  let pt ← archive.readJson zonesjs
  let ptu ← pt.getChild "zones"
  let treeParse ← JParser.new2 "name" "enable_status" ptu
  pure ((treeParse.filter fun row => row.second = "true").map StringPair.first)

/-- The program for a list of enabled zones. -/
def programOf (zlist : NameList) : Option String :=
  (archive.alarmsOf zlist).map fun alist =>
    strReplace archive.template "$ALARMS" (alarmElements alist)

def zonesj2x (zonesjs : String) : Option String :=
  (archive.enabledZones zonesjs).bind archive.programOf

end ZoneArchive

/-- The names of a kind that are selected. -/
def selected (kind : Kind) (rows : List StringPair) : List (String × Kind) :=
  (rows.filter fun row => row.second = "true").map fun row => (row.first, kind)

namespace ZoneArchive

variable (archive : ZoneArchive)

def zoneSelections (zone : String) : Option (List (String × Kind)) :=
  (archive.zoneRows zone).map fun rows => selected .sensor rows.1 ++ selected .action rows.2

/-- What is selected in the zones, one after the other. -/
def selectionsOf (zlist : NameList) : Option (List (String × Kind)) :=
  (zlist.mapM archive.zoneSelections).map List.flatten

end ZoneArchive

/-- Each alarm of what is selected is listed once, and nothing else is. -/
structure ArmsOnce (selections : List (String × Kind)) (alist : NameList) : Prop where
  once : alist.Nodup
  mem_iff : ∀ name, name ∈ alist ↔ ∃ selection ∈ selections, name ∈ alarmsFor selection

/-- Each name with the kind under which it is met first. -/
def firstMet (selections : List (String × Kind)) : List (String × Kind) :=
  Outbox.accepted SortedMap.empty selections

theorem foldl_addRow (kind : Kind) (rows : List StringPair) (listed : Listed) :
    rows.foldl (addRow kind) listed = (selected kind rows).foldl add listed := by
  induction rows generalizing listed with
  | nil => rfl
  | cons row rest ih =>
      rw [List.foldl_cons, ih, selected, selected, addRow]
      by_cases hstatus : row.second = "true"
      · rw [if_pos hstatus, List.filter_cons_of_pos (by simpa using hstatus), List.map_cons,
          List.foldl_cons]
      · rw [if_neg hstatus, List.filter_cons_of_neg (by simpa using hstatus)]

theorem addZone_eq (archive : ZoneArchive) (zone : String) (listed : Listed) :
    archive.addZone listed zone =
      (archive.zoneSelections zone).map fun selections => selections.foldl add listed := by
  rw [ZoneArchive.addZone, ZoneArchive.zoneSelections, Option.map_map]
  refine congrArg (fun f => (archive.zoneRows zone).map f) (funext fun rows => ?_)
  rw [addSensor, addAction, foldl_addRow, foldl_addRow, Function.comp_apply, List.foldl_append]

/-- All zones are one walk over what is selected in them. -/
theorem foldlM_addZone (archive : ZoneArchive) (zlist : NameList) (listed : Listed) :
    zlist.foldlM archive.addZone listed =
      (archive.selectionsOf zlist).map fun selections => selections.foldl add listed := by
  induction zlist generalizing listed with
  | nil => rfl
  | cons zone rest ih =>
      rw [List.foldlM_cons, addZone_eq, ZoneArchive.selectionsOf, List.mapM_cons]
      cases archive.zoneSelections zone with
      | none => rfl
      | some first =>
          simp only [Option.map_some, Option.bind_eq_bind, Option.bind_some, ih,
            ZoneArchive.selectionsOf]
          cases rest.mapM archive.zoneSelections with
          | none => rfl
          | some others => simp

/-- The names that are listed are those of the first kind of each name. -/
theorem alist_foldl_add (selections : List (String × Kind)) (listed : Listed)
    {table : SortedMap String Kind}
    (htable : ∀ name, table.contains name = listed.lookup.contains name) :
    (selections.foldl add listed).alist =
      listed.alist ++ (Outbox.accepted table selections).flatMap alarmsFor := by
  induction selections generalizing listed table with
  | nil => exact (List.append_nil _).symm
  | cons selection rest ih =>
      rw [List.foldl_cons, Outbox.accepted, add, htable]
      by_cases hlisted : listed.lookup.contains selection.1 = true
      · rw [if_pos hlisted, if_pos hlisted, ih listed htable]
      · have hnext : ∀ name, (table.insertNew selection.1 selection.2).contains name =
            (listed.lookup.insert selection.1 true).contains name := by
          intro name
          rw [Bool.eq_iff_iff, SortedMap.contains_insertNew, SortedMap.contains_insert, htable]
        rw [if_neg hlisted, if_neg hlisted, ih _ hnext, List.flatMap_cons, List.append_assoc]

theorem alarmsOf_eq (archive : ZoneArchive) (zlist : NameList) :
    archive.alarmsOf zlist =
      (archive.selectionsOf zlist).map fun selections =>
        (firstMet selections).flatMap alarmsFor := by
  rw [ZoneArchive.alarmsOf, foldlM_addZone, Option.map_map]
  refine congrArg (fun f => (archive.selectionsOf zlist).map f) (funext fun selections => ?_)
  have hempty : ∀ name, (SortedMap.empty : SortedMap String Kind).contains name =
      (SortedMap.empty : SortedMap String Bool).contains name := fun name => rfl
  exact (alist_foldl_add selections ⟨[], SortedMap.empty⟩ hempty).trans (List.nil_append _)

/-- The exact condition. -/
structure Apart (selections : List (String × Kind)) : Prop where
  free : ∀ name, (name, Kind.action) ∈ firstMet selections →
    (name ++ "_on", Kind.sensor) ∉ firstMet selections ∧
      (name ++ "_off", Kind.sensor) ∉ firstMet selections
  sensor : ∀ name, (name, Kind.sensor) ∈ selections → (name, Kind.action) ∈ firstMet selections →
    ∃ other, (other, Kind.action) ∈ firstMet selections ∧
      (name = other ++ "_on" ∨ name = other ++ "_off")
  action : ∀ name, (name, Kind.action) ∈ selections → (name, Kind.sensor) ∈ firstMet selections →
    (name ++ "_on", Kind.sensor) ∈ firstMet selections ∧
      (name ++ "_off", Kind.sensor) ∈ firstMet selections

section

variable {selections : List (String × Kind)}

theorem mem_selections {selection : String × Kind} (h : selection ∈ firstMet selections) :
    selection ∈ selections :=
  (Outbox.accepted_sublist SortedMap.empty selections).subset h

theorem nodup_firstMet (selections : List (String × Kind)) :
    ((firstMet selections).map Prod.fst).Nodup :=
  (Outbox.nodup_accepted SortedMap.empty selections).1

theorem exists_firstMet {selection : String × Kind} (h : selection ∈ selections) :
    ∃ kind, (selection.1, kind) ∈ firstMet selections := by
  have hmet : ∃ other ∈ firstMet selections, other.1 = selection.1 :=
    Outbox.exists_mem_accepted h rfl
  obtain ⟨⟨_, kind⟩, hother, rfl⟩ := hmet
  exact ⟨kind, hother⟩

/-- A name has one first kind. -/
theorem kind_unique {name : String} {kind other : Kind} (h : (name, kind) ∈ firstMet selections)
    (hother : (name, other) ∈ firstMet selections) : kind = other :=
  congrArg Prod.snd (List.inj_on_of_nodup_map (nodup_firstMet selections) h hother rfl)

theorem append_right_inj {left right back : String} (h : left ++ back = right ++ back) :
    left = right := by
  have hchars := congrArg String.toList h
  rw [String.toList_append, String.toList_append] at hchars
  exact String.toList_inj.mp (List.append_cancel_right hchars)

theorem on_ne_off (left right : String) : left ++ "_on" ≠ right ++ "_off" := by
  intro h
  have hlast := congrArg (fun text : String => text.toList.getLast?) h
  simp at hlast

theorem mem_alarmsFor {name : String} {selection : String × Kind} :
    name ∈ alarmsFor selection ↔ selection = (name, .sensor) ∨
      ∃ other, selection = (other, .action) ∧ (name = other ++ "_on" ∨ name = other ++ "_off") := by
  obtain ⟨own, kind⟩ := selection
  cases kind with
  | sensor => simp [alarmsFor, eq_comm]
  | action => simp [alarmsFor]

/-- Two actions with an alarm in common are the same. -/
theorem action_unique {name first second : String}
    (hfirst : name = first ++ "_on" ∨ name = first ++ "_off")
    (hsecond : name = second ++ "_on" ∨ name = second ++ "_off") : first = second := by
  rcases hfirst with rfl | rfl
  · rcases hsecond with h | h
    · exact append_right_inj h
    · exact absurd h (on_ne_off first second)
  · rcases hsecond with h | h
    · exact absurd h.symm (on_ne_off second first)
    · exact append_right_inj h

theorem nodup_alarmsFor (selection : String × Kind) : (alarmsFor selection).Nodup := by
  obtain ⟨name, kind⟩ := selection
  cases kind with
  | sensor => exact List.nodup_singleton name
  | action => simp [alarmsFor]

/-- No alarm is listed twice exactly if no sensor that is listed has the name of an alarm of an
action that is listed. -/
theorem nodup_alarms_iff :
    ((firstMet selections).flatMap alarmsFor).Nodup ↔
      ∀ name, (name, Kind.action) ∈ firstMet selections →
        (name ++ "_on", Kind.sensor) ∉ firstMet selections ∧
          (name ++ "_off", Kind.sensor) ∉ firstMet selections := by
  rw [List.nodup_flatMap]
  constructor
  · rintro ⟨-, hpairs⟩ name haction
    have hapart : ∀ alarm, (alarm = name ++ "_on" ∨ alarm = name ++ "_off") →
        (alarm, Kind.sensor) ∉ firstMet selections := by
      intro alarm halarm hsensor
      have hsymm : Std.Symm (Function.onFun List.Disjoint alarmsFor) :=
        ⟨fun _ _ h _ ha hb => h hb ha⟩
      have hdisjoint := hpairs.forall haction hsensor (by simp)
      exact hdisjoint (mem_alarmsFor.mpr (Or.inr ⟨name, rfl, halarm⟩))
        (mem_alarmsFor.mpr (Or.inl rfl))
    exact ⟨hapart _ (Or.inl rfl), hapart _ (Or.inr rfl)⟩
  · intro hfree
    refine ⟨fun selection _ => nodup_alarmsFor selection, ?_⟩
    have hnames := List.pairwise_map.mp (nodup_firstMet selections)
    refine hnames.imp_of_mem fun {first second} hfirst hsecond hne alarm ha hb => ?_
    have hclash : ∀ name, (name, Kind.action) ∈ firstMet selections →
        (alarm = name ++ "_on" ∨ alarm = name ++ "_off") →
          (alarm, Kind.sensor) ∉ firstMet selections := by
      rintro name haction (rfl | rfl)
      · exact (hfree name haction).1
      · exact (hfree name haction).2
    rcases mem_alarmsFor.mp ha with rfl | ⟨name, rfl, hname⟩
    · rcases mem_alarmsFor.mp hb with rfl | ⟨other, rfl, hother⟩
      · exact hne rfl
      · exact hclash other hsecond hother hfirst
    · rcases mem_alarmsFor.mp hb with rfl | ⟨other, rfl, hother⟩
      · exact hclash name hfirst hname hsecond
      · exact hne (action_unique hname hother)

/-- What is listed is right exactly if the names that one kind keeps out are listed for the other
one. -/
theorem armsOnce_iff : ArmsOnce selections ((firstMet selections).flatMap alarmsFor) ↔
    Apart selections := by
  have hlisted : ∀ name, name ∈ (firstMet selections).flatMap alarmsFor ↔
      (name, Kind.sensor) ∈ firstMet selections ∨
        ∃ other, (other, Kind.action) ∈ firstMet selections ∧
          (name = other ++ "_on" ∨ name = other ++ "_off") := by
    intro name
    rw [List.mem_flatMap]
    constructor
    · rintro ⟨selection, hmem, halarm⟩
      rcases mem_alarmsFor.mp halarm with rfl | ⟨other, rfl, hname⟩
      · exact Or.inl hmem
      · exact Or.inr ⟨other, hmem, hname⟩
    · rintro (hmem | ⟨other, hmem, hname⟩)
      · exact ⟨_, hmem, mem_alarmsFor.mpr (Or.inl rfl)⟩
      · exact ⟨_, hmem, mem_alarmsFor.mpr (Or.inr ⟨other, rfl, hname⟩)⟩
  constructor
  · intro h
    refine ⟨nodup_alarms_iff.mp h.once, fun name hsensor haction => ?_,
      fun name haction hsensor => ?_⟩
    · have hname := (h.mem_iff name).mpr ⟨_, hsensor, mem_alarmsFor.mpr (Or.inl rfl)⟩
      rcases (hlisted name).mp hname with hfirst | hother
      · exact absurd (kind_unique hfirst haction) (by decide)
      · exact hother
    · have halarm : ∀ alarm, (alarm = name ++ "_on" ∨ alarm = name ++ "_off") →
          (alarm, Kind.sensor) ∈ firstMet selections := by
        intro alarm halarm
        have hmem := (h.mem_iff alarm).mpr
          ⟨_, haction, mem_alarmsFor.mpr (Or.inr ⟨name, rfl, halarm⟩)⟩
        rcases (hlisted alarm).mp hmem with hfirst | ⟨other, hfirst, hother⟩
        · exact hfirst
        · rw [action_unique hother halarm] at hfirst
          exact absurd (kind_unique hfirst hsensor) (by decide)
      exact ⟨halarm _ (Or.inl rfl), halarm _ (Or.inr rfl)⟩
  · intro h
    refine ⟨nodup_alarms_iff.mpr h.free, fun name => ?_⟩
    rw [hlisted]
    constructor
    · rintro (hfirst | ⟨other, hfirst, hname⟩)
      · exact ⟨_, mem_selections hfirst, mem_alarmsFor.mpr (Or.inl rfl)⟩
      · exact ⟨_, mem_selections hfirst, mem_alarmsFor.mpr (Or.inr ⟨other, rfl, hname⟩)⟩
    · rintro ⟨selection, hmem, halarm⟩
      obtain ⟨kind, hfirst⟩ := exists_firstMet hmem
      rcases mem_alarmsFor.mp halarm with rfl | ⟨other, rfl, hname⟩
      · cases kind with
        | sensor => exact Or.inl hfirst
        | action => exact Or.inr (h.sensor name hmem hfirst)
      · cases kind with
        | sensor =>
            obtain ⟨hon, hoff⟩ := h.action other hmem hfirst
            rcases hname with rfl | rfl
            · exact Or.inl hon
            · exact Or.inl hoff
        | action => exact Or.inr ⟨other, hfirst, hname⟩

/-- With no name in common, and no sensor named like an alarm of an action, everything is listed
as it should be. -/
theorem apart_of_disjoint
    (hnames : ∀ name, (name, Kind.sensor) ∈ selections → (name, Kind.action) ∉ selections)
    (halarms : ∀ name, (name, Kind.action) ∈ selections →
      (name ++ "_on", Kind.sensor) ∉ selections ∧ (name ++ "_off", Kind.sensor) ∉ selections) :
    Apart selections where
  free name haction :=
    ⟨fun h => (halarms name (mem_selections haction)).1 (mem_selections h),
      fun h => (halarms name (mem_selections haction)).2 (mem_selections h)⟩
  sensor name hsensor haction := absurd (mem_selections haction) (hnames name hsensor)
  action name haction hsensor := absurd haction (hnames name (mem_selections hsensor))

end

/-! ## Every order of the zones -/

namespace ZoneArchive

/-- For every order of the enabled zones their files can be read, and the program that is built
has each alarm once. -/
def Arms (archive : ZoneArchive) (zonesjs : String) : Prop :=
  ∃ zlist, archive.enabledZones zonesjs = some zlist ∧
    ∀ order, order.Perm zlist → ∃ selections alist,
      archive.selectionsOf order = some selections ∧
        archive.programOf order =
          some (strReplace archive.template "$ALARMS" (alarmElements alist)) ∧
        archive.alarmsOf order = some alist ∧ ArmsOnce selections alist

/-- The program lists what is selected, in every order of the zones, exactly if in every order
the names that sensors and actions share are listed for the other kind. -/
theorem arms_iff (archive : ZoneArchive) (zonesjs : String) :
    archive.Arms zonesjs ↔ ∃ zlist, archive.enabledZones zonesjs = some zlist ∧
      ∀ order, order.Perm zlist → ∃ selections,
        archive.selectionsOf order = some selections ∧ Apart selections := by
  refine exists_congr fun zlist => and_congr_right fun _ => forall₂_congr fun order _ => ?_
  refine exists_congr fun selections => ?_
  rw [exists_and_left]
  refine and_congr_right fun hselections => ?_
  rw [programOf, alarmsOf_eq, hselections, Option.map_some, ← armsOnce_iff]
  constructor
  · rintro ⟨alist, -, halist, harms⟩
    rwa [Option.some.inj halist]
  · exact fun harms => ⟨_, rfl, rfl, harms⟩

end ZoneArchive

/-- One zone with a sensor and an action of one name. -/
def sirenRows : PTree :=
  .node "" [("", .node "" [("name", .node "siren" []), ("selection_status", .node "true" [])])]

def zonesText : String :=
  "\x7b\"zones\":[\x7b\"name\":\"default\",\"enable_status\":\"true\"\x7d]\x7d"

def sirenText : String :=
  "\x7b\"sensors\":[\x7b\"name\":\"siren\",\"selection_status\":\"true\"\x7d]," ++
    "\"actions\":[\x7b\"name\":\"siren\",\"selection_status\":\"true\"\x7d]\x7d"

def sirenArchive : ZoneArchive where
  template := "<alarms>$ALARMS</alarms>"
  getFile url := if url = "/program/programs/Alarm/Zones/default.json" then sirenText else ""
  readJson text :=
    if text = zonesText then
      some (.node "" [("zones", .node ""
        [("", .node "" [("name", .node "default" []), ("enable_status", .node "true" [])])])])
    else if text = sirenText then
      some (.node "" [("sensors", sirenRows), ("actions", sirenRows)])
    else none

/-- The sensor keeps the action out. -/
theorem not_arms_siren :
    sirenArchive.zonesj2x zonesText = some "<alarms><alarm name=\"siren\"/></alarms>" ∧
      ¬sirenArchive.Arms zonesText := by
  refine ⟨by decide +kernel, ?_⟩
  rintro ⟨zlist, hzlist, h⟩
  have hzones : sirenArchive.enabledZones zonesText = some ["default"] := by decide +kernel
  rw [hzones, Option.some.injEq] at hzlist
  subst hzlist
  obtain ⟨selections, alist, hselections, -, halist, harms⟩ := h _ (List.Perm.refl _)
  have hsiren : sirenArchive.selectionsOf ["default"] =
      some [("siren", .sensor), ("siren", .action)] := by decide +kernel
  have hlisted : sirenArchive.alarmsOf ["default"] = some ["siren"] := by decide +kernel
  rw [hsiren, Option.some.injEq] at hselections
  rw [hlisted, Option.some.injEq] at halist
  subst hselections halist
  have hon := (harms.mem_iff "siren_on").mpr
    ⟨("siren", .action), by simp, mem_alarmsFor.mpr (Or.inr ⟨"siren", rfl, Or.inl rfl⟩)⟩
  exact absurd hon (by decide)

end Hat.AlarmZones
