import Hat.Core.ReplaceLoop
import Hat.Minilibs.MMessage
import Hat.Minilibs.StrReplace
import Hat.MqttBBDevices.DeviceTemplate

/-!
# Fields that are filled into templates

The configurator makes an item, and an agent a device, from a template and a message.  The
fields of the message whose names start with `$` are filled in one after the other, in the
order of their names.
-/

namespace Hat

open Hat.Hsrv

/-- The loop over `strReplace`, with the turns it may take. -/
def replaceLoop (turns : ℕ) (oldvalue newvalue description : String) : Option String :=
  WhileLoop.run (fun description =>
    if finds description oldvalue then .next (strReplace description oldvalue newvalue) else .exit)
    turns description

/-- The loops over the fields. -/
def replaceFields (turns : ℕ) : List (String × String) → String → Option String
  | [], description => some description
  | (oldvalue, newvalue) :: rest, description =>
      (replaceLoop turns oldvalue newvalue description).bind (replaceFields turns rest)

/-- The fields of a message that are filled in. -/
def placeholders (m : MMessage) : List (String × String) :=
  (m.fields.entries.filter fun field => field.1.toList.head? = some '$').map
    fun field => (field.1, field.2.getString)

def templateText (file : String) : String :=
  String.ofList (DeviceTemplate.readTemplate file.toList)

def Configurator.itemName (m : MMessage) : String :=
  if m.getString "name" = "" then m.getString "$NAME" else m.getString "name"

def Configurator.itemPath (configdir : String) (m : MMessage) (path : String) : String :=
  configdir ++ "/" ++ path ++ "/" ++ itemName m ++ ".xml"

/-- The answer, and the file that is written with what it holds. -/
def Configurator.mkItem (configdir : String) (templates : String → Option String)
    (canWrite : String → Bool) (turns : ℕ) (m : MMessage) (path temp : String) :
    Option (String × Option (String × String)) :=
  if itemName m = "" then some ("Failed", none)
  else
    match templates (configdir ++ "/templates/" ++ temp) with
    | none => some ("Failed", none)
    | some file =>
        (replaceFields turns (placeholders m) (templateText file)).map fun description =>
          if canWrite (itemPath configdir m path) then
            ("done", some (itemPath configdir m path, description))
          else ("Failed", none)

namespace VrtDevices

/-- A duration that the message does not have is filled in as well. -/
def defaults (m : MMessage) : List (String × String) :=
  let given (field : String) : String :=
    match m.fields.find? field with
    | some list => list.getString
    | none => "0"
  ["$DURATION", "$PDURATION"].filterMap fun field =>
    if given field = "0" then some (field, "0") else none

def deviceType (m : MMessage) : String :=
  if m.getString "devtype" = "" then m.getString "value" else m.getString "devtype"

def devicePath (configdir category : String) (m : MMessage) : String :=
  configdir ++ "/devices/" ++ category ++ "/" ++ m.getString "$PREFIX" ++ "_" ++
    ((m.fields.find? "$NAME").map MstringList.getString).getD (deviceType m) ++ ".xml"

/-- The file that is written with what it holds, if the template is not refused. -/
def devConfigure (configdir : String) (templates : String → Option String)
    (canWrite : String → Bool) (turns : ℕ) (m : MMessage) : Option (Option (String × String)) :=
  match templates (configdir ++ "/templates/" ++ deviceType m ++ ".xml") with
  | none => some none
  | some file =>
      match DeviceTemplate.scanHeader (DeviceTemplate.readTemplate file.toList) with
      | .rejected => some none
      | .accepted category body =>
          (WhileLoop.run DeviceTemplate.removeComment turns body).bind fun text =>
            let devicepath := devicePath configdir (String.ofList category) m
            (replaceFields turns (placeholders m ++ defaults m) (String.ofList text)).map
              fun description =>
                if canWrite devicepath then some (devicepath, description) else none

end VrtDevices

def byLettersOf (fields : List (String × String)) : List (List Char × List Char) :=
  fields.map fun field => (field.1.toList, field.2.toList)

/-- The placeholders of a text: the longest names of fields that start in it. -/
def piecesOf (m : MMessage) (text : String) : List (Placeholders.Piece Char) :=
  Placeholders.pieces ((placeholders m).map fun field => field.1.toList) text.toList

/-- The text with each placeholder replaced by the value of its field. -/
def simultaneous (m : MMessage) (text : String) : String :=
  String.ofList (Placeholders.filled
    (fun key => (m.getString (String.ofList key)).toList) (piecesOf m text))

/-- Whenever a name is replaced, it stands in a place of its own in the template. -/
def Undisturbed (m : MMessage) (fields : List (String × String)) (text : String) : Prop :=
  Placeholders.Undisturbed (byLettersOf fields) (piecesOf m text)

instance (m : MMessage) (fields : List (String × String)) (text : String) :
    Decidable (Undisturbed m fields text) :=
  inferInstanceAs (Decidable (Placeholders.Undisturbed _ _))

/-! ## The loops -/

/-- The loop over a text is the one over its letters. -/
theorem map_replaceLoop (turns : ℕ) (oldvalue newvalue description : String) :
    (replaceLoop turns oldvalue newvalue description).map String.toList =
      WhileLoop.run (Placeholders.turn oldvalue.toList newvalue.toList) turns
        description.toList := by
  refine WhileLoop.map_run (fun text => ?_) turns description
  rw [finds, findsChars_eq_isSome, Placeholders.turn]
  cases hplace : firstPlace oldvalue.toList text.toList with
  | none => rfl
  | some i =>
      rw [strReplace, replaceFirst_of_firstPlace hplace]
      simp [WhileLoop.Turn.map]

theorem map_replaceFields (turns : ℕ) (fields : List (String × String)) (text : String) :
    (replaceFields turns fields text).map String.toList =
      Placeholders.runAll turns (byLettersOf fields) text.toList := by
  induction fields generalizing text with
  | nil => rfl
  | cons field rest ih =>
      obtain ⟨oldvalue, newvalue⟩ := field
      rw [replaceFields, byLettersOf, List.map_cons, Placeholders.runAll, ← map_replaceLoop]
      cases replaceLoop turns oldvalue newvalue text with
      | none => rfl
      | some after => exact ih after

theorem mem_placeholders {m : MMessage} {name value : String}
    (hmem : (name, value) ∈ placeholders m) :
    name.toList.head? = some '$' ∧ m.getString name = value := by
  obtain ⟨⟨field, list⟩, hentry, hsame⟩ := List.mem_map.mp hmem
  obtain ⟨hentry, hdollar⟩ := List.mem_filter.mp hentry
  obtain ⟨rfl, rfl⟩ := Prod.mk.inj hsame
  refine ⟨of_decide_eq_true hdollar, ?_⟩
  rw [MMessage.getString, (SortedMap.mem_entries_iff m.fields field list).mp hentry]

/-- The value of a name is the first one in the table. -/
theorem lookup_byLettersOf {fields : List (String × String)} {name value : String}
    (hmem : (name, value) ∈ fields) (hunique : ∀ other, (name, other) ∈ fields → other = value)
    (extra : List (String × String)) :
    (byLettersOf (fields ++ extra)).lookup name.toList = some value.toList := by
  induction fields with
  | nil => exact absurd hmem List.not_mem_nil
  | cons field rest ih =>
      obtain ⟨first, text⟩ := field
      rw [List.cons_append, byLettersOf, List.map_cons, List.lookup_cons]
      by_cases hname : name = first
      · subst hname
        rw [hunique text List.mem_cons_self]
        simp
      · have hne : (name.toList == first.toList) = false :=
          beq_eq_false_iff_ne.mpr (hname ∘ String.toList_inj.mp)
        rw [hne]
        refine ih ?_ fun other hother => hunique other (List.mem_cons_of_mem _ hother)
        rcases List.mem_cons.mp hmem with heq | hrest
        · exact absurd (Prod.mk.inj heq).1 hname
        · exact hrest

/-- The loops fill in all fields at once. -/
theorem replaceFields_eq_simultaneous {m : MMessage} {extra : List (String × String)}
    {text : String} (hundisturbed : Undisturbed m (placeholders m ++ extra) text) {turns : ℕ}
    (hturns : text.toList.length ≤ turns) :
    replaceFields turns (placeholders m ++ extra) text = some (simultaneous m text) := by
  have hkeys : [] ∉ (placeholders m).map fun field => field.1.toList := by
    intro hmem
    obtain ⟨⟨name, value⟩, hfield, hnil⟩ := List.mem_map.mp hmem
    have hdollar := (mem_placeholders hfield).1
    rw [hnil] at hdollar
    exact absurd hdollar (by simp)
  have hrun := map_replaceFields turns (placeholders m ++ extra) text
  rw [Placeholders.runAll_pieces hkeys hundisturbed hturns, Option.map_eq_some_iff] at hrun
  obtain ⟨description, hdescription, hletters⟩ := hrun
  rw [hdescription, simultaneous, piecesOf, ← String.ofList_toList (s := description), hletters]
  refine congrArg (fun text => some (String.ofList text)) (Placeholders.filled_congr ?_)
  intro key hpiece
  obtain ⟨⟨name, value⟩, hfield, rfl⟩ :=
    List.mem_map.mp (Placeholders.mem_of_field_mem_pieces hpiece)
  have hvalue := (mem_placeholders hfield).2
  rw [lookup_byLettersOf hfield fun other hother => (mem_placeholders hother).2.symm.trans hvalue,
    Option.getD_some, String.ofList_toList, hvalue]

/-- A value that holds the name of its own field is filled in for ever. -/
theorem replaceLoop_eq_none {oldvalue newvalue description : String}
    (hvalue : finds newvalue oldvalue) (hfinds : finds description oldvalue) (turns : ℕ) :
    replaceLoop turns oldvalue newvalue description = none := by
  rw [finds, findsChars_eq_isSome, isSome_firstPlace_iff] at hvalue hfinds
  rw [← Option.map_eq_none_iff (f := String.toList), map_replaceLoop,
    Placeholders.run_eq_none_of_within hvalue hfinds]

/-- The configurator and the agent fill in all fields at once, in finitely many turns, where each
name that is replaced stands in a place of its own. -/
theorem fillsIn_simultaneously (configdir : String) (templates : String → Option String)
    (canWrite : String → Bool) (turns : ℕ) (m : MMessage) :
    (∀ path temp file : String,
      Configurator.itemName m ≠ "" →
      templates (configdir ++ "/templates/" ++ temp) = some file →
      (templateText file).toList.length ≤ turns →
      Undisturbed m (placeholders m) (templateText file) →
      Configurator.mkItem configdir templates canWrite turns m path temp =
        some (if canWrite (Configurator.itemPath configdir m path) then
          ("done", some (Configurator.itemPath configdir m path,
            simultaneous m (templateText file)))
          else ("Failed", none))) ∧
    ∀ (file : String) (category body text : List Char),
      templates (configdir ++ "/templates/" ++ VrtDevices.deviceType m ++ ".xml") = some file →
      DeviceTemplate.scanHeader (DeviceTemplate.readTemplate file.toList) =
        .accepted category body →
      WhileLoop.run DeviceTemplate.removeComment turns body = some text →
      text.length ≤ turns →
      Undisturbed m (placeholders m ++ VrtDevices.defaults m) (String.ofList text) →
      VrtDevices.devConfigure configdir templates canWrite turns m =
        some (if canWrite (VrtDevices.devicePath configdir (String.ofList category) m) then
          some (VrtDevices.devicePath configdir (String.ofList category) m,
            simultaneous m (String.ofList text))
          else none) := by
  constructor
  · intro path temp file hname hfile hturns hundisturbed
    rw [← List.append_nil (placeholders m)] at hundisturbed
    have hfilled := replaceFields_eq_simultaneous hundisturbed hturns
    rw [List.append_nil] at hfilled
    rw [Configurator.mkItem, if_neg hname, hfile]
    simp only [hfilled, Option.map_some]
  · intro file category body text hfile hheader hcomments hturns hundisturbed
    have hletters : (String.ofList text).toList.length ≤ turns := by rwa [String.toList_ofList]
    have hfilled := replaceFields_eq_simultaneous hundisturbed hletters
    rw [VrtDevices.devConfigure, hfile]
    simp only [hheader, hcomments, Option.bind_some, hfilled, Option.map_some]

/-- A configuration of a switch on the given inputs. -/
def switchConfiguration (fields : List (String × String)) : MMessage :=
  fields.foldl (fun m field => m.add field.1 field.2) (MMessage.mk2 "cmd" "devConfigure")

def switchTemplate : String := "<!--semantic_class=BinaryInput--><d n=\"$NAME\" i=\"$INPUT\"/>"

theorem fillsIn_simultaneously_switch :
    Configurator.mkItem "conf" (fun _ => some switchTemplate) (fun _ => true) 70
        (switchConfiguration [("$NAME", "hall"), ("$INPUT", "gpio3")]) "devices" "switch.xml" =
      some (if true then
        ("done", some (Configurator.itemPath "conf"
            (switchConfiguration [("$NAME", "hall"), ("$INPUT", "gpio3")]) "devices",
          simultaneous (switchConfiguration [("$NAME", "hall"), ("$INPUT", "gpio3")])
            (templateText switchTemplate)))
        else ("Failed", none)) ∧
    VrtDevices.devConfigure "conf" (fun _ => some switchTemplate) (fun _ => true) 70
        (switchConfiguration [("devtype", "switch"), ("$NAME", "hall"), ("$INPUT", "gpio3")]) =
      some (if true then
        some (VrtDevices.devicePath "conf" (String.ofList "BinaryInput".toList)
            (switchConfiguration [("devtype", "switch"), ("$NAME", "hall"), ("$INPUT", "gpio3")]),
          simultaneous
            (switchConfiguration [("devtype", "switch"), ("$NAME", "hall"), ("$INPUT", "gpio3")])
            (String.ofList "<d n=\"$NAME\" i=\"$INPUT\"/>".toList))
        else none) :=
  ⟨(fillsIn_simultaneously "conf" (fun _ => some switchTemplate) (fun _ => true) 70
      (switchConfiguration [("$NAME", "hall"), ("$INPUT", "gpio3")])).1 "devices" "switch.xml"
      switchTemplate (by decide +kernel) rfl (by decide +kernel) (by decide +kernel),
    (fillsIn_simultaneously "conf" (fun _ => some switchTemplate) (fun _ => true) 70
      (switchConfiguration [("devtype", "switch"), ("$NAME", "hall"), ("$INPUT", "gpio3")])).2
      switchTemplate "BinaryInput".toList switchTemplate.toList
      "<d n=\"$NAME\" i=\"$INPUT\"/>".toList rfl (by decide +kernel) (by decide +kernel)
      (by decide +kernel) (by decide +kernel)⟩

/-- The name of a field within a longer one is replaced, and a value with the name of its own
field is filled in for ever. -/
theorem not_fillsIn_simultaneously :
    Configurator.mkItem "conf" (fun _ => some "$INPUT") (fun _ => true) 70
        (switchConfiguration [("$NAME", "hall"), ("$IN", "gpio1"), ("$INPUT", "gpio2")]) "devices"
        "switch.xml" = some ("done", some ("conf/devices/hall.xml", "gpio1PUT")) ∧
      simultaneous
        (switchConfiguration [("$NAME", "hall"), ("$IN", "gpio1"), ("$INPUT", "gpio2")]) "$INPUT" =
          "gpio2" ∧
      ∀ turns, Configurator.mkItem "conf" (fun _ => some "$NAME") (fun _ => true) turns
        (switchConfiguration [("$NAME", "$NAME")]) "devices" "switch.xml" = none := by
  refine ⟨by decide +kernel, by decide +kernel, fun turns => ?_⟩
  have hname : Configurator.itemName (switchConfiguration [("$NAME", "$NAME")]) ≠ "" := by
    decide +kernel
  have hfields : placeholders (switchConfiguration [("$NAME", "$NAME")]) =
      [("$NAME", "$NAME")] := by
    decide +kernel
  have htext : templateText "$NAME" = "$NAME" := by decide +kernel
  have hfinds : finds "$NAME" "$NAME" = true := by decide +kernel
  rw [Configurator.mkItem, if_neg hname]
  simp only [hfields, htext, replaceFields, replaceLoop_eq_none hfinds hfinds, Option.bind_none,
    Option.map_none]

end Hat
