import Hat.Manager.TemplateFields
import Hat.WSServer.JParserRows

/-!
# The page of the areas

An upload lists devices with their areas.  `ConfManager` groups them in a map of holders and fills
the lists that it makes from the map into the template of the page.  The index of its loop over
the upload has no first value, so it begins wherever the variable stands.
-/

namespace Hat

open Hat.Hsrv

structure DeviceHolder where
  device : String
  description : String

structure BarHolder where
  devices : List DeviceHolder
  description : String

/-- The settings of the manager, the files below the configuration directory that can be opened,
the reader of the upload, and the answers of the device agent. -/
structure GuiFiles where
  par : MParams
  configdir : String
  file : String → Option String
  readJson : String → Option PTree
  forward : String → String

namespace GuiFiles

variable (gui : GuiFiles) (turns : ℕ)

/-- A file that cannot be opened is empty. -/
def getProto (source : String) : String := templateText ((gui.file source).getD "")

/-- The parts of a name behind its category. -/
def devname : List String → String
  | [] => ""
  | first :: others => others.foldl (fun devname part => devname ++ "_" ++ part) first

/-- A name without parts has no category, which is read all the same. -/
def deviceHolder (name : String) : Option DeviceHolder :=
  match NameList.init [] name '_' with
  | [] => none
  | category :: parts =>
      let file := gui.configdir ++ "/guitemplates/" ++ category ++ "_bholder.html"
      (replaceLoop turns "$CAT" category (gui.getProto file)).bind fun description =>
        (replaceLoop turns "$NAME" (devname parts) description).map fun description =>
          ⟨name, description⟩

def newBarHolder (area : String) : Option BarHolder :=
  let file := gui.configdir ++ "/guitemplates/barholder.html"
  (replaceLoop turns "$AREA" area (gui.getProto file)).map fun description => ⟨[], description⟩

end GuiFiles

def BarHolder.describeHTML (bar : BarHolder) : String :=
  strReplace bar.description "$DEVICES" (String.join (bar.devices.map DeviceHolder.description))

/-- The map from areas to their holders. -/
abbrev Holders := SortedMap String BarHolder

/-- What an upload leads to: the map, the file that is saved with the page, and the answer. -/
structure GuiUpdate where
  holders : Holders
  destination : String
  page : String
  answer : MMessage

def mkButtons (areas : Holders) : String :=
  areas.entries.foldl
    (fun buttons it => buttons ++ ("<button id=\"show_" ++ it.1 ++ "\">" ++ it.1 ++ "</button>")) ""

def mkShowfun (areas : Holders) : String :=
  areas.entries.foldl
    (fun showfun it => showfun ++ ("$(\"#show_" ++ it.1 ++ "\").click(function()\x7bshowOnly(\"" ++
      it.1 ++ "\");\x7d);\n")) ""

/-- An item in quotes, behind a separator unless it is the first one. -/
def appendQuoted (separator list item : String) : String :=
  if list = "" then list ++ ("\"" ++ item ++ "\"") else list ++ (separator ++ "\"" ++ item ++ "\"")

def mkAreaList (areas : Holders) : String :=
  areas.entries.foldl (fun arealist it => appendQuoted ", " arealist it.1) ""

/-- The text between the next two quotes; without them the search runs over the end. -/
def betweenQuotes (text : List Char) : Option String :=
  match text.dropWhile (· ≠ '\x22') with
  | [] => none
  | _ :: content =>
      if '\x22' ∈ content then some (String.ofList (content.takeWhile (· ≠ '\x22'))) else none

namespace GuiFiles

variable (gui : GuiFiles) (turns : ℕ)

/-- Behind the name of the field its value is taken. -/
def getComponentOf (name : String) : Option String :=
  let url := "/devicemanifest/" ++ name ++ ".xml"
  let request := "GET " ++ url ++ " HTTP/1.1\r\n\r\n\r\n"
  let answer := (gui.forward request).toList
  match firstPlace "$COMPONENT".toList answer with
  | none => some ""
  | some pos =>
      (firstPlace "value".toList (answer.drop pos)).bind fun value =>
        betweenQuotes (answer.drop (pos + value))

def devDescription (area device components : String) : String :=
  let devDescription := area ++ "." ++ device
  if components ≠ "" then devDescription ++ ("+" ++ components) else devDescription

def mkDevList (areas : Holders) : Option String :=
  areas.entries.foldlM
    (fun devlist it =>
      it.2.devices.foldlM
        (fun devlist holder =>
          (gui.getComponentOf holder.device).map fun components =>
            appendQuoted "," devlist (devDescription it.1 holder.device components))
        devlist)
    ""

/-- One turn of the loop over the upload. -/
def addPair (holders : Holders) (row : StringPair) : Option Holders :=
  let dev := row.first
  let area := row.second
  (match holders.find? area with
    | some bar => some bar
    | none => gui.newBarHolder turns area).bind fun bar =>
      (gui.deviceHolder turns dev).map fun holder =>
        holders.insert area { bar with devices := bar.devices ++ [holder] }

/-- The uploaded pairs. -/
def uploaded (body : String) : Option (List StringPair) := do
  let rpt ← gui.readJson body
  let pt ← rpt.getChild "areas"
  JParser.new2 "name" "area" pt

/-- `start` is what the index of the loop happens to be. -/
def execPut (start : ℕ) (body : String) : Option GuiUpdate := do
  let rows ← gui.uploaded body
  let holders ← (rows.drop start).foldlM (gui.addPair turns) SortedMap.empty
  let page := gui.getProto (gui.configdir ++ "/guitemplates" ++ "/gui-proto.html")
  let description := String.join (holders.entries.map fun it => it.2.describeHTML)
  let page := strReplace page "$AREAS" description
  let page := strReplace page "$HBUTTONS" (mkButtons holders)
  let page := strReplace page "$SHOWFUNCTION" (mkShowfun holders)
  let devlist ← gui.mkDevList holders
  let page := strReplace page "$DEVDESCRIPTION" devlist
  let page := strReplace page "$AREALIST" (mkAreaList holders)
  pure ⟨holders, gui.configdir ++ "/doc/gui.html", page,
    (MMessage.mk2 "" "").add "body" (gui.par.get "mkgui_answer")⟩

end GuiFiles

end Hat
