import Hat.Minilibs.ArchiveDays
import Hat.WSServer.ReadJson

/-!
# The lines of a time window

A query is to answer with the lines of its window, of whatever day their file is.  `getSubSet`
never opens today's file and `getSubLog` leaves the first minute out; both open a file of an
earlier day only when its day is in the window, and read a compact stamp of 2020 as a minute
of another year.
-/

namespace Hat

open Hat.Hsrv ArchiveManager

/-- The body of a request for a window, with the names that it selects. -/
structure WindowRequest (read : String → Option PTree) where
  body : String
  window : ArchiveWindow
  names : List String
  tree : PTree
  fields : PTree
  read_body : read body = some tree
  placed : (if contains body "window" then tree.getChild "window" else some tree) = some fields
  start_date : fields.get "start_date" = some window.start.dateText
  start_time : fields.get "start_time" = some window.start.timeText
  end_date : fields.get "end_date" = some window.stop.dateText
  end_time : fields.get "end_time" = some window.stop.timeText
  selected : if contains body "select" then
      ((tree.getChild "select").bind fun pt =>
        pt.children.mapM fun child : String × PTree => child.2.get "name") = some names
    else names = []

namespace ArchiveManager

theorem rangeText_eq (minute : ArchiveMinute) :
    rangeText minute.dateText minute.timeText = some minute.text := by
  have hdate : ∀ place ≤ 8, ∀ count, substrAt minute.dateText place count =
      some (String.ofList (substr minute.dateText.toList place count)) := by
    intro place hplace count
    refine if_pos ?_
    rw [ArchiveMinute.dateText, String.length_ofList, length_digits]
    exact hplace
  have htime : ∀ place ≤ 5, ∀ count, substrAt minute.timeText place count =
      some (String.ofList (substr minute.timeText.toList place count)) := by
    intro place hplace count
    refine if_pos ?_
    rw [ArchiveMinute.timeText, String.length_ofList]
    exact hplace
  rw [rangeText, hdate 4 (by decide), hdate 2 (by decide), hdate 0 (by decide),
    htime 0 (by decide), htime 3 (by decide)]
  simp only [Option.bind_some, Option.map_some, ← String.ofList_append, ArchiveMinute.dateText,
    ArchiveMinute.timeText, String.toList_ofList]
  rfl

variable {read : String → Option PTree}

theorem getTimeRangeFromJson_eq (request : WindowRequest read) :
    getTimeRangeFromJson read request.body =
      some (request.window.start.text, request.window.stop.text) := by
  rw [getTimeRangeFromJson, request.read_body, Option.bind_some, request.placed, Option.bind_some,
    request.start_date, request.start_time, request.end_date, request.end_time]
  simp only [Option.bind_some, rangeText_eq, Option.map_some]

theorem getCategoriesJson_eq (request : WindowRequest read) :
    getCategoriesJson read request.body = some (request.names.filter fun name => name ≠ "") := by
  have hselected := request.selected
  rw [getCategoriesJson, request.read_body, Option.bind_some]
  split at hselected
  · rename_i hselect
    rw [if_pos hselect]
    obtain ⟨pt, hpt, hnames⟩ := Option.bind_eq_some_iff.mp hselected
    rw [hpt, Option.bind_some, hnames, Option.map_some]
  · rename_i hselect
    rw [if_neg hselect, hselected, List.filter_nil]

end ArchiveManager

/-- The line of a camera: an element with a time. -/
structure CameraLine (parse : String → List XmlNode) where
  text : String
  stamp : Stamp
  no_break : '\n' ∉ text.toList
  parsed : ∃ head desc rest, parse (xmlLine text) = head :: desc :: rest ∧
    desc.getAttrbyName "time" = stamp.text

/-- The line of a log: an object with a time and a type. -/
structure LogLine (read : String → Option PTree) where
  text : String
  stamp : Stamp
  type : String
  no_break : '\n' ∉ text.toList
  long : 10 ≤ text.utf8ByteSize
  parsed : ∃ tree, read text = some tree ∧ tree.get "time" = some stamp.text ∧
    tree.get "type" = some type

/-- Without a category every type is asked for. -/
def Requested (category : List String) (type : String) : Prop := category = [] ∨ type ∈ category

instance (category : List String) (type : String) : Decidable (Requested category type) :=
  inferInstanceAs (Decidable (_ ∨ _))

namespace ArchiveManager

variable {parse : String → List XmlNode} {read : String → Option PTree}

theorem text_le_normalize_iff (minute : ArchiveMinute) (stamp : Stamp) :
    minute.text ≤ normalizeDateTime stamp.text ↔ minute.fields ≤ stamp.readMinutes := by
  rw [← not_lt, ← not_lt, normalize_lt_text_iff]

theorem normalize_le_text_iff (stamp : Stamp) (minute : ArchiveMinute) :
    normalizeDateTime stamp.text ≤ minute.text ↔ stamp.readMinutes ≤ minute.fields := by
  rw [← not_lt, ← not_lt, text_lt_normalize_iff]

theorem takeXmlLine_text (window : ArchiveWindow) (line : CameraLine parse) :
    takeXmlLine parse window.start.text window.stop.text line.text =
      some (if decide (window.Within line.stamp.readMinutes) then [line.text] else []) := by
  obtain ⟨head, desc, rest, hparse, htime⟩ := line.parsed
  rw [takeXmlLine, hparse]
  dsimp only
  rw [htime]
  refine congrArg some (if_congr ?_ rfl rfl)
  rw [text_le_normalize_iff, normalize_le_text_iff, decide_eq_true_iff, ArchiveWindow.Within]

/-- The minutes that `getSubLog` takes: the first one is left out. -/
def After (window : ArchiveWindow) (minutes : List ℕ) : Prop :=
  window.start.fields < minutes ∧ minutes ≤ window.stop.fields

instance (window : ArchiveWindow) (minutes : List ℕ) : Decidable (After window minutes) :=
  inferInstanceAs (Decidable (_ ∧ _))

theorem takeLogLine_text (window : ArchiveWindow) (category : List String)
    (line : LogLine read) :
    takeLogLine read window.start.text window.stop.text category line.text =
      some (if decide (After window line.stamp.readMinutes) &&
        decide (Requested category line.type) then [line.text] else []) := by
  obtain ⟨tree, hread, htime, htype⟩ := line.parsed
  have hmember : NameList.member category line.type = true ↔ line.type ∈ category := by
    rw [NameList.member, List.any_eq_true]
    simp
  rw [takeLogLine, if_neg (not_lt.mpr line.long), hread, Option.bind_some, htime,
    Option.bind_some, htype, Option.map_some]
  refine congrArg some (if_congr ?_ rfl rfl)
  rw [text_lt_normalize_iff, normalize_le_text_iff, hmember, Bool.and_eq_true, decide_eq_true_iff,
    decide_eq_true_iff, or_iff_right (normalizeDateTime_ne_empty line.stamp), After, Requested]

end ArchiveManager

/-- The directory of a camera. -/
structure CameraDirectory (files : FileSystem) (parse : String → List XmlNode) (root : String) where
  name : String
  directory : DataDirectory files (root ++ name) fun line : CameraLine parse => line.text

/-- The directories of all cameras. -/
structure CameraArchive (files : FileSystem) (parse : String → List XmlNode) (root : String) where
  cameras : List (CameraDirectory files parse root)
  names : files.dirList root = cameras.map CameraDirectory.name

def CameraArchive.items {files : FileSystem} {parse : String → List XmlNode} {root : String}
    (archive : CameraArchive files parse root) :
    List (DataFile (CameraLine parse) × CameraLine parse) :=
  archive.cameras.flatMap fun camera => camera.directory.items

namespace ArchiveManager

section Exact

variable {files : FileSystem} {parse : String → List XmlNode} {read : String → Option PTree}
  {archive : ArchiveManager}

/-- The answer of `getSubSet` is made of the lines in the window, each once. -/
def SetExact (cameras : CameraArchive files parse (archive.archiveHome ++ "/archive/"))
    (request : WindowRequest read) : Prop :=
  ∃ start stop, getTimeRangeFromJson read request.body = some (start, stop) ∧
    subSetLines files parse archive start stop =
      some ((cameras.items.filter fun item =>
        request.window.Within item.2.stamp.instant.minutes).map fun item => item.2.text)

/-- The answer of `getSubLog` is made of the lines in the window with a requested type, each
once. -/
def LogExact (files : FileSystem) (rootPath : String) (request : WindowRequest read)
    (log : DataDirectory files rootPath fun line : LogLine read => line.text) : Prop :=
  ∃ start stop category, getTimeRangeFromJson read request.body = some (start, stop) ∧
    getCategoriesJson read request.body = some category ∧
      subLogLines files read rootPath start stop category =
        some ((log.items.filter fun item =>
          request.window.Within item.2.stamp.instant.minutes ∧
            Requested (request.names.filter fun name => name ≠ "") item.2.type).map
              fun item => item.2.text)

/-- When `getSubSet` is right about a line: it is not in today's file or not in the window, and
the file of an earlier day is opened for every line in the window; a misread stamp is taken
for another minute. -/
def SetSafe (window : ArchiveWindow) (day : Option ArchiveDay) (stamp : Stamp) : Prop :=
  match day with
  | none => ¬ window.Within stamp.instant.minutes
  | some day =>
      if stamp.Misread then
        window.Covers day ∧ window.Within stamp.misreadMinutes ↔ window.Within stamp.instant.minutes
      else window.Within stamp.instant.minutes → window.Covers day

/-- When `getSubLog` is right about a line of a requested type: it is not of the first minute,
and the file of an earlier day is opened for every line in the window. -/
def LogSafe (window : ArchiveWindow) (day : Option ArchiveDay) (stamp : Stamp) : Prop :=
  if stamp.Misread then
    (∀ other ∈ day, window.Covers other) ∧ After window stamp.misreadMinutes ↔
      window.Within stamp.instant.minutes
  else
    window.Within stamp.instant.minutes →
      stamp.instant.minutes ≠ window.start.fields ∧ ∀ other ∈ day, window.Covers other

/-! ## The answers -/

theorem subSetLines_eq (hdeclaration : ∃ declaration, parse (xmlLine "") = [declaration])
    (cameras : CameraArchive files parse (archive.archiveHome ++ "/archive/"))
    (window : ArchiveWindow) :
    subSetLines files parse archive window.start.text window.stop.text =
      some ((cameras.items.filter fun item =>
        item.1.day.isSome && opens window item.1.day &&
          decide (window.Within item.2.stamp.readMinutes)).map fun item => item.2.text) := by
  obtain ⟨declaration, hempty⟩ := hdeclaration
  have hblank : takeXmlLine parse window.start.text window.stop.text "" = some [] := by
    rw [takeXmlLine, hempty]
  have hnamed : ∀ file : DataFile (CameraLine parse),
      decide (subSetPrefix file.name = "data") = file.day.isSome := by
    intro file
    rw [Bool.eq_iff_iff, decide_eq_true_iff]
    exact subSetPrefix_name file
  have hcamera := fun camera : CameraDirectory files parse (archive.archiveHome ++ "/archive/") =>
    scanDirectory_eq camera.directory (fun line => line.no_break) window
      (fun _ _ hdata => isDataName_of_subSetPrefix (of_decide_eq_true hdata))
      (fun file _ => hnamed file) hblank (takeXmlLine_text window)
  rw [CameraArchive.items, List.filter_flatMap, List.map_flatMap]
  dsimp only [subSetLines]
  rw [cameras.names, collect_map]
  exact collect_eq_some fun camera _ => hcamera camera

theorem subLogLines_eq {rootPath : String}
    (log : DataDirectory files rootPath fun line : LogLine read => line.text)
    (window : ArchiveWindow) (category : List String) :
    subLogLines files read rootPath window.start.text window.stop.text category =
      some ((log.items.filter fun item => true && opens window item.1.day &&
        (decide (After window item.2.stamp.readMinutes) &&
          decide (Requested category item.2.type))).map fun item => item.2.text) := by
  have hblank : takeLogLine read window.start.text window.stop.text category "" = some [] :=
    if_pos (show "".utf8ByteSize < 10 by decide)
  exact scanDirectory_eq log (fun line => line.no_break) window
    (fun name hname hdata => isDataName_of_getStem hname (of_decide_eq_true hdata))
    (fun file hfile => decide_eq_true (getStem_name (log.noSlash_name hfile))) hblank
    (takeLogLine_text window category)

theorem setSafe_iff (window : ArchiveWindow) (day : Option ArchiveDay) (stamp : Stamp) :
    (day.isSome && opens window day && decide (window.Within stamp.readMinutes)) =
        decide (window.Within stamp.instant.minutes) ↔ SetSafe window day stamp := by
  rw [Bool.eq_iff_iff, decide_eq_true_iff]
  cases day with
  | none =>
      change (false = true ↔ _) ↔ ¬ window.Within stamp.instant.minutes
      exact ⟨fun h hwithin => Bool.false_ne_true (h.mpr hwithin),
        fun h => iff_of_false Bool.false_ne_true h⟩
  | some day =>
      change (((true && decide (window.Covers day)) && _) = true ↔ _) ↔
        if stamp.Misread then
          window.Covers day ∧ window.Within stamp.misreadMinutes ↔
            window.Within stamp.instant.minutes
        else window.Within stamp.instant.minutes → window.Covers day
      rw [Bool.true_and, Bool.and_eq_true, decide_eq_true_iff, decide_eq_true_iff,
        Stamp.readMinutes]
      split
      · exact Iff.rfl
      · exact ⟨fun h hwithin => (h.mpr hwithin).1,
          fun h => ⟨And.right, fun hwithin => ⟨h hwithin, hwithin⟩⟩⟩

theorem after_iff (window : ArchiveWindow) (minutes : List ℕ) :
    After window minutes ↔ window.Within minutes ∧ minutes ≠ window.start.fields := by
  rw [After, ArchiveWindow.Within, lt_iff_le_and_ne, ne_comm]
  tauto

theorem logSafe_iff (window : ArchiveWindow) (day : Option ArchiveDay) (stamp : Stamp)
    (requested : Prop) [Decidable requested] :
    (true && opens window day && (decide (After window stamp.readMinutes) && decide requested)) =
        decide (window.Within stamp.instant.minutes ∧ requested) ↔
      (requested → LogSafe window day stamp) := by
  have hopens : opens window day = true ↔ ∀ other ∈ day, window.Covers other := by
    cases day with
    | none => exact iff_of_true rfl fun other hother => by cases hother
    | some day =>
        rw [opens, Option.all_some, decide_eq_true_iff]
        exact ⟨fun h other hother => Option.some.inj hother ▸ h, fun h => h day rfl⟩
  have hcancel : ∀ taken wanted : Prop,
      (taken ∧ requested ↔ wanted ∧ requested) ↔ (requested → (taken ↔ wanted)) :=
    fun taken wanted => and_congr_left_iff
  rw [LogSafe, Bool.eq_iff_iff, Bool.true_and]
  simp only [Bool.and_eq_true, decide_eq_true_iff, hopens, ← and_assoc]
  rw [hcancel, Stamp.readMinutes]
  refine imp_congr_right fun _ => ?_
  split
  · exact Iff.rfl
  · rw [after_iff]
    tauto

/-- Whether a line is wanted can be read off its text. -/
theorem minutes_of_cameraLine {line other : CameraLine parse} (h : line.text = other.text) :
    line.stamp.instant.minutes = other.stamp.instant.minutes := by
  obtain ⟨head, desc, rest, hparse, htime⟩ := line.parsed
  obtain ⟨head', desc', rest', hparse', htime'⟩ := other.parsed
  rw [h, hparse'] at hparse
  obtain ⟨rfl, -⟩ := List.cons.inj (List.cons.inj hparse).2
  exact minutes_eq_of_text_eq (htime.symm.trans htime')

theorem minutes_of_logLine {line other : LogLine read} (h : line.text = other.text) :
    line.stamp.instant.minutes = other.stamp.instant.minutes ∧ line.type = other.type := by
  obtain ⟨tree, hread, htime, htype⟩ := line.parsed
  obtain ⟨tree', hread', htime', htype'⟩ := other.parsed
  rw [h, hread'] at hread
  obtain rfl := Option.some.inj hread
  exact ⟨minutes_eq_of_text_eq (Option.some.inj (htime.symm.trans htime')),
    Option.some.inj (htype.symm.trans htype')⟩

theorem setExact_iff (hdeclaration : ∃ declaration, parse (xmlLine "") = [declaration])
    (cameras : CameraArchive files parse (archive.archiveHome ++ "/archive/"))
    (request : WindowRequest read) :
    SetExact cameras request ↔
      ∀ item ∈ cameras.items, SetSafe request.window item.1.day item.2.stamp := by
  have hquery : SetExact cameras request ↔
      subSetLines files parse archive request.window.start.text request.window.stop.text =
        some ((cameras.items.filter fun item =>
          request.window.Within item.2.stamp.instant.minutes).map fun item => item.2.text) := by
    constructor
    · rintro ⟨start, stop, hrange, hlines⟩
      obtain ⟨rfl, rfl⟩ := Prod.mk.inj
        (Option.some.inj ((getTimeRangeFromJson_eq request).symm.trans hrange))
      exact hlines
    · exact fun hlines => ⟨_, _, getTimeRangeFromJson_eq request, hlines⟩
  rw [hquery, subSetLines_eq hdeclaration, Option.some.injEq, map_filter_eq_iff]
  · exact forall₂_congr fun item _ => setSafe_iff _ _ _
  · intro item _ other _ htext
    rw [minutes_of_cameraLine htext]

theorem logExact_iff {rootPath : String} (request : WindowRequest read)
    (log : DataDirectory files rootPath fun line : LogLine read => line.text) :
    LogExact files rootPath request log ↔
      ∀ item ∈ log.items, Requested (request.names.filter fun name => name ≠ "") item.2.type →
        LogSafe request.window item.1.day item.2.stamp := by
  have hquery : LogExact files rootPath request log ↔
      subLogLines files read rootPath request.window.start.text request.window.stop.text
          (request.names.filter fun name => name ≠ "") =
        some ((log.items.filter fun item =>
          request.window.Within item.2.stamp.instant.minutes ∧
            Requested (request.names.filter fun name => name ≠ "") item.2.type).map
              fun item => item.2.text) := by
    constructor
    · rintro ⟨start, stop, category, hrange, hcategory, hlines⟩
      obtain ⟨rfl, rfl⟩ := Prod.mk.inj
        (Option.some.inj ((getTimeRangeFromJson_eq request).symm.trans hrange))
      obtain rfl := Option.some.inj ((getCategoriesJson_eq request).symm.trans hcategory)
      exact hlines
    · exact fun hlines =>
        ⟨_, _, _, getTimeRangeFromJson_eq request, getCategoriesJson_eq request, hlines⟩
  rw [hquery, subLogLines_eq, Option.some.injEq, map_filter_eq_iff]
  · exact forall₂_congr fun item _ => logSafe_iff _ _ _ _
  · intro item _ other _ htext
    rw [(minutes_of_logLine htext).1, (minutes_of_logLine htext).2]

/-- When the two queries answer with the lines of the window. -/
theorem windows_exact_iff (hdeclaration : ∃ declaration, parse (xmlLine "") = [declaration])
    (cameras : CameraArchive files parse (archive.archiveHome ++ "/archive/")) (url : String)
    (log : DataDirectory files (archive.archiveHome ++ url) fun line : LogLine read => line.text)
    (request : WindowRequest read) :
    (SetExact cameras request ↔
        ∀ item ∈ cameras.items, SetSafe request.window item.1.day item.2.stamp) ∧
      (LogExact files (archive.archiveHome ++ url) request log ↔
        ∀ item ∈ log.items, Requested (request.names.filter fun name => name ≠ "") item.2.type →
          LogSafe request.window item.1.day item.2.stamp) :=
  ⟨setExact_iff hdeclaration cameras request, logExact_iff request log⟩

end Exact

instance (window : ArchiveWindow) (day : Option ArchiveDay) (stamp : Stamp) :
    Decidable (SetSafe window day stamp) :=
  match day with
  | none => inferInstanceAs (Decidable (¬ window.Within stamp.instant.minutes))
  | some day => inferInstanceAs (Decidable (if stamp.Misread then
      (window.Covers day ∧ window.Within stamp.misreadMinutes ↔
        window.Within stamp.instant.minutes)
      else (window.Within stamp.instant.minutes → window.Covers day)))

instance (window : ArchiveWindow) (day : Option ArchiveDay) (stamp : Stamp) :
    Decidable (LogSafe window day stamp) :=
  inferInstanceAs (Decidable (if stamp.Misread then
    ((∀ other ∈ day, window.Covers other) ∧ After window stamp.misreadMinutes ↔
      window.Within stamp.instant.minutes)
    else (window.Within stamp.instant.minutes →
      stamp.instant.minutes ≠ window.start.fields ∧ ∀ other ∈ day, window.Covers other)))

end ArchiveManager

namespace TwoDays

open Json

def evening (mday : ℕ) (hpos : 0 < mday) (hle : mday ≤ 31) : Stamp where
  instant :=
    { sec := 40, min := 20, hour := 17, mday, mon := 3, year := 2024, wday := 1
      sec_le := by decide
      min_lt := by decide
      hour_lt := by decide
      year_ge := show 2000 ≤ 2024 by decide
      year_le := show 2024 ≤ 2099 by decide
      mon_pos := Nat.succ_pos 2
      mon_le := show 3 ≤ 12 by decide
      mday_pos := hpos
      mday_le := hle }
  full := true

def sunday : Stamp := evening 17 (by decide) (by decide)

def monday : Stamp := evening 18 (by decide) (by decide)

def xmlText (stamp : Stamp) : String := "<image time=\"" ++ stamp.text ++ "\"/>"

def jsonEntries (stamp : Stamp) : List (String × String) :=
  [("time", stamp.text), ("type", "event")]

def jsonText (stamp : Stamp) : String :=
  String.ofList (openBrace :: flatMembers (jsonEntries stamp))

/-- The nodes of such a line, whose time stands at a fixed place. -/
def parseXml (text : String) : List XmlNode :=
  if text = xmlLine "" then [.other]
  else [.other, .element [("time", String.ofList ((text.toList.drop 35).take 14))] []]

def files : FileSystem where
  content path :=
    if path = "home/archive/door/data.2024_03_17" then some (xmlText sunday ++ "\n")
    else if path = "home/archive/door/data" then some (xmlText monday ++ "\n")
    else if path = "home/logs/data.2024_03_17" then some (jsonText sunday ++ "\n")
    else if path = "home/logs/data" then some (jsonText monday ++ "\n")
    else none
  isFile _ := false
  entries dir :=
    if dir = "home/archive/" then [⟨"door", true, by decide⟩]
    else [⟨"data.2024_03_17", false, by decide⟩, ⟨"data", false, noSlash_data⟩]

def archive : ArchiveManager := ⟨"home", SortedMap.empty⟩

def sundayFile : ArchiveDay := ⟨2024, 3, 17, by decide, by decide, by decide⟩

def mondayFile : ArchiveDay := ⟨2024, 3, 18, by decide, by decide, by decide⟩

def cameraLine (stamp : Stamp) (hbreak : '\n' ∉ (xmlText stamp).toList)
    (hparsed : ∃ head desc rest, parseXml (xmlLine (xmlText stamp)) = head :: desc :: rest ∧
      desc.getAttrbyName "time" = stamp.text) : CameraLine parseXml where
  text := xmlText stamp
  stamp := stamp
  no_break := hbreak
  parsed := hparsed

def logLine (stamp : Stamp) (hbreak : '\n' ∉ (jsonText stamp).toList)
    (hlong : 10 ≤ (jsonText stamp).utf8ByteSize)
    (hplain : PlainEntries flatReader.raw (jsonEntries stamp)) : LogLine flatReader.read where
  text := jsonText stamp
  stamp := stamp
  type := "event"
  no_break := hbreak
  long := hlong
  parsed := ⟨flatTree (jsonEntries stamp), flatReader.reads_flat _ hplain, rfl, rfl⟩

theorem parsed_xmlText {stamp : Stamp} (hne : xmlLine (xmlText stamp) ≠ xmlLine "")
    (htime : String.ofList (((xmlLine (xmlText stamp)).toList.drop 35).take 14) = stamp.text) :
    ∃ head desc rest, parseXml (xmlLine (xmlText stamp)) = head :: desc :: rest ∧
      desc.getAttrbyName "time" = stamp.text :=
  ⟨_, _, [], if_neg hne, htime⟩

def sundayImage : CameraLine parseXml :=
  cameraLine sunday (by decide +kernel)
    (parsed_xmlText (by decide +kernel) (by decide +kernel))

def mondayImage : CameraLine parseXml :=
  cameraLine monday (by decide +kernel)
    (parsed_xmlText (by decide +kernel) (by decide +kernel))

def sundayEvent : LogLine flatReader.read :=
  logLine sunday (by decide +kernel) (by decide +kernel) (by decide +kernel)

def mondayEvent : LogLine flatReader.read :=
  logLine monday (by decide +kernel) (by decide +kernel) (by decide +kernel)

def door : DataDirectory files (archive.archiveHome ++ "/archive/" ++ "door")
    fun line : CameraLine parseXml => line.text where
  dataFiles := [⟨some sundayFile, [sundayImage]⟩, ⟨none, [mondayImage]⟩]
  names := by
    decide +kernel
  content := List.forall_mem_cons.mpr
    ⟨by decide +kernel, List.forall_mem_singleton.mpr (by decide +kernel)⟩

def log : DataDirectory files (archive.archiveHome ++ "/logs")
    fun line : LogLine flatReader.read => line.text where
  dataFiles := [⟨some sundayFile, [sundayEvent]⟩, ⟨none, [mondayEvent]⟩]
  names := by
    decide +kernel
  content := List.forall_mem_cons.mpr
    ⟨by decide +kernel, List.forall_mem_singleton.mpr (by decide +kernel)⟩

def cameras : CameraArchive files parseXml (archive.archiveHome ++ "/archive/") where
  cameras := [⟨"door", door⟩]
  names := by
    decide +kernel

def requestEntries (window : ArchiveWindow) : List (String × String) :=
  [("start_date", window.start.dateText), ("start_time", window.start.timeText),
    ("end_date", window.stop.dateText), ("end_time", window.stop.timeText)]

def requestBody (window : ArchiveWindow) : String :=
  String.ofList (openBrace :: flatMembers (requestEntries window))

def request (window : ArchiveWindow)
    (hplain : PlainEntries flatReader.raw (requestEntries window))
    (hwindow : ¬ contains (requestBody window) "window")
    (hselect : ¬ contains (requestBody window) "select") : WindowRequest flatReader.read where
  body := requestBody window
  window := window
  names := []
  tree := flatTree (requestEntries window)
  fields := flatTree (requestEntries window)
  read_body := flatReader.reads_flat _ hplain
  placed := if_neg hwindow
  start_date := rfl
  start_time := rfl
  end_date := rfl
  end_time := rfl
  selected := by
    rw [if_neg hselect]

/-- From one hour of a day to another, both at twenty past. -/
def hours (day : ArchiveDay) (start stop : ℕ) (hstart : start < 24) (hstop : stop < 24) :
    ArchiveWindow :=
  ⟨⟨day, start, 20, hstart, by decide⟩, ⟨day, stop, 20, hstop, by decide⟩⟩

def sundayEvening : WindowRequest flatReader.read :=
  request (hours sundayFile 16 18 (by decide) (by decide)) (by decide +kernel) (by decide +kernel)
    (by decide +kernel)

/-- The window begins with the minute of the lines. -/
def mondayEvening : WindowRequest flatReader.read :=
  request (hours mondayFile 17 18 (by decide) (by decide)) (by decide +kernel) (by decide +kernel)
    (by decide +kernel)

/-- The image and the event of Sunday are found, each in the file of its day. -/
theorem exact_sundayEvening :
    SetExact cameras sundayEvening ∧
      LogExact files (archive.archiveHome ++ "/logs") sundayEvening log := by
  have hiff := windows_exact_iff ⟨_, if_pos rfl⟩ cameras "/logs" log sundayEvening
  refine ⟨hiff.1.mpr ?_, hiff.2.mpr ?_⟩
  · refine List.forall_mem_cons.mpr ⟨?_, List.forall_mem_singleton.mpr ?_⟩
    · decide +kernel
    · decide +kernel
  · refine List.forall_mem_cons.mpr ⟨fun _ => ?_, List.forall_mem_singleton.mpr fun _ => ?_⟩
    · decide +kernel
    · decide +kernel

/-- On Monday today's file is not opened for the image, and the event is left out with the
first minute. -/
theorem not_exact_mondayEvening :
    ¬ SetExact cameras mondayEvening ∧
      ¬ LogExact files (archive.archiveHome ++ "/logs") mondayEvening log := by
  rw [setExact_iff ⟨_, if_pos rfl⟩, logExact_iff]
  refine ⟨fun hset => ?_, fun hlog => ?_⟩
  · have himage := hset (⟨none, [mondayImage]⟩, mondayImage)
      (List.mem_cons_of_mem _ List.mem_cons_self)
    exact absurd himage (by decide +kernel)
  · have hevent := hlog (⟨none, [mondayEvent]⟩, mondayEvent)
      (List.mem_cons_of_mem _ List.mem_cons_self) (Or.inl rfl)
    exact absurd hevent (by decide +kernel)

end TwoDays

end Hat
