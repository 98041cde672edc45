import Hat.Logger.EventLog
import Hat.Minilibs.ArchiveLatest
import Hat.Minilibs.ArchiveStore

/-!
# The status of devices

The routes of the logger answer with the status of a device, which they take from the last line
of the file of its events.  However the threads of the logger take turns, this is the status that
the last stored event has reported.
-/

namespace Hat.Logger

open ArchiveManager Hat.ArchiveThread Hat.Logger.ArchiveThread Json Pathname

/-- The methods that answer with the status of a device. -/
inductive StatusMethod
  | getLightStatus
  | getShutterStatus
  | getSocketStatus
  | getGateStatus
  | getGasValveStatus
  | getFireValveStatus
  | getIrrigatorStatus
  deriving DecidableEq

namespace LoggerRoute

/-- The name of the device is the last piece of the uri without its extension. -/
def deviceOf (uri : String) : Option String :=
  (NameList.init [] uri '/').getLast?.map fun name =>
    String.ofList (FileManager.beforeLast '.' name.toList)

def lastUri (devname : String) : String := "/event/" ++ devname ++ "_state/last"

def statusText (devname status : String) : String :=
  "\x7b\"response\":\n\n\t\x7b\"message\":\"ok\",\"device\":\n\n\t\t\x7b\"name\":\"" ++ devname ++
    "\",\"status\":\"" ++ status ++ "\"\x7d\n\n\t\x7d\n\n\x7d"

def devStatus (aval : String) : String := if aval = "1" ∨ aval = "ON" then "true" else "false"

def shutterStatus (aval : String) : String :=
  if aval = "UP" then "up" else if aval = "DOWN" then "down" else "off"

section

variable (files : FileSystem) (parse : String → List XmlNode) (readJson : String → Option PTree)
  (archive : ArchiveManager)

/-- The common body of the two: the refusals that it knows are passed on, and everything else is
read as the last event. -/
def statusOf (refusals : List String) (status : String → String) (devname : String) :
    Option String :=
  (archive.getLast files parse (lastUri devname)).bind fun last =>
    if last.answer ∈ refusals then some last.answer
    else (readJson last.answer).bind fun pt =>
      (pt.get "value").map fun aval => statusText devname (status aval)

def getDevStatus : String → Option String :=
  statusOf files parse readJson archive ["Not Found", "Forbidden"] devStatus

def getShutterStatus : String → Option String :=
  statusOf files parse readJson archive ["Not Found"] shutterStatus

def response (devname : String) : StatusMethod → Option String
  | .getShutterStatus => getShutterStatus files parse readJson archive devname
  | _ => getDevStatus files parse readJson archive devname

def exec (uri : String) (method : StatusMethod) : Option MMessage :=
  (deviceOf uri).bind fun devname =>
    (response files parse readJson archive devname method).map fun response =>
      let content := if response ∈ ["Not Found", "Invalid Method", "Bad Request"] then "plain/text"
        else "application/json"
      ((MMessage.mk2 "*" "*").add "content" content).add "body" response

end

end LoggerRoute

/-- The characters that can be written between quotes and read again. -/
def Printable (text : String) : Prop :=
  ∀ c ∈ text.toList, 32 ≤ c.toNat ∧ c.toNat < 127 ∧ c ≠ quote ∧ c ≠ '\\'

instance : DecidablePred Printable := fun text =>
  decidable_of_iff (text.toList.all fun c => decide (32 ≤ c.toNat) && decide (c.toNat < 127) &&
    decide (c ≠ quote) && decide (c ≠ '\\')) (by simp [Printable, and_assoc])

/-- All fields are single texts, and names and texts are printable. -/
def Clean (msg : MMessage) : Prop :=
  ∀ name list, msg.fields.find? name = some list →
    Printable name ∧ ∃ value, list = .mstring value ∧ Printable value

section Clean

variable {msg : MMessage}

theorem Clean.add (hclean : Clean msg) {field value : String} (hfield : Printable field)
    (hvalue : Printable value) : Clean (msg.add field value) := by
  intro name list hfind
  rw [MMessage.find?_add] at hfind
  split at hfind
  · rename_i hname
    rw [← hname]
    refine ⟨hfield, value, ?_, hvalue⟩
    rw [← Option.some.inj hfind]
    cases hold : msg.fields.find? field with
    | none => rfl
    | some old =>
        obtain ⟨-, text, rfl, -⟩ := hclean field old hold
        rfl
  · exact hclean name list hfind

theorem Clean.printable_getString (hclean : Clean msg) (field : String) :
    Printable (msg.getString field) := by
  rw [MMessage.getString]
  cases hfind : msg.fields.find? field with
  | none => exact fun c hc => absurd hc List.not_mem_nil
  | some list =>
      obtain ⟨-, value, rfl, hvalue⟩ := hclean field list hfind
      exact hvalue

/-- What the receiver adds is printable too. -/
theorem Clean.forwarded (hclean : Clean msg) {timeofday : String} (htype : Printable msg.mtype)
    (hsubtype : Printable msg.msubtype) (htime : Printable timeofday) :
    Clean (forwarded timeofday msg) := by
  have hbase : Clean { msg with mtype := "logcmd", msubtype := "archive" } := hclean
  apply Clean.add
  · apply Clean.add
    · exact (hbase.add (by decide) htype).add (by decide) hsubtype
    · decide
    · exact htime
  · decide
  · exact hclean.printable_getString "time"

theorem Clean.scalar (hclean : Clean msg) : Scalar msg := by
  intro entry hentry
  obtain ⟨-, value, hvalue, -⟩ :=
    hclean entry.1 entry.2 ((SortedMap.mem_entries_iff _ _ _).mp hentry)
  exact ⟨value, hvalue⟩

theorem Clean.printable_keptFields (hclean : Clean msg) {entry : String × String}
    (hentry : entry ∈ keptFields msg) : Printable entry.1 ∧ Printable entry.2 := by
  obtain ⟨⟨name, list⟩, hmem, hkept⟩ := List.mem_filterMap.mp hentry
  obtain ⟨hname, value, rfl, hvalue⟩ := hclean name list ((SortedMap.mem_entries_iff _ _ _).mp hmem)
  dsimp only at hkept
  split at hkept
  · exact absurd hkept.symm (Option.some_ne_none entry)
  · rw [← Option.some.inj hkept]
    exact ⟨hname, hvalue⟩

theorem Printable.notMem {text : String} (hprintable : Printable text) : '\n' ∉ text.toList := by
  intro hmem
  exact absurd (hprintable '\n' hmem).1 (by decide)

/-- The line of the message has no line end within. -/
theorem Clean.notMem_line (hclean : Clean msg) : '\n' ∉ (line msg).toList := by
  rw [line, logged_eq hclean.scalar, notMem_logLine]
  intro entry hentry
  obtain ⟨hname, hvalue⟩ := hclean.printable_keptFields hentry
  exact ⟨hname.notMem, hvalue.notMem⟩

theorem line_eq_cons (msg : MMessage) :
    ∃ rest, (line msg).toList = openBrace :: rest := ⟨_, toList_logLine (logged msg)⟩

theorem line_ne_empty (msg : MMessage) : line msg ≠ "" := by
  intro hempty
  obtain ⟨rest, hrest⟩ := line_eq_cons msg
  rw [hempty] at hrest
  exact absurd hrest (List.cons_ne_nil _ _).symm

theorem Clean.read_line (hclean : Clean msg) {reader : JsonReader}
    (hraw : ∀ c : Char, 32 ≤ c.toNat → c.toNat < 127 → reader.raw c) :
    reader.read (line msg) = some (flatTree (keptFields msg)) := by
  have hplain : ∀ text : String, Printable text → PlainText reader.raw text := by
    intro text hprintable c hc
    obtain ⟨hlow, hhigh, hquote, hbackslash⟩ := hprintable c hc
    exact ⟨hraw c hlow hhigh, hquote, hbackslash⟩
  rw [line, logged_eq hclean.scalar, logLine_eq]
  apply reader.reads_flat
  intro entry hentry
  obtain ⟨hname, hvalue⟩ := hclean.printable_keptFields hentry
  exact ⟨hplain _ hname, hplain _ hvalue⟩

theorem get_flatTree (entries : List (String × String)) (key : String) :
    (flatTree entries).get key = (entries.find? fun entry => entry.1 = key).map Prod.snd := by
  rw [PTree.get, PTree.getChild, flatTree, PTree.children, List.find?_map, Option.map_map,
    Option.map_map]
  rfl

/-- What is written under a name is the text of that field. -/
theorem snd_of_mem_logged {entry : String × String} (hentry : entry ∈ logged msg) :
    entry.2 = msg.getString entry.1 := by
  obtain ⟨field, -, rfl⟩ := List.mem_map.mp hentry
  rfl

/-- A field that is written is read from the line. -/
theorem get_keptFields (hscalar : Scalar msg) {name value : String} (hname : name ∉ unlogged)
    (hvalue : msg.fields.find? name = some (.mstring value)) :
    (flatTree (keptFields msg)).get name = some value := by
  have htext : msg.getString name = value := by
    rw [MMessage.getString, hvalue]
    rfl
  have hwritten : (name, value) ∈ logged msg := by
    apply List.mem_map.mpr
    refine ⟨(name, .mstring value), List.mem_filter.mpr ⟨?_, by simpa using hname⟩, ?_⟩
    · exact (SortedMap.mem_entries_iff _ _ _).mpr hvalue
    · rw [← htext]
  have hthere : ((logged msg).find? fun entry => entry.1 = name).isSome = true :=
    List.find?_isSome.mpr ⟨(name, value), hwritten, decide_eq_true rfl⟩
  obtain ⟨found, hfound⟩ := Option.isSome_iff_exists.mp hthere
  have hkey : found.1 = name := by simpa using List.find?_some hfound
  have hsecond := snd_of_mem_logged (List.mem_of_find?_eq_some hfound)
  rw [get_flatTree, ← logged_eq hscalar, hfound, Option.map_some, hsecond, hkey, htext]

end Clean

/-- The row is one line of a file. -/
def IsRow (row : String) : Prop := row ≠ "" ∧ '\n' ∉ row.toList

theorem logText_append (rows more : List String) :
    logText (rows ++ more) = logText rows ++ logText more := by
  rw [logText, logText, logText, List.map_append, String.join_append]

theorem lines_logText {rows : List String} (hrows : ∀ row ∈ rows, IsRow row) :
    lines (logText rows) = rows ++ [""] := by
  induction rows with
  | nil => rfl
  | cons row rest ih =>
      obtain ⟨hrow, hrest⟩ := List.forall_mem_cons.mp hrows
      have hline : lines row = [row] := by
        rw [lines, List.splitOn_eq_singleton hrow.2, List.map_singleton, String.ofList_toList]
      have htext : logText (row :: rest) = row ++ "\n" ++ logText rest := by
        rw [logText, List.map_cons, String.join_cons, logText]
      rw [htext, lines_join, hline, ih hrest]
      rfl

theorem lastLine_logText {rows : List String} (hrows : ∀ row ∈ rows, IsRow row) :
    lastLine (logText rows) = rows.getLastD "" := by
  have hall : ∀ row ∈ rows, decide (row ≠ "") = true :=
    fun row hrow => decide_eq_true (hrows row hrow).1
  rw [lastLine, lines_logText hrows, List.takeWhile_append_of_pos hall]
  simp

/-! ## The file behind the uri -/

section Uri

open LoggerRoute

variable {homedir devname : String}

theorem isName_state (hdev : '/' ∉ devname.toList) : IsName (devname ++ "_state") := by
  have hlong : ∀ text : String, text.toList.length < 6 → devname ++ "_state" ≠ text := by
    intro text hlength heq
    have hchars := congrArg (fun text : String => text.toList.length) heq
    simp at hchars
    omega
  refine ⟨?_, ⟨hlong "" (by decide), hlong "." (by decide)⟩, hlong ".." (by decide)⟩
  rw [String.toList_append, List.mem_append, not_or]
  exact ⟨hdev, by decide⟩

/-- The directory that the url of a device leads to. -/
def eventDir (homedir devname : String) : String :=
  homedir ++ "/" ++ "" ++ "/" ++ "event" ++ "/" ++ (devname ++ "_state")

theorem split_lastUri (hdev : '/' ∉ devname.toList) :
    split (lastUri devname) = ["", "event", devname ++ "_state", "last"] := by
  have huri : lastUri devname =
      "" ++ "/" ++ ("event" ++ "/" ++ (devname ++ "_state" ++ "/" ++ "last")) := by
    apply String.toList_inj.mp
    simp [lastUri]
  have hempty : split "" = [""] := split_of_notMem (by decide)
  have hevent : split "event" = ["event"] := split_of_notMem (by decide)
  have hlast : split "last" = ["last"] := split_of_notMem (by decide)
  rw [huri, split_join, split_join, split_join, hempty, hevent, hlast,
    split_of_notMem (isName_state hdev).1]
  rfl

theorem segments_lastUri (hdev : '/' ∉ devname.toList) :
    NameList.segments (lastUri devname) = ["event", devname ++ "_state", "last"] := by
  have hne : lastUri devname ≠ "" := by
    intro hempty
    have hsplit := split_lastUri hdev
    rw [hempty, split_of_notMem (by decide)] at hsplit
    exact absurd hsplit (by simp)
  rw [NameList.segments, init_eq_split hne, split_lastUri hdev, if_neg (by simp)]
  rfl

theorem directory_lastUri {archive : ArchiveManager} {descriptor : RootDescriptor}
    (hroot : archive.accessInfo.find? "event" = some descriptor)
    (hhome : descriptor.home = homedir) :
    archive.directory (lastUri devname) "event" = eventDir homedir devname := by
  have hchars : (homedir ++ "/" ++ lastUri devname).toList =
      (eventDir homedir devname).toList ++ '/' :: "last".toList := by
    simp [lastUri, eventDir]
  rw [directory, hroot]
  dsimp only
  rw [hhome, dirPath, hchars, FileManager.beforeLast_append _ (by decide), String.ofList_toList]

theorem resolve_eventDir (cwd : List String) (hnamed : homedir ≠ "") (hdev : '/' ∉ devname.toList) :
    resolve cwd (eventDir homedir devname ++ "/" ++ "data") =
      dataPlace cwd homedir (devname ++ "_state") := by
  have hslash : resolve cwd (homedir ++ "/" ++ "") = resolve cwd homedir := by
    rw [String.append_empty, resolve_slash, start_slash cwd hnamed, resolve]
  rw [eventDir, resolve_child cwd (join_ne_empty _ _) (by decide),
    resolve_child cwd (join_ne_empty _ _) (isName_state hdev),
    resolve_child cwd (join_ne_empty _ _) (by decide), hslash, dataPlace, List.append_assoc,
    List.append_assoc]
  rfl

theorem notMem_split_eventDir (hhome : ".." ∉ split homedir) (hdev : '/' ∉ devname.toList) :
    ".." ∉ split (eventDir homedir devname) := by
  have hempty : split "" = [""] := split_of_notMem (by decide)
  have hevent : split "event" = ["event"] := split_of_notMem (by decide)
  rw [eventDir, split_join, split_join, split_join, hempty, hevent,
    split_of_notMem (isName_state hdev).1]
  simp only [List.mem_append, List.mem_singleton, not_or]
  exact ⟨⟨⟨hhome, by decide⟩, by decide⟩, (isName_state hdev).2.2.symm⟩

variable {archive : ArchiveManager} {parse : String → List XmlNode} {disk : Disk}

/-- The root of the events lies in the home of the thread, and everybody may read it. -/
structure HoldsEvents (archive : ArchiveManager) (homedir : String) : Prop where
  root : ∃ descriptor, archive.accessInfo.find? "event" = some descriptor ∧
    descriptor.home = homedir ∧ fullAccess descriptor = some true
  straight : ".." ∉ split homedir

/-- Behind the declaration only what begins like a tag is read. -/
def StopsAtText (parse : String → List XmlNode) : Prop :=
  ∀ text : String, text.toList.head? = some openBrace →
    ∃ declaration, parse ("<?xml version=\"1.0\" ?>" ++ text) = [declaration]

/-- The last line of the file is what the url of the device is answered with. -/
theorem getLast_lastUri (harchive : HoldsEvents archive homedir) (hparse : StopsAtText parse)
    (hrooted : disk.Rooted) (hnamed : homedir ≠ "") (hdev : '/' ∉ devname.toList)
    (entries : String → List DirEntry) {text : String}
    (htext : disk.textAt (dataPlace disk.cwd homedir (devname ++ "_state")) = some text)
    (hbrace : (lastLine text).toList.head? = some openBrace) :
    (archive.getLast (files disk entries) parse (lastUri devname)).map Reply.answer =
      some (lastLine text) := by
  obtain ⟨descriptor, hroot, hhome, hfull⟩ := harchive.root
  have hsegments := segments_lastUri hdev
  have hgranted : archive.Granted (lastUri devname) := by
    rw [Granted, hsegments]
    refine ⟨?_, descriptor, hroot, Or.inl hfull⟩
    have hslash : checkedName (lastUri devname) "event" = "event" := by
      rw [checkedName, lastUri, if_pos (by simp)]
    rw [hslash, SortedMap.contains, hroot]
    rfl
  have hexec := getExec_of_granted archive hsegments hgranted
  rw [directory_lastUri hroot hhome] at hexec
  have hread : disk.read (eventDir homedir devname ++ "/" ++ "data") = some text := by
    rw [hrooted.read_eq (notMem_split_eventDir harchive.straight hdev) (by decide) (by decide),
      resolve_eventDir disk.cwd hnamed hdev, htext]
  have hname : latestName (files disk entries) (eventDir homedir devname) = some "data" := by
    have hfile : disk.isFile (eventDir homedir devname ++ "/" ++ "data") = true := by
      rw [Disk.isFile, hread, Option.isSome_some]
    exact if_pos hfile
  rw [getLast_of_latestName parse hexec hname hread]
  obtain ⟨declaration, hdeclaration⟩ := hparse (lastLine text) hbrace
  rw [describe, hdeclaration]
  rfl

/-- The line of a clean message is answered with its value. -/
theorem statusOf_line (harchive : HoldsEvents archive homedir) (hparse : StopsAtText parse)
    (hrooted : disk.Rooted) (hnamed : homedir ≠ "") (hdev : '/' ∉ devname.toList)
    (entries : String → List DirEntry) {reader : JsonReader}
    (hraw : ∀ c : Char, 32 ≤ c.toNat → c.toNat < 127 → reader.raw c) {text value : String}
    {out : MMessage} (hclean : Clean out)
    (hvalue : out.fields.find? "value" = some (.mstring value))
    (htext : disk.textAt (dataPlace disk.cwd homedir (devname ++ "_state")) = some text)
    (hline : lastLine text = line out) {refusals : List String}
    (hrefusals : ∀ refusal ∈ refusals, refusal.toList.head? ≠ some openBrace)
    (status : String → String) :
    statusOf (files disk entries) parse reader.read archive refusals status devname =
      some (statusText devname (status value)) := by
  have hbrace : (line out).toList.head? = some openBrace := by
    obtain ⟨rest, hrest⟩ := line_eq_cons out
    rw [hrest, List.head?_cons]
  obtain ⟨last, hlast, hanswer⟩ := Option.map_eq_some_iff.mp
    (getLast_lastUri harchive hparse hrooted hnamed hdev entries htext (hline ▸ hbrace))
  have hnot : line out ∉ refusals := fun hmem => hrefusals _ hmem hbrace
  rw [statusOf, hlast, Option.bind_some, hanswer, hline, if_neg hnot, hclean.read_line hraw,
    Option.bind_some, get_keptFields hclean.scalar (by decide) hvalue]
  rfl

end Uri

/-! ## Whole runs -/

/-- How many events have arrived that are not stored yet. -/
def pending (feature : String) (state : State) : ℕ :=
  (state.queue.filter fun out => Concerns feature out).length +
    (state.receiver.filter fun msg => IsEvent feature msg).length

/-- The last of some elements goes with the last of what they are related to. -/
theorem exists_getLast_of_forall₂ {α β : Type} {R : α → β → Prop} {front : List α} {x : α}
    {ys : List β} (hrel : List.Forall₂ R (front ++ [x]) ys) :
    ∃ before y, ys = before ++ [y] ∧ R x y := by
  induction front generalizing ys with
  | nil =>
      cases hrel with
      | cons hxy hnil =>
          cases hnil
          exact ⟨[], _, rfl, hxy⟩
  | cons first rest ih =>
      cases hrel with
      | cons _ hrest =>
          obtain ⟨before, y, rfl, hxy⟩ := ih hrest
          exact ⟨_ :: before, y, rfl, hxy⟩

theorem exists_of_forall₂ {α β : Type} {R : α → β → Prop} {xs : List α} {ys : List β}
    (hrel : List.Forall₂ R xs ys) {y : β} (hy : y ∈ ys) : ∃ x ∈ xs, R x y := by
  induction hrel with
  | nil => exact absurd hy List.not_mem_nil
  | cons hxy _ ih =>
      rcases List.mem_cons.mp hy with rfl | hrest
      · exact ⟨_, List.mem_cons_self, hxy⟩
      · obtain ⟨x, hx, hrelated⟩ := ih hrest
        exact ⟨x, List.mem_cons_of_mem _ hx, hrelated⟩

/-- The last event that is stored is the last line of the file. -/
theorem exists_lastLine {thread : ArchiveThread} {watch : Watch} {cwd : List String}
    {rows : List String} {before : Option String} {events : List MMessage} {state : State}
    (hstores : Stores thread watch cwd before events state)
    (hbefore : before.getD "" = logText rows) (hrows : ∀ row ∈ rows, IsRow row)
    (hstamp : ∀ timeofday, watch.stamp timeofday → Printable timeofday)
    (hclean : ∀ msg ∈ events, Clean msg ∧ Printable msg.mtype ∧ Printable msg.msubtype)
    {msg : MMessage}
    (hlast : (events.take (events.length - pending watch.feature state)).getLast? = some msg) :
    ∃ out text, Forwards watch.stamp msg out ∧ Clean out ∧
      state.archive.disk.textAt (dataPlace cwd thread.homedir watch.feature) = some text ∧
      lastLine text = line out := by
  obtain ⟨handled, stored, hevents, hforwards, htext⟩ := hstores.ordered
  have hlength := hforwards.length_eq
  rw [List.length_append] at hlength
  -- What is stored comes from the first events.
  have htake : events.take (events.length - pending watch.feature state) =
      handled.take stored.length := by
    have hcount : events.length - pending watch.feature state = stored.length := by
      rw [hevents, List.length_append, hlength, pending]
      omega
    rw [hcount, hevents, List.take_append_of_le_length (by omega)]
  rw [htake] at hlast
  have hstored : List.Forall₂ (Forwards watch.stamp) (handled.take stored.length) stored := by
    have htaken := List.forall₂_take stored.length hforwards
    rwa [List.take_left] at htaken
  have hcleanOut : ∀ out ∈ stored, Clean out := by
    intro out hout
    obtain ⟨origin, horigin, timeofday, htime, rfl⟩ := exists_of_forall₂ hstored hout
    have hmem : origin ∈ events := by
      rw [hevents]
      exact List.mem_append_left _ (List.mem_of_mem_take horigin)
    obtain ⟨hcleanOrigin, htype, hsubtype⟩ := hclean origin hmem
    exact hcleanOrigin.forwarded htype hsubtype (hstamp timeofday htime)
  have hall : ∀ row ∈ rows ++ stored.map line, IsRow row := by
    intro row hrow
    rcases List.mem_append.mp hrow with hold | hnew
    · exact hrows row hold
    · obtain ⟨out, hout, rfl⟩ := List.mem_map.mp hnew
      exact ⟨line_ne_empty out, (hcleanOut out hout).notMem_line⟩
  obtain ⟨front, hfront⟩ := List.getLast?_eq_some_iff.mp hlast
  rw [hfront] at hstored
  obtain ⟨earlier, out, rfl, hforwardsOut⟩ := exists_getLast_of_forall₂ hstored
  refine ⟨out, logText (rows ++ (earlier ++ [out]).map line), hforwardsOut,
    hcleanOut out (List.mem_append_right _ (List.mem_singleton_self out)), ?_, ?_⟩
  · rw [htext, textAfter, if_neg (by simp), hbefore, logText_append]
  · rw [lastLine_logText hall, List.map_append, ← List.append_assoc, List.map_singleton,
      List.getLastD_concat]

theorem deviceOf_uri (directory : String) {devname : String} (hdev : '/' ∉ devname.toList) :
    LoggerRoute.deviceOf (directory ++ "/" ++ (devname ++ ".json")) = some devname := by
  have hname : '/' ∉ (devname ++ ".json").toList := by
    rw [String.toList_append, List.mem_append, not_or]
    exact ⟨hdev, by decide⟩
  have hshort : devname ++ ".json" ≠ "" := by
    intro hempty
    have hlength := congrArg (fun text : String => text.toList.length) hempty
    simp at hlength
  have hsplit : split (directory ++ "/" ++ (devname ++ ".json")) =
      split directory ++ [devname ++ ".json"] := by
    rw [split_join, split_of_notMem hname]
  have hlast : (split directory ++ [devname ++ ".json"]).getLast? ≠ some "" := by
    rw [List.getLast?_concat]
    exact fun heq => hshort (Option.some.inj heq)
  rw [LoggerRoute.deviceOf, init_eq_split (join_ne_empty directory _), hsplit, if_neg hlast,
    List.getLast?_concat, Option.map_some]
  have hchars : (devname ++ ".json").toList = devname.toList ++ '.' :: "json".toList := by
    rw [String.toList_append]
    rfl
  rw [hchars, FileManager.beforeLast_append _ (by decide), String.ofList_toList]

/-- Other fields are as in the message that has come. -/
theorem find?_forwarded (timeofday : String) (msg : MMessage) {field : String}
    (hfield : field ∉ ["class", "feature", "timeofday", "time"]) :
    (forwarded timeofday msg).fields.find? field = msg.fields.find? field := by
  simp only [List.mem_cons, not_or] at hfield
  obtain ⟨hclass, hfeature, hday, htime, -⟩ := hfield
  rw [forwarded, MMessage.find?_add_of_ne _ _ (Ne.symm htime),
    MMessage.find?_add_of_ne _ _ (Ne.symm hday), MMessage.find?_add_of_ne _ _ (Ne.symm hfeature),
    MMessage.find?_add_of_ne _ _ (Ne.symm hclass)]

theorem isEvent_of_arrived {feature : String} {run : List Move} {msg : MMessage}
    (hmsg : msg ∈ arrived feature run) : IsEvent feature msg := by
  obtain ⟨move, -, hmove⟩ := List.mem_filterMap.mp hmsg
  cases move with
  | arrive other =>
      rw [Move.event?] at hmove
      split at hmove
      · rename_i hevent
        rwa [← Option.some.inj hmove]
      · exact absurd hmove.symm (Option.some_ne_none msg)
  | forward _ => exact absurd hmove.symm (Option.some_ne_none msg)
  | store _ => exact absurd hmove.symm (Option.some_ne_none msg)

theorem printable_state {devname : String} (hprintable : Printable devname) :
    Printable (devname ++ "_state") := by
  have hstate : Printable "_state" := by decide
  intro c hc
  rw [String.toList_append, List.mem_append] at hc
  exact hc.elim (hprintable c) (hstate c)

/-- What a device has to answer when its last event has a value. -/
def reported (value : String) : StatusMethod → String
  | .getShutterStatus => LoggerRoute.shutterStatus value
  | _ => LoggerRoute.devStatus value

def lampThread : ArchiveThread where
  homedir := "/hat"
  trace := ⟨"trace", [⟨"all", "generic", "yes"⟩], none, none⟩
  active := false

def lampEvent (value : String) : MMessage := (MMessage.mk2 "event" "lamp_state").add "value" value

/-- The lamp is switched on, and off again while the first event is not stored yet. -/
def lampRun : List Move :=
  [.arrive (lampEvent "1"), .arrive (MMessage.mk2 "event" "door_state"), .forward "120000",
    .arrive (lampEvent "0"), .forward "120001", .store "2026_01_01", .forward "120002",
    .store "2026_01_01", .store "2026_01_01"]

/-- A tag is all that it reads. -/
def declarationOnly (_ : String) : List XmlNode := [.other]

theorem loggable_lampEvent (value : String) : Loggable (lampEvent value) := by
  have hother : ∀ field : String, "value" ≠ field →
      ∀ items, (lampEvent value).fields.find? field ≠ some (.mstringList items) := by
    intro field hne items
    rw [lampEvent, MMessage.find?_add_of_ne _ _ hne]
    exact fun hfield => absurd hfield.symm (Option.some_ne_none _)
  refine ⟨hother "class" (by decide), hother "feature" (by decide), ?_, ?_⟩
  · rw [lampEvent, MMessage.mtype_add]
    decide
  · rw [lampEvent, MMessage.msubtype_add]
    decide

theorem clean_lampEvent {value : String} (hvalue : Printable value) : Clean (lampEvent value) := by
  apply Clean.add _ (by decide) hvalue
  exact fun name list hfind => absurd hfind.symm (Option.some_ne_none _)

theorem loggable_door : Loggable (MMessage.mk2 "event" "door_state") :=
  ⟨fun _ hfield => absurd hfield.symm (Option.some_ne_none _),
    fun _ hfield => absurd hfield.symm (Option.some_ne_none _), by decide, by decide⟩

theorem allows_lampRun : ∀ move ∈ lampRun,
    (Watch.mk ("lamp" ++ "_state") 0 Printable "2026_01_01").Allows move := by
  have hpriority : ∀ value, (lampEvent value).priority = 0 := fun value => MMessage.priority_add _ _ _
  have hlamp : ∀ value, (Watch.mk ("lamp" ++ "_state") 0 Printable "2026_01_01").Allows
      (.arrive (lampEvent value)) :=
    fun value => ⟨loggable_lampEvent value, fun _ => hpriority value⟩
  have hdoor : (Watch.mk ("lamp" ++ "_state") 0 Printable "2026_01_01").Allows
      (.arrive (MMessage.mk2 "event" "door_state")) := ⟨loggable_door, fun _ => rfl⟩
  have hforward : ∀ timeofday, Printable timeofday →
      (Watch.mk ("lamp" ++ "_state") 0 Printable "2026_01_01").Allows (.forward timeofday) :=
    fun _ => id
  have hstore : (Watch.mk ("lamp" ++ "_state") 0 Printable "2026_01_01").Allows
      (.store "2026_01_01") := rfl
  simp only [lampRun, List.forall_mem_cons]
  exact ⟨hlamp "1", hdoor, hforward _ (by decide), hlamp "0", hforward _ (by decide), hstore,
    hforward _ (by decide), hstore, hstore, fun _ hmem => absurd hmem List.not_mem_nil⟩

theorem arrived_lampRun : arrived ("lamp" ++ "_state") lampRun = [lampEvent "1", lampEvent "0"] := by
  decide +kernel

theorem holdsEvents_journal : HoldsEvents journal "/hat" :=
  ⟨⟨⟨30, "/hat", ["*"]⟩, SortedMap.find?_insert_self _ _ _, rfl, by decide⟩, by decide⟩

theorem layout_emptyHome : Layout "/hat" ("lamp" ++ "_state") emptyHome := by
  refine ⟨by decide, emptyHome_rooted, by decide +kernel, by decide +kernel, ?_, ?_, by decide +kernel⟩
  · exact Or.inl (by decide +kernel)
  · exact Or.inl (by decide +kernel)

end Hat.Logger
