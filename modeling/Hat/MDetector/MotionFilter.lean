import Hat.Core.Disk
import Hat.Core.Machine
import Hat.Minilibs.ArchiveExplore
import Hat.Minilibs.QueueDiscipline
import Hat.Minilibs.RemoteDelivery

/-!
# Motion files

The cameras put files into their directories.  The watch reports each new file to the filter,
which asks a command about it, tells the other agents if that sees an alarm, and deletes the
file.  However the cameras, the watch and the filter take turns, each new file is handled once
and in its turn, and what is left is what was there before and what still waits.
-/

namespace Hat.MDetector

open Pathname

structure DirToWatch where
  name : String
  pathname : String
  status : String
  /-- The descriptor under which the system reports what happens in the directory. -/
  wd : ℤ
  deriving DecidableEq

def DirToWatch.new (name : String) (params : MParams) (wd : ℤ) : DirToWatch :=
  ⟨name, params.get "pathname",
    if params.get "status" = "" then "ON" else params.get "status", wd⟩

inductive Change
  | create
  | modify
  | delete
  deriving DecidableEq

def Change.text : Change → String
  | .create => "fcreate"
  | .modify => "fmodified"
  | .delete => "fdelete"

structure InotifyEvent where
  wd : ℤ
  change : Change
  name : String

structure FDesc where
  pathname : String
  source : String
  event : String
  status : String

/-- Each directory has a descriptor of its own. -/
structure FileNotify where
  cameras : List DirToWatch
  distinct : (cameras.map DirToWatch.wd).Nodup

namespace FileNotify

variable (watcher : FileNotify)

def watched (wd : ℤ) : Option DirToWatch := watcher.cameras.find? fun camera => camera.wd = wd

def getPathname (wd : ℤ) : String := ((watcher.watched wd).map DirToWatch.pathname).getD ""

def getName (wd : ℤ) : String := ((watcher.watched wd).map DirToWatch.name).getD ""

def getStatus (wd : ℤ) : String := ((watcher.watched wd).map DirToWatch.status).getD ""

/-- What `fnotify` makes of one event. -/
def describe (event : InotifyEvent) : FDesc :=
  ⟨watcher.getPathname event.wd ++ "/" ++ event.name, watcher.getName event.wd,
    event.change.text, watcher.getStatus event.wd⟩

end FileNotify

/-- The message about a new file. -/
def motion (agentname : String) (fdesc : FDesc) : MMessage :=
  (((((MMessage.mk2 "local_event" "motion").add "event_source" ("SE_" ++ fdesc.source)).add
    "pathname" fdesc.pathname).add "value" "1").add "agent" agentname).add "status" fdesc.status

namespace MdFilter

/-- The last two segments. -/
def path2Url (path : String) : String :=
  match (NameList.init [] path '/').reverse with
  | last :: parent :: _ :: _ => parent ++ "/" ++ last
  | _ => path

/-- What is not a file is left alone. -/
def deleteFile (filepath filename : String) (disk : Disk) : Disk :=
  let path := if filename = "" then filepath else filepath ++ "/" ++ filename
  (disk.deleteFile path).getD disk

/-- Without a command every file is an alarm. -/
def response (filterCMD : String) (cmdExec : String → String) (pathname : String) : String :=
  if filterCMD = "" then "ALARM\n" else cmdExec (Hsrv.strReplace filterCMD "$INPUT" pathname)

/-- The event that other agents are told. -/
def event (evtime : String) (msg : MMessage) : MMessage :=
  let msg : MMessage := { msg with mtype := "event", msubtype := msg.getString "event_source" }
  (((msg.remove "pathname").add "video" (path2Url (msg.getString "pathname"))).add
    "value" "ON").add "evtime" evtime

/-- One turn of the service loop with what it notifies. -/
def doWork (filterCMD : String) (cmdExec : String → String) (evtime : String) (msg : MMessage)
    (disk : Disk) : Disk × List MMessage :=
  let pathname := msg.getString "pathname"
  let parentDir := ArchiveManager.getParentDirectory pathname
  let disk' := deleteFile parentDir (FileManager.getTail pathname) disk
  if msg.mtype = "local_event" ∧ msg.getString "status" = "OFF" then (disk', [])
  else if msg.mtype = "local_event" then
    (disk', if response filterCMD cmdExec pathname = "ALARM\n" then [event evtime msg] else [])
  else (disk, [])

end MdFilter

structure Detector where
  watcher : FileNotify
  agentname : String
  filterCMD : String

/-- What the system has to report, what the watch has read and not told yet, the queue of the
filter and what it has notified. -/
structure State where
  disk : Disk
  kernel : List InotifyEvent
  events : List FDesc
  queue : List MMessage
  notified : List MMessage

inductive Move
  | change (camera : DirToWatch) (change : Change) (name content : String)
  | read (count : ℕ)
  | tell
  | filter (cmdExec : String → String) (evtime : String)

/-- What a camera does to a file. -/
def Change.apply (path content : String) (disk : Disk) : Change → Option Disk
  | .create => if disk.isFile path = true then none else disk.create path content
  | .modify => if disk.isFile path = true then disk.create path content else none
  | .delete => disk.deleteFile path

def step (detector : Detector) (state : State) : Move → Option State
  | .change camera change name content =>
      if camera ∈ detector.watcher.cameras ∧ IsName name then
        (change.apply (camera.pathname ++ "/" ++ name) content state.disk).map fun disk =>
          { state with disk := disk, kernel := state.kernel ++ [⟨camera.wd, change, name⟩] }
      else none
  | .read count =>
      if state.events = [] ∧ 0 < count ∧ count ≤ state.kernel.length then
        some { state with
          kernel := state.kernel.drop count
          events := (state.kernel.take count).map detector.watcher.describe }
      else none
  | .tell =>
      match state.events with
      | [] => none
      | fdesc :: rest =>
          some { state with
            events := rest
            queue := state.queue ++
              if fdesc.event = "fcreate" then [motion detector.agentname fdesc] else [] }
  | .filter cmdExec evtime =>
      (PriorityQueue.select MMessage.priority state.queue).map fun taken =>
        let handled := MdFilter.doWork detector.filterCMD cmdExec evtime taken.1 state.disk
        { state with
          disk := handled.1, queue := taken.2, notified := state.notified ++ handled.2 }

/-! ## New files -/

/-- The camera and the name of a new file. -/
abbrev Made := DirToWatch × String

def Made.path (made : Made) : String := made.1.pathname ++ "/" ++ made.2

def Made.fdesc (made : Made) : FDesc := ⟨made.path, made.1.name, "fcreate", made.1.status⟩

def Made.place (cwd : List String) (made : Made) : List String :=
  resolve cwd made.1.pathname ++ [made.2]

/-- A new file belongs to a camera and has a name. -/
def FileNotify.Knows (watcher : FileNotify) (made : Made) : Prop :=
  made.1 ∈ watcher.cameras ∧ IsName made.2

/-- The directories of the cameras are there. -/
structure FileNotify.Installed (watcher : FileNotify) (disk : Disk) : Prop where
  named : ∀ camera ∈ watcher.cameras, camera.pathname ≠ ""
  located : ∀ camera ∈ watcher.cameras,
    disk.locate camera.pathname = some (resolve disk.cwd camera.pathname)
  directory : ∀ camera ∈ watcher.cameras,
    disk.lookup (resolve disk.cwd camera.pathname) = some .dir

section New

variable {watcher : FileNotify} {made : Made} {disk other : Disk}

theorem FileNotify.watched_wd {camera : DirToWatch} (hcamera : camera ∈ watcher.cameras) :
    watcher.watched camera.wd = some camera := by
  have hthere : (watcher.watched camera.wd).isSome = true :=
    List.find?_isSome.mpr ⟨camera, hcamera, decide_eq_true rfl⟩
  obtain ⟨found, hfound⟩ := Option.isSome_iff_exists.mp hthere
  have hwd : found.wd = camera.wd := by simpa using List.find?_some hfound
  have hsame := List.inj_on_of_nodup_map watcher.distinct (List.mem_of_find?_eq_some hfound)
    hcamera hwd
  rw [hfound, hsame]

theorem FileNotify.describe_create (hknows : watcher.Knows made) :
    watcher.describe ⟨made.1.wd, .create, made.2⟩ = made.fdesc := by
  rw [FileNotify.describe, FileNotify.getPathname, FileNotify.getName, FileNotify.getStatus,
    FileNotify.watched_wd hknows.1]
  rfl

theorem FileNotify.Installed.dirsIn (hinstalled : watcher.Installed disk)
    (hdirs : disk.DirsIn other) : watcher.Installed other where
  named := hinstalled.named
  located camera hcamera := by
    rw [hdirs.1]
    exact hdirs.locate (hinstalled.located camera hcamera)
  directory camera hcamera := by
    rw [hdirs.1]
    exact hdirs.2 _ (hinstalled.directory camera hcamera)

theorem FileNotify.Installed.resolve_path (hinstalled : watcher.Installed disk)
    (hknows : watcher.Knows made) : resolve disk.cwd made.path = made.place disk.cwd :=
  resolve_child disk.cwd (hinstalled.named _ hknows.1) hknows.2

theorem FileNotify.Installed.locate_path (hinstalled : watcher.Installed disk)
    (hknows : watcher.Knows made) : disk.locate made.path = some (made.place disk.cwd) :=
  Disk.locate_child (hinstalled.named _ hknows.1) (hinstalled.located _ hknows.1)
    (hinstalled.directory _ hknows.1) hknows.2

end New

namespace MdFilter

theorem getTail_join (directory : String) {name : String} (hname : '/' ∉ name.toList) :
    FileManager.getTail (directory ++ "/" ++ name) = name := by
  have hchars : (directory ++ "/" ++ name).toList = directory.toList ++ '/' :: name.toList := by
    simp
  have hslash : '/' ∈ directory.toList ++ '/' :: name.toList := by simp
  have hparts := FileManager.beforeLast_append_afterLast hslash
  rw [FileManager.beforeLast_append _ hname] at hparts
  have htail := List.cons.inj (List.append_cancel_left hparts)
  rw [FileManager.getTail, hchars, htail.2, String.ofList_toList]

theorem getParentDirectory_join (directory : String) {name : String}
    (hname : '/' ∉ name.toList) :
    ArchiveManager.getParentDirectory (directory ++ "/" ++ name) = directory := by
  have hchars : (directory ++ "/" ++ name).toList = directory.toList ++ '/' :: name.toList := by
    simp
  rw [ArchiveManager.getParentDirectory, if_pos (by simp), ArchiveManager.dirPath, hchars,
    FileManager.beforeLast_append _ hname, String.ofList_toList]

/-- The file of the message is the one that goes. -/
theorem deleteFile_path {made : Made} (hname : IsName made.2) (disk : Disk) :
    deleteFile (ArchiveManager.getParentDirectory made.path) (FileManager.getTail made.path) disk =
      (disk.deleteFile made.path).getD disk := by
  rw [Made.path, getTail_join _ hname.1, getParentDirectory_join _ hname.1, deleteFile,
    if_neg hname.2.1.1]

/-- What other agents learn from an event. -/
structure Notice where
  mtype : String
  msubtype : String
  video : String
  value : String
  evtime : String
  deriving DecidableEq

def Notice.of (msg : MMessage) : Notice :=
  ⟨msg.mtype, msg.msubtype, msg.getString "video", msg.getString "value", msg.getString "evtime"⟩

/-- What is to be told of a new file, when the commands answer like that at that time. -/
def notice (filterCMD : String) (made : Made) (heard : (String → String) × String) :
    Option Notice :=
  if made.1.status = "OFF" then none
  else if response filterCMD heard.1 made.path = "ALARM\n" then
    some ⟨"event", "SE_" ++ made.1.name, path2Url made.path, "ON", heard.2⟩
  else none

section Motion

variable (agentname : String) (fdesc : FDesc)

theorem find?_motion {field : String} (hfield : field ∉ ["event_source", "pathname", "value",
    "agent", "status"]) : (motion agentname fdesc).fields.find? field = none := by
  simp only [List.mem_cons, not_or] at hfield
  obtain ⟨hsource, hpathname, hvalue, hagent, hstatus, -⟩ := hfield
  rw [motion, MMessage.find?_add_of_ne _ _ (Ne.symm hstatus),
    MMessage.find?_add_of_ne _ _ (Ne.symm hagent), MMessage.find?_add_of_ne _ _ (Ne.symm hvalue),
    MMessage.find?_add_of_ne _ _ (Ne.symm hpathname),
    MMessage.find?_add_of_ne _ _ (Ne.symm hsource)]
  rfl

theorem getString_status : (motion agentname fdesc).getString "status" = fdesc.status := by
  apply MMessage.getString_add_self
  intro items
  rw [MMessage.find?_add_of_ne _ _ (by decide), MMessage.find?_add_of_ne _ _ (by decide),
    MMessage.find?_add_of_ne _ _ (by decide), MMessage.find?_add_of_ne _ _ (by decide)]
  exact (Option.some_ne_none _).symm

theorem getString_pathname : (motion agentname fdesc).getString "pathname" = fdesc.pathname := by
  rw [motion, MMessage.getString_add_of_ne _ _ (by decide),
    MMessage.getString_add_of_ne _ _ (by decide), MMessage.getString_add_of_ne _ _ (by decide)]
  apply MMessage.getString_add_self
  intro items
  rw [MMessage.find?_add_of_ne _ _ (by decide)]
  exact (Option.some_ne_none _).symm

theorem getString_source :
    (motion agentname fdesc).getString "event_source" = "SE_" ++ fdesc.source := by
  rw [motion, MMessage.getString_add_of_ne _ _ (by decide),
    MMessage.getString_add_of_ne _ _ (by decide), MMessage.getString_add_of_ne _ _ (by decide),
    MMessage.getString_add_of_ne _ _ (by decide)]
  exact MMessage.getString_add_self _ _ _ fun _ => (Option.some_ne_none _).symm

theorem find?_value : (motion agentname fdesc).fields.find? "value" = some (.mstring "1") := by
  rw [motion, MMessage.find?_add_of_ne _ _ (by decide), MMessage.find?_add_of_ne _ _ (by decide),
    MMessage.find?_add, if_pos rfl, MMessage.find?_add_of_ne _ _ (by decide),
    MMessage.find?_add_of_ne _ _ (by decide)]
  rfl

theorem priority_motion : (motion agentname fdesc).priority = 0 := by
  simp only [motion, MMessage.priority_add]
  rfl

theorem mtype_motion : (motion agentname fdesc).mtype = "local_event" := by
  simp only [motion, MMessage.mtype_add]
  rfl

variable (evtime : String)

/-- Before the three fields are added, what the message had is there but for its path. -/
theorem find?_remove {field : String} (hfield : "pathname" ≠ field) (msg : MMessage) :
    (msg.remove "pathname").fields.find? field = msg.fields.find? field := by
  rw [MMessage.remove, SortedMap.find?_erase, if_neg hfield]

theorem mtype_event (msg : MMessage) : (event evtime msg).mtype = "event" := by
  simp only [event, MMessage.mtype_add]
  rfl

theorem msubtype_event (msg : MMessage) :
    (event evtime msg).msubtype = msg.getString "event_source" := by
  simp only [event, MMessage.msubtype_add]
  rfl

theorem video_event : (event evtime (motion agentname fdesc)).getString "video" =
    path2Url fdesc.pathname := by
  rw [event, MMessage.getString_add_of_ne _ _ (by decide),
    MMessage.getString_add_of_ne _ _ (by decide)]
  rw [MMessage.getString_add_self]
  · exact congrArg path2Url (getString_pathname agentname fdesc)
  · intro items
    rw [find?_remove (by decide), find?_motion agentname fdesc (by decide)]
    exact (Option.some_ne_none _).symm

theorem value_event : (event evtime (motion agentname fdesc)).getString "value" = "ON" := by
  rw [event, MMessage.getString_add_of_ne _ _ (by decide)]
  apply MMessage.getString_add_self
  intro items
  rw [MMessage.find?_add_of_ne _ _ (by decide), find?_remove (by decide)]
  rw [find?_value agentname fdesc]
  exact fun h => MstringList.noConfusion (Option.some.inj h)

theorem evtime_event : (event evtime (motion agentname fdesc)).getString "evtime" = evtime := by
  rw [event]
  apply MMessage.getString_add_self
  intro items
  rw [MMessage.find?_add_of_ne _ _ (by decide), MMessage.find?_add_of_ne _ _ (by decide),
    find?_remove (by decide)]
  rw [find?_motion agentname fdesc (by decide)]
  exact (Option.some_ne_none _).symm

/-- The event of a new file has its camera, its video and the time. -/
theorem notice_event : Notice.of (event evtime (motion agentname fdesc)) =
    ⟨"event", "SE_" ++ fdesc.source, path2Url fdesc.pathname, "ON", evtime⟩ := by
  rw [Notice.of, mtype_event, msubtype_event, getString_source, video_event, value_event,
    evtime_event]

end Motion

/-- The filter deletes a new file, and tells of it what is to be told. -/
theorem doWork_motion (filterCMD agentname : String) (cmdExec : String → String)
    (evtime : String) {made : Made} (hname : IsName made.2) (disk : Disk) :
    (doWork filterCMD cmdExec evtime (motion agentname made.fdesc) disk).1 =
        (disk.deleteFile made.path).getD disk ∧
      (doWork filterCMD cmdExec evtime (motion agentname made.fdesc) disk).2.map Notice.of =
        (notice filterCMD made (cmdExec, evtime)).toList := by
  have hpath : made.fdesc.pathname = made.path := rfl
  have hstatus : made.fdesc.status = made.1.status := rfl
  rw [doWork, getString_pathname, getString_status, mtype_motion, hpath, hstatus,
    deleteFile_path hname, notice]
  by_cases hoff : made.1.status = "OFF"
  · rw [if_pos ⟨rfl, hoff⟩, if_pos hoff]
    exact ⟨rfl, rfl⟩
  · rw [if_neg fun h => hoff h.2, if_pos rfl, if_neg hoff]
    refine ⟨rfl, ?_⟩
    dsimp only
    split
    · rw [List.map_singleton, notice_event]
      rfl
    · rfl

end MdFilter

section Disk

variable {watcher : FileNotify} {made : Made} {disk other : Disk}

/-- Deleting a file leaves nothing at its place, whether there was something or not. -/
theorem FileNotify.Installed.textAt_deleteFile (hinstalled : watcher.Installed disk)
    (hknows : watcher.Knows made) :
    disk.DirsIn ((disk.deleteFile made.path).getD disk) ∧
      ((disk.deleteFile made.path).getD disk).textAt =
        Function.update disk.textAt (made.place disk.cwd) none := by
  cases hdelete : disk.deleteFile made.path with
  | some other =>
      have hwrites := Disk.writes_deleteFile hdelete
      rw [hinstalled.resolve_path hknows] at hwrites
      exact ⟨hwrites.dirsIn, hwrites.textAt⟩
  | none =>
      have hnone : disk.textAt (made.place disk.cwd) = none := by
        rw [Disk.deleteFile, hinstalled.locate_path hknows, Option.map_eq_none_iff] at hdelete
        by_contra hsome
        rw [Option.filter_some, if_pos] at hdelete
        · exact Option.some_ne_none _ hdelete
        · exact Option.isSome_iff_ne_none.mpr hsome
      refine ⟨Disk.DirsIn.refl disk, ?_⟩
      rw [← hnone, Function.update_eq_self]
      rfl

/-- A camera changes one file, and only a creation makes one. -/
theorem FileNotify.Installed.textAt_apply (hinstalled : watcher.Installed disk)
    (hknows : watcher.Knows made) {change : Change} {content : String}
    (happly : change.apply made.path content disk = some other) :
    disk.DirsIn other ∧
      (∀ place, place ≠ made.place disk.cwd → other.textAt place = disk.textAt place) ∧
      (other.textAt (made.place disk.cwd) ≠ none →
        change = .create ∨ disk.textAt (made.place disk.cwd) ≠ none) := by
  have hplace := hinstalled.resolve_path hknows
  cases change with
  | create =>
      rw [Change.apply] at happly
      split at happly
      · exact absurd happly.symm (Option.some_ne_none _)
      · have hwrites := Disk.writes_create happly
        rw [hplace] at hwrites
        exact ⟨hwrites.dirsIn, hwrites.others, fun _ => Or.inl rfl⟩
  | modify =>
      rw [Change.apply] at happly
      split at happly
      · rename_i hfile
        have hwrites := Disk.writes_create happly
        rw [hplace] at hwrites
        refine ⟨hwrites.dirsIn, hwrites.others, fun _ => Or.inr ?_⟩
        rw [Disk.isFile, Disk.read, hinstalled.locate_path hknows, Option.bind_some] at hfile
        exact Option.isSome_iff_ne_none.mp hfile
      · exact absurd happly.symm (Option.some_ne_none _)
  | delete =>
      have hwrites := Disk.writes_deleteFile happly
      rw [hplace] at hwrites
      exact ⟨hwrites.dirsIn, hwrites.others, fun hsome => absurd hwrites.self hsome⟩

end Disk

/-! ## Whole runs -/

/-- The new file that a move makes. -/
def Move.made? : Move → Option Made
  | .change camera .create name _ => some (camera, name)
  | _ => none

/-- The answers of the commands and the time in a turn of the filter. -/
def Move.heard? : Move → Option ((String → String) × String)
  | .filter cmdExec evtime => some (cmdExec, evtime)
  | _ => none

/-- The new files of a run, in the order in which they were made. -/
def created (run : List Move) : List Made := run.filterMap Move.made?

/-- The turns of the filter in a run. -/
def turns (run : List Move) : List ((String → String) × String) := run.filterMap Move.heard?

/-- What is to be told when the files are handled in their order. -/
def notices (filterCMD : String) (made : List Made) (heard : List ((String → String) × String)) :
    List MdFilter.Notice :=
  (made.zip heard).filterMap fun file => MdFilter.notice filterCMD file.1 file.2

/-- The messages that the watch has still to send. -/
def unsent (detector : Detector) (state : State) : List MMessage :=
  ((state.events ++ state.kernel.map detector.watcher.describe).filter fun fdesc =>
    fdesc.event = "fcreate").map (motion detector.agentname)

/-- What holds in a run: some files are handled, the others wait in their order, and what is in
the directories was there before or waits. -/
structure Sound (detector : Detector) (start : Disk) (made : List Made)
    (heard : List ((String → String) × String)) (state : State) : Prop where
  dirsIn : start.DirsIn state.disk
  known : ∀ file ∈ made, detector.watcher.Knows file
  ordered : ∃ handled waiting, made = handled ++ waiting ∧ handled.length = heard.length ∧
    waiting.map (fun file => motion detector.agentname file.fdesc) =
      state.queue ++ unsent detector state ∧
    state.notified.map MdFilter.Notice.of = notices detector.filterCMD handled heard ∧
    ∀ place, state.disk.textAt place ≠ none →
      start.textAt place ≠ none ∨ ∃ file ∈ waiting, file.place start.cwd = place
  others : ∀ place, (∀ camera ∈ detector.watcher.cameras, ∀ name,
    place ≠ resolve start.cwd camera.pathname ++ [name]) →
    state.disk.textAt place = start.textAt place

section Steps

variable {detector : Detector} {start : Disk} {made : List Made}
  {heard : List ((String → String) × String)} {state : State}

theorem Sound.change (hsound : Sound detector start made heard state)
    (hinstalled : detector.watcher.Installed start) {camera : DirToWatch} {change : Change}
    {name content : String} (hknows : detector.watcher.Knows (camera, name)) {disk : Disk}
    (happly : change.apply (camera.pathname ++ "/" ++ name) content state.disk = some disk) :
    Sound detector start (made ++ (Move.made? (.change camera change name content)).toList) heard
      { state with disk := disk, kernel := state.kernel ++ [⟨camera.wd, change, name⟩] } := by
  obtain ⟨handled, waiting, hmade, hlength, hwaiting, hnotified, hthere⟩ := hsound.ordered
  have hnow := hinstalled.dirsIn hsound.dirsIn
  obtain ⟨hdirs, hothers, hself⟩ := hnow.textAt_apply hknows happly
  rw [hsound.dirsIn.1] at hothers hself
  have hnew : (Move.made? (.change camera change name content)).toList =
      if change = .create then [(camera, name)] else [] := by
    cases change <;> rfl
  refine ⟨hsound.dirsIn.trans hdirs, ?_, ⟨handled,
    waiting ++ (Move.made? (.change camera change name content)).toList, ?_, hlength, ?_,
    hnotified, ?_⟩, ?_⟩
  · intro file hfile
    rcases List.mem_append.mp hfile with hold | hlast
    · exact hsound.known file hold
    · rw [hnew] at hlast
      split at hlast
      · rw [List.mem_singleton.mp hlast]
        exact hknows
      · exact absurd hlast List.not_mem_nil
  · rw [hmade, List.append_assoc]
  · have hunsent : unsent detector { state with
          disk := disk, kernel := state.kernel ++ [⟨camera.wd, change, name⟩] } =
        unsent detector state ++
          if change = .create then [motion detector.agentname (Made.fdesc (camera, name))]
          else [] := by
      rw [unsent, unsent, List.map_append, ← List.append_assoc, List.filter_append,
        List.map_append, List.map_singleton]
      cases change with
      | create =>
          have hdescribe := FileNotify.describe_create hknows
          rw [show (⟨camera.wd, .create, name⟩ : InotifyEvent) =
            ⟨(camera, name).1.wd, .create, (camera, name).2⟩ from rfl, hdescribe]
          rfl
      | modify => rfl
      | delete => rfl
    rw [hunsent, List.map_append, hwaiting, hnew, ← List.append_assoc]
    split <;> rfl
  · intro place hplace
    by_cases hsame : place = Made.place start.cwd (camera, name)
    · rw [hsame] at hplace ⊢
      rcases hself hplace with hcreate | hold
      · refine Or.inr ⟨(camera, name), ?_, rfl⟩
        rw [hnew, if_pos hcreate]
        exact List.mem_append_right _ List.mem_cons_self
      · exact (hthere _ hold).imp_right fun ⟨file, hfile, hat⟩ =>
          ⟨file, List.mem_append_left _ hfile, hat⟩
    · rw [hothers place hsame] at hplace
      exact (hthere place hplace).imp_right fun ⟨file, hfile, hat⟩ =>
        ⟨file, List.mem_append_left _ hfile, hat⟩
  · intro place hplace
    rw [hothers place (hplace camera hknows.1 name)]
    exact hsound.others place hplace

theorem Sound.read (hsound : Sound detector start made heard state) (hidle : state.events = [])
    (count : ℕ) :
    Sound detector start made heard { state with
      kernel := state.kernel.drop count
      events := (state.kernel.take count).map detector.watcher.describe } := by
  obtain ⟨handled, waiting, hmade, hlength, hwaiting, hnotified, hthere⟩ := hsound.ordered
  have hunsent : unsent detector { state with
        kernel := state.kernel.drop count
        events := (state.kernel.take count).map detector.watcher.describe } =
      unsent detector state := by
    rw [unsent, unsent, hidle, List.nil_append, ← List.map_append, List.take_append_drop]
  refine ⟨hsound.dirsIn, hsound.known, ⟨handled, waiting, hmade, hlength, ?_, hnotified,
    hthere⟩, hsound.others⟩
  rw [hunsent]
  exact hwaiting

theorem Sound.tell (hsound : Sound detector start made heard state) {fdesc : FDesc}
    {rest : List FDesc} (hevents : state.events = fdesc :: rest) :
    Sound detector start made heard { state with
      events := rest
      queue := state.queue ++
        if fdesc.event = "fcreate" then [motion detector.agentname fdesc] else [] } := by
  obtain ⟨handled, waiting, hmade, hlength, hwaiting, hnotified, hthere⟩ := hsound.ordered
  refine ⟨hsound.dirsIn, hsound.known, ⟨handled, waiting, hmade, hlength, ?_, hnotified,
    hthere⟩, hsound.others⟩
  rw [hwaiting, unsent, unsent, hevents, List.cons_append, List.append_assoc]
  apply congrArg
  by_cases hcreate : fdesc.event = "fcreate"
  · rw [if_pos hcreate, List.filter_cons, if_pos (decide_eq_true hcreate)]
    rfl
  · rw [if_neg hcreate, List.filter_cons, if_neg (by simpa using hcreate)]
    rfl

/-- All messages of the watch have one priority, so the filter takes the first of them. -/
theorem queue_of_select {msg : MMessage} {rest queue : List MMessage}
    (hpriority : ∀ other ∈ queue, other.priority = 0)
    (hselect : PriorityQueue.select MMessage.priority queue = some (msg, rest)) :
    queue = msg :: rest := by
  have hfilter := PriorityQueue.filter_of_select (p := fun _ => true) hselect
    fun first hfirst second hsecond _ _ => by rw [hpriority first hfirst, hpriority second hsecond]
  simpa using hfilter

theorem Sound.filter (hsound : Sound detector start made heard state)
    (hinstalled : detector.watcher.Installed start) (cmdExec : String → String)
    (evtime : String) {msg : MMessage} {rest : List MMessage}
    (hselect : PriorityQueue.select MMessage.priority state.queue = some (msg, rest)) :
    let handled := MdFilter.doWork detector.filterCMD cmdExec evtime msg state.disk
    Sound detector start made (heard ++ [(cmdExec, evtime)]) { state with
      disk := handled.1, queue := rest, notified := state.notified ++ handled.2 } := by
  obtain ⟨handled, waiting, hmade, hlength, hwaiting, hnotified, hthere⟩ := hsound.ordered
  have hpriority : ∀ other ∈ state.queue, other.priority = 0 := by
    intro other hother
    have hmem : other ∈ waiting.map fun file => motion detector.agentname file.fdesc := by
      rw [hwaiting]
      exact List.mem_append_left _ hother
    obtain ⟨file, -, rfl⟩ := List.mem_map.mp hmem
    exact MdFilter.priority_motion _ _
  rw [queue_of_select hpriority hselect, List.cons_append] at hwaiting
  obtain ⟨file, later, rfl, rfl, hlater⟩ := List.map_eq_cons_iff.mp hwaiting
  have hknows : detector.watcher.Knows file := by
    apply hsound.known
    rw [hmade]
    exact List.mem_append_right _ List.mem_cons_self
  obtain ⟨hdisk, hnotices⟩ := MdFilter.doWork_motion detector.filterCMD detector.agentname cmdExec
    evtime hknows.2 state.disk
  obtain ⟨hdirs, htext⟩ := (hinstalled.dirsIn hsound.dirsIn).textAt_deleteFile hknows
  rw [← hdisk, hsound.dirsIn.1] at htext
  rw [← hdisk] at hdirs
  refine ⟨hsound.dirsIn.trans hdirs, hsound.known, ⟨handled ++ [file], later, ?_, ?_, hlater, ?_,
    ?_⟩, ?_⟩
  · rw [hmade, List.append_assoc, List.singleton_append]
  · rw [List.length_append, List.length_append, hlength, List.length_singleton,
      List.length_singleton]
  · rw [List.map_append, hnotified, hnotices, notices, notices, List.zip_append hlength,
      List.filterMap_append]
    rfl
  · intro place hplace
    dsimp only at hplace
    rw [htext] at hplace
    have hne : place ≠ file.place start.cwd := by
      rintro rfl
      exact hplace (Function.update_self _ _ _)
    rw [Function.update_of_ne hne] at hplace
    refine (hthere place hplace).imp_right fun ⟨other, hother, hat⟩ => ⟨other, ?_, hat⟩
    rcases List.mem_cons.mp hother with rfl | hmem
    · exact absurd hat.symm hne
    · exact hmem
  · intro place hplace
    have hne : place ≠ file.place start.cwd := hplace _ hknows.1 _
    dsimp only
    rw [htext, Function.update_of_ne hne]
    exact hsound.others place hplace

end Steps

/-- The start of a run. -/
def State.start (disk : Disk) : State := ⟨disk, [], [], [], []⟩

theorem sound_start (detector : Detector) (disk : Disk) :
    Sound detector disk [] [] (State.start disk) :=
  ⟨Disk.DirsIn.refl disk, fun _ hfile => absurd hfile List.not_mem_nil,
    ⟨[], [], rfl, rfl, rfl, rfl, fun _ hplace => Or.inl hplace⟩, fun _ _ => rfl⟩

theorem Sound.exec {detector : Detector} {start : Disk} {made : List Made}
    {heard : List ((String → String) × String)} {state : State}
    (hsound : Sound detector start made heard state)
    (hinstalled : detector.watcher.Installed start) {run : List Move} {final : State}
    (hexec : Machine.exec (step detector) state run = some final) :
    Sound detector start (made ++ created run) (heard ++ turns run) final := by
  induction run generalizing state made heard with
  | nil =>
      rw [Machine.exec_nil, Option.some.injEq] at hexec
      rw [created, turns, List.filterMap_nil, List.filterMap_nil, List.append_nil,
        List.append_nil, ← hexec]
      exact hsound
  | cons move rest ih =>
      obtain ⟨next, hnext, hrest⟩ := Machine.exec_cons_eq_some.mp hexec
      have hstep : Sound detector start (made ++ move.made?.toList)
          (heard ++ move.heard?.toList) next := by
        cases move with
        | change camera change name content =>
            rw [step] at hnext
            split at hnext
            · rename_i hknows
              obtain ⟨disk, happly, rfl⟩ := Option.map_eq_some_iff.mp hnext
              rw [show Move.heard? (.change camera change name content) = none from rfl,
                Option.toList_none, List.append_nil]
              exact hsound.change hinstalled hknows happly
            · exact absurd hnext.symm (Option.some_ne_none next)
        | read count =>
            rw [step] at hnext
            split at hnext
            · rename_i hready
              rw [← Option.some.inj hnext, show Move.made? (.read count) = none from rfl,
                show Move.heard? (.read count) = none from rfl, Option.toList_none,
                Option.toList_none, List.append_nil, List.append_nil]
              exact hsound.read hready.1 count
            · exact absurd hnext.symm (Option.some_ne_none next)
        | tell =>
            rw [step] at hnext
            split at hnext
            · exact absurd hnext.symm (Option.some_ne_none next)
            · rename_i fdesc later hevents
              rw [← Option.some.inj hnext, show Move.made? .tell = none from rfl,
                show Move.heard? .tell = none from rfl, Option.toList_none, Option.toList_none,
                List.append_nil, List.append_nil]
              exact hsound.tell hevents
        | filter cmdExec evtime =>
            obtain ⟨⟨msg, later⟩, hselect, rfl⟩ := Option.map_eq_some_iff.mp hnext
            rw [show Move.made? (.filter cmdExec evtime) = none from rfl, Option.toList_none,
              List.append_nil]
            exact hsound.filter hinstalled cmdExec evtime hselect
      have hfinal := ih hstep hrest
      have hcreated : created (move :: rest) = move.made?.toList ++ created rest := by
        rw [created, List.filterMap_cons]
        cases move.made? <;> rfl
      have hturns : turns (move :: rest) = move.heard?.toList ++ turns rest := by
        rw [turns, List.filterMap_cons]
        cases move.heard? <;> rfl
      rwa [hcreated, hturns, ← List.append_assoc, ← List.append_assoc]

/-- However the cameras, the watch and the filter take turns: the other agents are told of the
new files in their order, as the commands have answered; of the new files there are only those
left that have not been handled; and no other place has changed. -/
theorem handled_of_exec {detector : Detector} {start : Disk}
    (hinstalled : detector.watcher.Installed start) {run : List Move} {final : State}
    (hexec : Machine.exec (step detector) (State.start start) run = some final) :
    final.notified.map MdFilter.Notice.of =
        notices detector.filterCMD (created run) (turns run) ∧
      (∀ place, final.disk.textAt place ≠ none → start.textAt place ≠ none ∨
        ∃ file ∈ (created run).drop (turns run).length, file.place start.cwd = place) ∧
      ∀ place, (∀ camera ∈ detector.watcher.cameras, ∀ name,
        place ≠ resolve start.cwd camera.pathname ++ [name]) →
        final.disk.textAt place = start.textAt place := by
  have hsound := (sound_start detector start).exec hinstalled hexec
  rw [List.nil_append, List.nil_append] at hsound
  obtain ⟨handled, waiting, hmade, hlength, -, hnotified, hthere⟩ := hsound.ordered
  refine ⟨?_, ?_, hsound.others⟩
  · have hzip : (handled ++ waiting).zip (turns run ++ []) =
        handled.zip (turns run) ++ waiting.zip [] := List.zip_append hlength
    rw [List.append_nil, List.zip_nil_right, List.append_nil] at hzip
    rw [hnotified, hmade, notices, notices, hzip]
  · rw [hmade, ← hlength, List.drop_left]
    exact hthere

def doorCamera : DirToWatch :=
  .new "door" ⟨"camera", [⟨"pathname", "generic", "/hat/door"⟩], none, none⟩ 1

def doorDetector : Detector where
  watcher := ⟨[doorCamera], List.nodup_singleton _⟩
  agentname := "md"
  filterCMD := "see $INPUT"

def doorDisk : Disk where
  cwd := []
  node place := if place = ["hat"] ∨ place = ["hat", "door"] then some .dir else none

/-- The second video comes while the first one is looked at. -/
def doorRun : List Move :=
  [.change doorCamera .create "one.avi" "", .change doorCamera .modify "one.avi" "11", .read 2,
    .tell, .change doorCamera .create "two.avi" "22", .filter (fun _ => "ALARM\n") "120000"]

/-- The first video is told and gone, the second one still waits. -/
theorem handled_of_exec_door :
    ∃ final, Machine.exec (step doorDetector) (State.start doorDisk) doorRun = some final ∧
      final.notified.map MdFilter.Notice.of =
        [⟨"event", "SE_door", "door/one.avi", "ON", "120000"⟩] ∧
      ∀ place, final.disk.textAt place ≠ none → doorDisk.textAt place ≠ none ∨
        ∃ file ∈ [(doorCamera, "two.avi")], Made.place [] file = place := by
  have hdone : (Machine.exec (step doorDetector) (State.start doorDisk) doorRun).isSome = true := by
    decide +kernel
  obtain ⟨final, hfinal⟩ := Option.isSome_iff_exists.mp hdone
  have hinstalled : doorDetector.watcher.Installed doorDisk := by
    refine ⟨?_, ?_, ?_⟩
    · decide +kernel
    · decide +kernel
    · decide +kernel
  obtain ⟨hnotified, hthere, -⟩ := handled_of_exec hinstalled hfinal
  have htold : notices "see $INPUT" (created doorRun) (turns doorRun) =
      [⟨"event", "SE_door", "door/one.avi", "ON", "120000"⟩] := by
    decide +kernel
  exact ⟨final, hfinal, hnotified.trans htold, hthere⟩

end Hat.MDetector
