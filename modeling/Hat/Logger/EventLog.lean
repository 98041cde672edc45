import Hat.Core.Disk
import Hat.Core.Machine
import Hat.Minilibs.QueueDiscipline
import Hat.WSServer.ArchiveThread

/-!
# The log of events

The receiver of the logger turns what reaches it into orders for the archive, and the archive's
thread appends each of them as a line to the file of its class and feature.  The file of a
feature holds the lines of its events in the order in which they came, however the two threads
take turns and whatever else is logged.
-/

namespace Hat.Logger

open Hat.ArchiveThread Pathname

/-- Class and feature are the type and the subtype of the message. -/
def forwarded (timeofday : String) (msg : MMessage) : MMessage :=
  let out : MMessage := { msg with mtype := "logcmd", msubtype := "archive" }
  (((out.add "class" msg.mtype).add "feature" msg.msubtype).add "timeofday" timeofday).add "time"
    (msg.getString "time")

structure ArchiveThread where
  homedir : String
  trace : MParams
  /-- The behaviour of the agent is `active`. -/
  active : Bool

/-- What the thread changes: the day and the files. -/
structure Archive where
  day : String
  disk : Disk

namespace ArchiveThread

def isToTrace (thread : ArchiveThread) (feature : String) : Bool :=
  thread.trace.get "all" = "yes" || thread.trace.get feature = "yes"

def mkItem (msg : MMessage) : String :=
  "\x7b" ++ ",".intercalate ((logged msg).map fun entry => entry.1 ++ ":" ++ entry.2) ++ "\x7d"

/-- A directory that cannot be made is only reported. -/
def ensureDir (path : String) (disk : Disk) : Disk :=
  if disk.isDir path then disk else (disk.makeDir path).getD disk

/-- The directories of the class and of the feature. -/
def ensureDirs (homedir : String) (msg : MMessage) (disk : Disk) : Disk :=
  let lfile := homedir ++ "/" ++ msg.getString "class"
  let disk := ensureDir lfile disk
  ensureDir (lfile ++ "/" ++ msg.getString "feature") disk

def logPath (homedir : String) (msg : MMessage) : String :=
  homedir ++ "/" ++ msg.getString "class" ++ "/" ++ msg.getString "feature" ++ "/" ++ "data"

/-- The line goes to the end of the file of its class and feature, if that can be opened. -/
def record (homedir : String) (msg : MMessage) (disk : Disk) : Disk :=
  let disk := ensureDirs homedir msg disk
  (disk.append (logPath homedir msg) (writelog msg)).getD disk

/-- The archive is purged with the first message of a day. -/
def update (purge : Disk → Disk) (today : String) (archive : Archive) : Archive :=
  if today = archive.day then archive else ⟨today, purge archive.disk⟩

/-- What an active agent tells its server. -/
def serversend (day : String) (msg : MMessage) : MMessage :=
  ((MMessage.mk2 "rscmd" "serversend").add "url"
    (day ++ "/" ++ msg.getString "class" ++ "/" ++ msg.getString "feature")).add "item" (mkItem msg)

/-- One turn of the service loop with what it notifies. -/
def doWork (thread : ArchiveThread) (purge : Disk → Disk) (today : String) (msg : MMessage)
    (archive : Archive) : Archive × List MMessage :=
  let archive := update purge today archive
  if (msg.mtype = "logcmd" ∧ msg.msubtype = "archive") ∧
      thread.isToTrace (msg.getString "feature") = true then
    ({ archive with disk := record thread.homedir msg archive.disk },
      if thread.active then [serversend archive.day msg] else [])
  else (archive, [])

end ArchiveThread

/-- The queues of the two threads, and the archive. -/
structure State where
  receiver : List MMessage
  queue : List MMessage
  archive : Archive

inductive Move
  | arrive (msg : MMessage)
  | forward (timeofday : String)
  | store (today : String)

/-- A thread waits while its queue is empty. -/
def step (thread : ArchiveThread) (purge : Disk → Disk) (state : State) : Move → Option State
  | .arrive msg => some { state with receiver := state.receiver ++ [msg] }
  | .forward timeofday =>
      (PriorityQueue.select MMessage.priority state.receiver).map fun taken =>
        { state with receiver := taken.2, queue := state.queue ++ [forwarded timeofday taken.1] }
  | .store today =>
      (PriorityQueue.select MMessage.priority state.queue).map fun taken =>
        { state with
          queue := taken.2
          archive := (thread.doWork purge today taken.1 state.archive).1 }

namespace ArchiveThread

/-- Nothing is there, or a directory. -/
def Free (disk : Disk) (place : List String) : Prop :=
  disk.lookup place = none ∨ disk.lookup place = some .dir

/-- The place of the file of an event's feature. -/
def dataPlace (cwd : List String) (homedir feature : String) : List String :=
  resolve cwd homedir ++ ["event", feature, "data"]

/-- The file of a feature can be reached: nothing is in the way of its directories, and no
directory has its name. -/
structure Layout (homedir feature : String) (disk : Disk) : Prop where
  named : homedir ≠ ""
  rooted : disk.Rooted
  home : disk.locate homedir = some (resolve disk.cwd homedir)
  home_dir : disk.lookup (resolve disk.cwd homedir) = some .dir
  class_free : Free disk (resolve disk.cwd homedir ++ ["event"])
  feature_free : Free disk (resolve disk.cwd homedir ++ ["event", feature])
  data_free : disk.lookup (dataPlace disk.cwd homedir feature) ≠ some .dir

variable {homedir feature path : String} {disk : Disk} {place : List String}

theorem ensureDir_cases (path : String) (disk : Disk) :
    ensureDir path disk = disk ∨ disk.makeDir path = some (ensureDir path disk) := by
  rw [ensureDir]
  split
  · exact Or.inl rfl
  · cases disk.makeDir path with
    | none => exact Or.inl rfl
    | some made => exact Or.inr rfl

/-- A new directory is where nothing was. -/
theorem makeDir_eq_some {made : Disk} (hmade : disk.makeDir path = some made) :
    disk.lookup (resolve disk.cwd path) = none ∧
      made = disk.put (resolve disk.cwd path) (some .dir) := by
  obtain ⟨place, hplace, hput⟩ := Option.map_eq_some_iff.mp hmade
  obtain ⟨hlocate, hnone⟩ := Option.filter_eq_some_iff.mp hplace
  rw [decide_eq_true_eq] at hnone
  rw [← Disk.eq_resolve_of_locate hlocate]
  exact ⟨hnone, hput.symm⟩

theorem ne_nil_of_lookup_none (hnone : disk.lookup place = none) : place ≠ [] :=
  Disk.ne_nil_of_lookup hnone (Option.some_ne_none _).symm

theorem cwd_ensureDir (path : String) (disk : Disk) : (ensureDir path disk).cwd = disk.cwd := by
  rcases ensureDir_cases path disk with hsame | hmade
  · rw [hsame]
  · exact (Disk.textAt_makeDir hmade).1.1

theorem dirsIn_ensureDir (path : String) (disk : Disk) : disk.DirsIn (ensureDir path disk) := by
  rcases ensureDir_cases path disk with hsame | hmade
  · rw [hsame]
    exact Disk.DirsIn.refl disk
  · exact (Disk.textAt_makeDir hmade).1

theorem textAt_ensureDir (path : String) (disk : Disk) :
    (ensureDir path disk).textAt = disk.textAt := by
  rcases ensureDir_cases path disk with hsame | hmade
  · rw [hsame]
  · exact (Disk.textAt_makeDir hmade).2

theorem Free.ensureDir (hfree : Free disk place) (path : String) :
    Free (ensureDir path disk) place := by
  rcases ensureDir_cases path disk with hsame | hmade
  · rwa [hsame]
  · obtain ⟨hnone, hput⟩ := makeDir_eq_some hmade
    rw [hput]
    by_cases hplace : place = resolve disk.cwd path
    · rw [hplace]
      exact Or.inr (Disk.lookup_put_self (ne_nil_of_lookup_none hnone) _)
    · rw [Free, Disk.lookup_put_of_ne hplace]
      exact hfree

theorem lookup_ensureDir_of_ne (hne : place ≠ resolve disk.cwd path) :
    (ensureDir path disk).lookup place = disk.lookup place := by
  rcases ensureDir_cases path disk with hsame | hmade
  · rw [hsame]
  · rw [(makeDir_eq_some hmade).2, Disk.lookup_put_of_ne hne]

/-- A directory can be made where the way is free. -/
theorem lookup_ensureDir (hlocate : disk.locate path = some place) (hfree : Free disk place) :
    (ensureDir path disk).lookup place = some .dir := by
  rw [ensureDir]
  rcases hfree with hnone | hdir
  · have hnot : disk.isDir path ≠ true := by
      rw [Disk.isDir, hlocate, Option.bind_some, hnone]
      decide
    rw [if_neg hnot, Disk.makeDir, hlocate, Option.filter_some, if_pos (decide_eq_true hnone),
      Option.map_some, Option.getD_some, Disk.lookup_put_self (ne_nil_of_lookup_none hnone)]
  · have hthere : disk.isDir path = true := by
      rw [Disk.isDir, hlocate, Option.bind_some, hdir]
      rfl
    rwa [if_pos hthere]

theorem Layout.ensureDir (hlayout : Layout homedir feature disk)
    (hpath : dataPlace disk.cwd homedir feature ≠ resolve disk.cwd path) :
    Layout homedir feature (ensureDir path disk) := by
  have hcwd := cwd_ensureDir path disk
  have hdirs := dirsIn_ensureDir path disk
  refine ⟨hlayout.named, ?_, ?_, ?_, ?_, ?_, ?_⟩
  · rcases ensureDir_cases path disk with hsame | hmade
    · rw [hsame]
      exact hlayout.rooted
    · exact hlayout.rooted.makeDir hmade
  · rw [hcwd]
    exact hdirs.locate hlayout.home
  · rw [hcwd]
    exact hdirs.2 _ hlayout.home_dir
  · rw [hcwd]
    exact hlayout.class_free.ensureDir path
  · rw [hcwd]
    exact hlayout.feature_free.ensureDir path
  · rw [hcwd, lookup_ensureDir_of_ne hpath]
    exact hlayout.data_free

/-- The text of a file with these lines. -/
def logText (rows : List String) : String := String.join (rows.map fun row => row ++ "\n")

/-- The line of a message in its file. -/
def line (msg : MMessage) : String := logLine (logged msg)

/-- The message is an event of the feature. -/
def Concerns (feature : String) (msg : MMessage) : Prop :=
  msg.getString "class" = "event" ∧ msg.getString "feature" = feature

instance (feature : String) : DecidablePred (Concerns feature) :=
  fun _ => inferInstanceAs (Decidable (_ ∧ _))

section Record

variable {msg : MMessage}

theorem join_ne_empty (directory name : String) : directory ++ "/" ++ name ≠ "" := by
  intro hempty
  have hchars := congrArg String.toList hempty
  simp at hchars

theorem resolve_class (cwd : List String) (hnamed : homedir ≠ "")
    (hclass : IsName (msg.getString "class")) :
    resolve cwd (homedir ++ "/" ++ msg.getString "class") =
      resolve cwd homedir ++ [msg.getString "class"] := resolve_child cwd hnamed hclass

theorem resolve_feature (cwd : List String) (hnamed : homedir ≠ "")
    (hclass : IsName (msg.getString "class")) (hfeature : IsName (msg.getString "feature")) :
    resolve cwd (homedir ++ "/" ++ msg.getString "class" ++ "/" ++ msg.getString "feature") =
      resolve cwd homedir ++ [msg.getString "class", msg.getString "feature"] := by
  rw [resolve_child cwd (join_ne_empty homedir _) hfeature, resolve_class cwd hnamed hclass,
    List.append_assoc, List.singleton_append]

theorem resolve_logPath (cwd : List String) (hnamed : homedir ≠ "")
    (hclass : IsName (msg.getString "class")) (hfeature : IsName (msg.getString "feature")) :
    resolve cwd (logPath homedir msg) =
      resolve cwd homedir ++ [msg.getString "class", msg.getString "feature", "data"] := by
  rw [logPath, resolve_child cwd (join_ne_empty _ _) (by decide),
    resolve_feature cwd hnamed hclass hfeature, List.append_assoc]
  rfl

theorem append_ne_of_length {front first second : List String}
    (hlength : first.length ≠ second.length) : front ++ first ≠ front ++ second :=
  fun heq => hlength (congrArg List.length (List.append_cancel_left heq))

theorem Layout.append (hlayout : Layout homedir feature disk) {other : Disk} {text : String}
    (hclass : IsName (msg.getString "class")) (hfeature : IsName (msg.getString "feature"))
    (happend : disk.append (logPath homedir msg) text = some other) :
    Layout homedir feature other := by
  have hplace := resolve_logPath disk.cwd hlayout.named hclass hfeature
  have hdirs := (Disk.writes_append happend).dirsIn
  obtain ⟨place, hwritable, hput⟩ := Option.map_eq_some_iff.mp happend
  have hwhere := Disk.eq_resolve_of_locate (Disk.writable_eq_some.mp hwritable).1
  rw [hplace] at hwhere
  have hlookup : ∀ rest : List String, rest.length ≠ 3 →
      other.lookup (resolve disk.cwd homedir ++ rest) =
        disk.lookup (resolve disk.cwd homedir ++ rest) := by
    intro rest hlength
    rw [← hput, Disk.lookup_put_of_ne]
    rw [hwhere]
    exact append_ne_of_length hlength
  refine ⟨hlayout.named, hlayout.rooted.append happend, ?_, ?_, ?_, ?_, ?_⟩
  · rw [hdirs.1]
    exact hdirs.locate hlayout.home
  · rw [hdirs.1]
    exact hdirs.2 _ hlayout.home_dir
  · rw [hdirs.1, Free, hlookup _ (by simp)]
    exact hlayout.class_free
  · rw [hdirs.1, Free, hlookup _ (by simp)]
    exact hlayout.feature_free
  · rw [hdirs.1, ← hput]
    by_cases hself : dataPlace disk.cwd homedir feature = place
    · have hne : place ≠ [] := by
        rw [hwhere]
        exact List.append_ne_nil_of_right_ne_nil _ (List.cons_ne_nil _ _)
      rw [hself, Disk.lookup_put_self hne]
      exact fun h => Node.noConfusion (Option.some.inj h)
    · rw [Disk.lookup_put_of_ne hself]
      exact hlayout.data_free

/-- The two directories of a message leave the way to the feature's file free. -/
theorem Layout.ensureDirs (hlayout : Layout homedir feature disk)
    (hclass : IsName (msg.getString "class")) (hfeature : IsName (msg.getString "feature")) :
    Layout homedir feature (ArchiveThread.ensureDirs homedir msg disk) := by
  apply Layout.ensureDir
  · apply hlayout.ensureDir
    rw [resolve_class disk.cwd hlayout.named hclass]
    exact append_ne_of_length (by simp)
  · rw [cwd_ensureDir, resolve_feature disk.cwd hlayout.named hclass hfeature]
    exact append_ne_of_length (by simp)

theorem cwd_ensureDirs (homedir : String) (msg : MMessage) (disk : Disk) :
    (ensureDirs homedir msg disk).cwd = disk.cwd := by
  rw [ArchiveThread.ensureDirs, cwd_ensureDir, cwd_ensureDir]

theorem textAt_ensureDirs (homedir : String) (msg : MMessage) (disk : Disk) :
    (ensureDirs homedir msg disk).textAt = disk.textAt := by
  rw [ArchiveThread.ensureDirs, textAt_ensureDir, textAt_ensureDir]

/-- The directory of an event of the feature can be entered once it was made. -/
theorem lookup_ensureDirs (hlayout : Layout homedir feature disk) (hmsg : Concerns feature msg)
    (hclass : IsName (msg.getString "class")) (hfeature : IsName (msg.getString "feature")) :
    let path := homedir ++ "/" ++ msg.getString "class" ++ "/" ++ msg.getString "feature"
    let place := resolve disk.cwd homedir ++ [msg.getString "class", msg.getString "feature"]
    (ensureDirs homedir msg disk).locate path = some place ∧
      (ensureDirs homedir msg disk).lookup place = some .dir := by
  have hclassPlace := Disk.locate_child hlayout.named hlayout.home hlayout.home_dir hclass
  have hclassDir := lookup_ensureDir hclassPlace (by rw [hmsg.1]; exact hlayout.class_free)
  have hclassThere := (dirsIn_ensureDir
    (homedir ++ "/" ++ msg.getString "class") disk).locate hclassPlace
  have hplace := Disk.locate_child (join_ne_empty homedir _) hclassThere hclassDir hfeature
  rw [List.append_assoc, List.singleton_append] at hplace
  have hfree : Free disk
      (resolve disk.cwd homedir ++ [msg.getString "class", msg.getString "feature"]) := by
    rw [hmsg.1, hmsg.2]
    exact hlayout.feature_free
  have hdir := lookup_ensureDir hplace (hfree.ensureDir _)
  exact ⟨(dirsIn_ensureDir (homedir ++ "/" ++ msg.getString "class" ++ "/" ++
    msg.getString "feature") _).locate hplace, hdir⟩

/-- An event of the feature can be written. -/
theorem exists_append (hlayout : Layout homedir feature disk) (hmsg : Concerns feature msg)
    (hclass : IsName (msg.getString "class")) (hfeature : IsName (msg.getString "feature"))
    (text : String) :
    ∃ other, (ensureDirs homedir msg disk).append (logPath homedir msg) text = some other := by
  obtain ⟨hplace, hdir⟩ := lookup_ensureDirs hlayout hmsg hclass hfeature
  have hname : IsName "data" := by decide
  have hdata := Disk.locate_child (join_ne_empty _ _) hplace hdir hname
  rw [List.append_assoc] at hdata
  have hnot := (hlayout.ensureDirs hclass hfeature).data_free
  rw [cwd_ensureDirs, dataPlace, ← hmsg.1, ← hmsg.2] at hnot
  have hwritable := Disk.writable_eq_some.mpr ⟨hdata, hnot⟩
  rw [Disk.append, logPath, hwritable]
  exact ⟨_, rfl⟩

/-- Recording keeps the way to a feature's file free, and the file gets the events of its feature
and nothing else. -/
theorem record_spec (hlayout : Layout homedir feature disk)
    (hclass : IsName (msg.getString "class")) (hfeature : IsName (msg.getString "feature")) :
    Layout homedir feature (record homedir msg disk) ∧
      (record homedir msg disk).cwd = disk.cwd ∧
      (record homedir msg disk).textAt (dataPlace disk.cwd homedir feature) =
        if Concerns feature msg then
          some ((disk.textAt (dataPlace disk.cwd homedir feature)).getD "" ++ (line msg ++ "\n"))
        else disk.textAt (dataPlace disk.cwd homedir feature) := by
  have hlayouts := hlayout.ensureDirs hclass hfeature
  have hcwd := cwd_ensureDirs homedir msg disk
  have htext := textAt_ensureDirs homedir msg disk
  rw [record]
  cases happend : (ensureDirs homedir msg disk).append (logPath homedir msg) (writelog msg) with
  | none =>
      have hnot : ¬ Concerns feature msg := by
        intro hmsg
        obtain ⟨other, hother⟩ := exists_append hlayout hmsg hclass hfeature (writelog msg)
        exact absurd (happend.symm.trans hother) (Option.some_ne_none other).symm
      rw [if_neg hnot, Option.getD_none, htext]
      exact ⟨hlayouts, hcwd, rfl⟩
  | some other =>
      have hwrites := Disk.writes_append happend
      rw [hcwd, resolve_logPath disk.cwd hlayout.named hclass hfeature, htext] at hwrites
      refine ⟨hlayouts.append hclass hfeature happend, hwrites.dirsIn.1.trans hcwd, ?_⟩
      rw [Option.getD_some]
      split
      · rename_i hmsg
        have hself := hwrites.self
        rwa [hmsg.1, hmsg.2] at hself
      · rename_i hnot
        rw [hwrites.others _ _, htext]
        intro heq
        have hsegments := List.append_cancel_left heq
        rw [List.cons.injEq, List.cons.injEq] at hsegments
        exact hnot ⟨hsegments.1.symm, hsegments.2.1.symm⟩

end Record

end ArchiveThread

/-- Class and feature can be told from the type and the subtype, and are names. -/
structure Loggable (msg : MMessage) : Prop where
  class_scalar : ∀ items, msg.fields.find? "class" ≠ some (.mstringList items)
  feature_scalar : ∀ items, msg.fields.find? "feature" ≠ some (.mstringList items)
  class_name : IsName msg.mtype
  feature_name : IsName msg.msubtype

def IsEvent (feature : String) (msg : MMessage) : Prop :=
  msg.mtype = "event" ∧ msg.msubtype = feature

instance (feature : String) : DecidablePred (IsEvent feature) :=
  fun _ => inferInstanceAs (Decidable (_ ∧ _))

section Forwarded

variable {msg : MMessage} (timeofday : String)

theorem mtype_forwarded (msg : MMessage) : (forwarded timeofday msg).mtype = "logcmd" := by
  simp only [forwarded, MMessage.mtype_add]

theorem msubtype_forwarded (msg : MMessage) : (forwarded timeofday msg).msubtype = "archive" := by
  simp only [forwarded, MMessage.msubtype_add]

theorem priority_forwarded (msg : MMessage) :
    (forwarded timeofday msg).priority = msg.priority := by
  simp only [forwarded, MMessage.priority_add]

theorem class_forwarded (hmsg : Loggable msg) :
    (forwarded timeofday msg).getString "class" = msg.mtype := by
  rw [forwarded, MMessage.getString_add_of_ne _ _ (by decide),
    MMessage.getString_add_of_ne _ _ (by decide), MMessage.getString_add_of_ne _ _ (by decide)]
  exact MMessage.getString_add_self "class" msg.mtype _ hmsg.class_scalar

theorem feature_forwarded (hmsg : Loggable msg) :
    (forwarded timeofday msg).getString "feature" = msg.msubtype := by
  rw [forwarded, MMessage.getString_add_of_ne _ _ (by decide),
    MMessage.getString_add_of_ne _ _ (by decide)]
  apply MMessage.getString_add_self "feature" msg.msubtype
  intro items
  rw [MMessage.find?_add_of_ne _ _ (by decide)]
  exact hmsg.feature_scalar items

theorem concerns_forwarded_iff (hmsg : Loggable msg) (feature : String) :
    ArchiveThread.Concerns feature (forwarded timeofday msg) ↔ IsEvent feature msg := by
  rw [ArchiveThread.Concerns, class_forwarded timeofday hmsg, feature_forwarded timeofday hmsg,
    IsEvent]

end Forwarded

/-! ## Whole runs -/

/-- What a run is about: the events of one feature and their priority, the times that the
receiver may add, and the day. -/
structure Watch where
  feature : String
  priority : ℤ
  stamp : String → Prop
  day : String

/-- Messages can be logged, the events come with one priority, and the day does not change. -/
def Watch.Allows (watch : Watch) : Move → Prop
  | .arrive msg => Loggable msg ∧ (IsEvent watch.feature msg → msg.priority = watch.priority)
  | .forward timeofday => watch.stamp timeofday
  | .store today => today = watch.day

/-- The event that a move brings. -/
def Move.event? (feature : String) : Move → Option MMessage
  | .arrive msg => if IsEvent feature msg then some msg else none
  | .forward _ => none
  | .store _ => none

/-- The events of a feature that arrive in a run. -/
def arrived (feature : String) (run : List Move) : List MMessage :=
  run.filterMap (Move.event? feature)

/-- The message is what the receiver has made of another one. -/
def Forwards (stamp : String → Prop) (msg out : MMessage) : Prop :=
  ∃ timeofday, stamp timeofday ∧ out = forwarded timeofday msg

/-- A file with these lines behind those that were there before. -/
def textAfter (before : Option String) (rows : List String) : Option String :=
  if rows = [] then before else some (before.getD "" ++ ArchiveThread.logText rows)

theorem textAfter_append_singleton (before : Option String) (rows : List String) (row : String) :
    textAfter before (rows ++ [row]) =
      some ((textAfter before rows).getD "" ++ (row ++ "\n")) := by
  have htext : ArchiveThread.logText (rows ++ [row]) =
      ArchiveThread.logText rows ++ (row ++ "\n") := by
    rw [ArchiveThread.logText, List.map_append, String.join_append, List.map_singleton,
      String.join_cons, String.join_nil, String.append_empty]
    rfl
  have hold : (textAfter before rows).getD "" =
      before.getD "" ++ ArchiveThread.logText rows := by
    rw [textAfter]
    split
    · rename_i hrows
      rw [hrows]
      exact (String.append_empty).symm
    · rfl
  rw [textAfter, if_neg (by simp), htext, hold, ← String.append_assoc]

open ArchiveThread

/-- What holds in a run: the events are stored, queued and waiting in the order in which they
arrived, and the file holds the lines of those that are stored. -/
structure Stores (thread : ArchiveThread) (watch : Watch) (cwd : List String)
    (before : Option String) (events : List MMessage) (state : State) : Prop where
  layout : Layout thread.homedir watch.feature state.archive.disk
  cwd_eq : state.archive.disk.cwd = cwd
  day_eq : state.archive.day = watch.day
  waiting : ∀ msg ∈ state.receiver,
    Loggable msg ∧ (IsEvent watch.feature msg → msg.priority = watch.priority)
  queued : ∀ out ∈ state.queue, ∃ msg, Forwards watch.stamp msg out ∧ Loggable msg ∧
    (IsEvent watch.feature msg → msg.priority = watch.priority)
  ordered : ∃ handled stored, events = handled ++ state.receiver.filter (IsEvent watch.feature) ∧
    List.Forall₂ (Forwards watch.stamp) handled
      (stored ++ state.queue.filter (Concerns watch.feature)) ∧
    state.archive.disk.textAt (dataPlace cwd thread.homedir watch.feature) =
      textAfter before (stored.map line)

section Steps

variable {thread : ArchiveThread} {watch : Watch} {cwd : List String} {before : Option String}
  {events : List MMessage} {state : State}

theorem Stores.arrive (hstores : Stores thread watch cwd before events state) {msg : MMessage}
    (hallows : watch.Allows (.arrive msg)) :
    Stores thread watch cwd before (events ++ (Move.event? watch.feature (.arrive msg)).toList)
      { state with receiver := state.receiver ++ [msg] } := by
  obtain ⟨handled, stored, hevents, hforwards, htext⟩ := hstores.ordered
  refine ⟨hstores.layout, hstores.cwd_eq, hstores.day_eq, ?_, hstores.queued,
    handled, stored, ?_, hforwards, htext⟩
  · intro other hother
    rcases List.mem_append.mp hother with hold | hnew
    · exact hstores.waiting other hold
    · rw [List.mem_singleton.mp hnew]
      exact hallows
  · have hlast : (Move.event? watch.feature (.arrive msg)).toList =
        [msg].filter (IsEvent watch.feature) := by
      rw [Move.event?]
      by_cases hevent : IsEvent watch.feature msg
      · rw [if_pos hevent, List.filter_cons, if_pos (decide_eq_true hevent)]
        rfl
      · rw [if_neg hevent, List.filter_cons, if_neg (by simpa using hevent)]
        rfl
    rw [hlast, hevents, List.append_assoc, ← List.filter_append]

theorem Stores.forward (hstores : Stores thread watch cwd before events state)
    {timeofday : String} (hstamp : watch.stamp timeofday) {msg : MMessage} {rest : List MMessage}
    (hselect : PriorityQueue.select MMessage.priority state.receiver = some (msg, rest)) :
    Stores thread watch cwd before events
      { state with receiver := rest, queue := state.queue ++ [forwarded timeofday msg] } := by
  obtain ⟨handled, stored, hevents, hforwards, htext⟩ := hstores.ordered
  obtain ⟨hmem, hrest⟩ := PriorityQueue.mem_of_select hselect
  obtain ⟨hloggable, hpriority⟩ := hstores.waiting msg hmem
  have hfilter := PriorityQueue.filter_of_select (p := fun msg => IsEvent watch.feature msg)
    hselect (by
      intro first hfirst second hsecond hp hq
      rw [(hstores.waiting first hfirst).2 (of_decide_eq_true hp),
        (hstores.waiting second hsecond).2 (of_decide_eq_true hq)])
  have hforwarded : Forwards watch.stamp msg (forwarded timeofday msg) := ⟨timeofday, hstamp, rfl⟩
  have hqueued : ∀ out ∈ state.queue ++ [forwarded timeofday msg], ∃ msg,
      Forwards watch.stamp msg out ∧ Loggable msg ∧
        (IsEvent watch.feature msg → msg.priority = watch.priority) := by
    intro out hout
    rcases List.mem_append.mp hout with hold | hnew
    · exact hstores.queued out hold
    · rw [List.mem_singleton.mp hnew]
      exact ⟨msg, hforwarded, hloggable, hpriority⟩
  have hwaiting := fun other hother => hstores.waiting other (hrest hother)
  by_cases hevent : IsEvent watch.feature msg
  · refine ⟨hstores.layout, hstores.cwd_eq, hstores.day_eq, hwaiting, hqueued,
      handled ++ [msg], stored, ?_, ?_, htext⟩
    · rw [hevents, hfilter, if_pos (decide_eq_true hevent), List.append_assoc]
      rfl
    · have hconcerns := (concerns_forwarded_iff timeofday hloggable watch.feature).mpr hevent
      rw [List.filter_append, List.filter_cons, if_pos (decide_eq_true hconcerns), List.filter_nil,
        ← List.append_assoc]
      apply List.rel_append hforwards
      exact List.Forall₂.cons hforwarded List.Forall₂.nil
  · refine ⟨hstores.layout, hstores.cwd_eq, hstores.day_eq, hwaiting, hqueued,
      handled, stored, ?_, ?_, htext⟩
    · rw [hevents, hfilter, if_neg (by simpa using hevent)]
    · have hconcerns : ¬ Concerns watch.feature (forwarded timeofday msg) :=
        (concerns_forwarded_iff timeofday hloggable watch.feature).not.mpr hevent
      rw [List.filter_append, List.filter_cons, if_neg (by simpa using hconcerns), List.filter_nil,
        List.append_nil]
      exact hforwards

/-- An order is carried out on its day, if the feature is to be traced. -/
theorem doWork_forwarded (purge : Disk → Disk) {archive : Archive} {out : MMessage}
    (htype : out.mtype = "logcmd" ∧ out.msubtype = "archive") :
    (thread.doWork purge archive.day out archive).1 =
      if thread.isToTrace (out.getString "feature") = true
      then { archive with disk := record thread.homedir out archive.disk }
      else archive := by
  rw [doWork, update, if_pos rfl]
  split
  · rename_i htrace
    rw [if_pos htrace.2]
  · rename_i hnot
    rw [if_neg fun htrace => hnot ⟨htype, htrace⟩]

theorem Stores.store (hstores : Stores thread watch cwd before events state)
    (htrace : thread.isToTrace watch.feature = true) (purge : Disk → Disk) {out : MMessage}
    {rest : List MMessage}
    (hselect : PriorityQueue.select MMessage.priority state.queue = some (out, rest)) :
    Stores thread watch cwd before events { state with
      queue := rest, archive := (thread.doWork purge watch.day out state.archive).1 } := by
  obtain ⟨handled, stored, hevents, hforwards, htext⟩ := hstores.ordered
  obtain ⟨hmem, hrest⟩ := PriorityQueue.mem_of_select hselect
  have hlater := fun other hother => hstores.queued other (hrest hother)
  have hconcerned : ∀ out ∈ state.queue, Concerns watch.feature out →
      out.priority = watch.priority := by
    intro out hout hconcerns
    obtain ⟨msg, ⟨timeofday, -, rfl⟩, hloggable, hpriority⟩ := hstores.queued out hout
    rw [priority_forwarded]
    exact hpriority ((concerns_forwarded_iff timeofday hloggable watch.feature).mp hconcerns)
  have hfilter := PriorityQueue.filter_of_select (p := fun out => Concerns watch.feature out)
    hselect (by
      intro first hfirst second hsecond hp hq
      rw [hconcerned first hfirst (of_decide_eq_true hp),
        hconcerned second hsecond (of_decide_eq_true hq)])
  obtain ⟨msg, ⟨timeofday, -, hout⟩, hloggable, -⟩ := hstores.queued out hmem
  have htype : out.mtype = "logcmd" ∧ out.msubtype = "archive" := by
    rw [hout]
    exact ⟨mtype_forwarded timeofday msg, msubtype_forwarded timeofday msg⟩
  have hclass : IsName (out.getString "class") := by
    rw [hout, class_forwarded timeofday hloggable]
    exact hloggable.class_name
  have hfeature : IsName (out.getString "feature") := by
    rw [hout, feature_forwarded timeofday hloggable]
    exact hloggable.feature_name
  obtain ⟨hlayout, hcwd, hrecord⟩ := record_spec hstores.layout hclass hfeature
  rw [hstores.cwd_eq] at hcwd hrecord
  rw [← hstores.day_eq, doWork_forwarded purge htype]
  by_cases hconcerns : Concerns watch.feature out
  · rw [hconcerns.2, if_pos htrace]
    rw [if_pos hconcerns] at hrecord
    refine ⟨hlayout, hcwd, hstores.day_eq, hstores.waiting, hlater,
      handled, stored ++ [out], hevents, ?_, ?_⟩
    · rw [List.append_assoc]
      rw [hfilter, if_pos (decide_eq_true hconcerns)] at hforwards
      exact hforwards
    · rw [hrecord, htext, List.map_append, List.map_singleton, textAfter_append_singleton]
  · rw [if_neg hconcerns] at hrecord
    rw [hfilter, if_neg (by simpa using hconcerns)] at hforwards
    split
    · exact ⟨hlayout, hcwd, hstores.day_eq, hstores.waiting, hlater,
        handled, stored, hevents, hforwards, hrecord.trans htext⟩
    · exact ⟨hstores.layout, hstores.cwd_eq, hstores.day_eq, hstores.waiting, hlater,
        handled, stored, hevents, hforwards, htext⟩

/-- In every run the events of a feature are stored in the order in which they arrived. -/
theorem Stores.exec (hstores : Stores thread watch cwd before events state)
    (htrace : thread.isToTrace watch.feature = true) (purge : Disk → Disk) {run : List Move}
    (hallows : ∀ move ∈ run, watch.Allows move) {final : State}
    (hexec : Machine.exec (step thread purge) state run = some final) :
    Stores thread watch cwd before (events ++ arrived watch.feature run) final := by
  induction run generalizing state events with
  | nil =>
      rw [Machine.exec_nil, Option.some.injEq] at hexec
      rw [arrived, List.filterMap_nil, List.append_nil, ← hexec]
      exact hstores
  | cons move rest ih =>
      obtain ⟨next, hnext, hrest⟩ := Machine.exec_cons_eq_some.mp hexec
      obtain ⟨hmove, hallowsRest⟩ := List.forall_mem_cons.mp hallows
      have hstep : Stores thread watch cwd before
          (events ++ (Move.event? watch.feature move).toList) next := by
        cases move with
        | arrive msg =>
            rw [← Option.some.inj hnext]
            exact hstores.arrive hmove
        | forward timeofday =>
            obtain ⟨⟨msg, others⟩, hselect, rfl⟩ := Option.map_eq_some_iff.mp hnext
            rw [Move.event?, Option.toList_none, List.append_nil]
            exact hstores.forward hmove hselect
        | store today =>
            obtain ⟨⟨out, others⟩, hselect, rfl⟩ := Option.map_eq_some_iff.mp hnext
            rw [Move.event?, Option.toList_none, List.append_nil, show today = watch.day from hmove]
            exact hstores.store htrace purge hselect
      have hfinal := ih hstep hallowsRest hrest
      have harrived : arrived watch.feature (move :: rest) =
          (Move.event? watch.feature move).toList ++ arrived watch.feature rest := by
        rw [arrived, List.filterMap_cons]
        cases Move.event? watch.feature move <;> rfl
      rwa [harrived, ← List.append_assoc]

end Steps

end Hat.Logger
