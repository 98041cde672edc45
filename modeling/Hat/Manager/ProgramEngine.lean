import Hat.Minilibs.MMessage
import Hat.Minilibs.MParams
import Hat.Minilibs.Program

/-!
# The program engine

The service loop that keeps the program in force: it changes the program on
command, follows the active list as time passes, and notifies each change in a
message of type `program` and subtype `prgstatus`.
-/

namespace Hat

open Hat.Hsrv

structure ProgramEngine where
  home : HomeDir
  program : Program
  previousProgram : String
  active : List String
  /-- The variable of the loop that survives from one message to the next. -/
  mod : Bool
  urlindex : SortedMap String MMessage
  index : SortedMap String String
  deriving DecidableEq

/-- What one turn of the loop sends: messages to the subjects, and answers to remote
calls. -/
structure ProgramOutput where
  notified : List MMessage
  answered : List MMessage
  deriving DecidableEq

/-- The spellings that the engine treats as off. -/
def isOffName (program : String) : Bool :=
  program = "OFF" || program = "off" || program = "Off"

namespace ProgramEngine

/-- Make `prog` the current program on disk; the file that names the swapped-out
program is written or deleted. -/
def replaceCurrent (prog : String) (swapped : Option String) (home : HomeDir) : HomeDir :=
  { home with
    previousp := if home.currentp.isSome then home.currentp else home.previousp
    currentp := some (FileManager.saveFile prog)
    swappedout := swapped }

def readCurrent (home : HomeDir) : String := (home.currentp.map FileManager.readFile).getD ""

def readSwapped (home : HomeDir) : String := (home.swappedout.map FileManager.readFile).getD ""

/-- The program that is swapped in again. -/
def restored (home : HomeDir) : String :=
  let swapped := readSwapped home
  if swapped ≠ "" ∧ !isOffName swapped then swapped else "MANUAL"

def change (prog : String) (swapped : Option String) (engine : ProgramEngine) : ProgramEngine :=
  let home := replaceCurrent prog swapped engine.home
  { engine with home := home, program := Program.load home prog }

/-- The program that a message asks for. -/
def requested (msg : MMessage) : String :=
  if msg.getString "program" = "" then msg.getString "value" else msg.getString "program"

def setprogram (msg : MMessage) (engine : ProgramEngine) : Bool × ProgramEngine :=
  let prog := requested msg
  let current := readCurrent engine.home
  if prog = "_SWITCH" then
    if !isOffName current then
      (true, engine.change "OFF" (some (FileManager.saveFile current)))
    else (true, engine.change (restored engine.home) none)
  else if prog = "_ON" ∧ isOffName current then
    (true, engine.change (restored engine.home) none)
  else if prog ≠ "" ∧ prog ∈ FileManager.fileList engine.home.programs then
    (true, engine.change prog none)
  else (false, engine)

/-- The active list after the test for a change, when it has changed. -/
def refreshed (env : Env) (change : Bool) (engine : ProgramEngine) : Option (List String) :=
  let tal := engine.program.isActive env
  if change ∧ isOffName engine.program.current then some []
  else if change ∧ engine.previousProgram ≠ engine.program.current then some (tal.getD [])
  else
    match tal with
    | none => if 0 < engine.active.length then some [] else none
    | some list => if list ≠ engine.active then some list else none

/-- The message as it is before the active list is looked at. -/
def draft (change : Bool) (current : String) : MMessage :=
  let message := MMessage.mk2 "program" "prgstatus"
  if change then
    let message := message.add "program" current
    if isOffName current then message.add "status" "OFF" else message
  else message

def prgstatus (env : Env) (change : Bool) (current : String) (active : List String) : MMessage :=
  let message := ((draft change current).add "program" current).add "status" current
  let message := (message.addList "active" active).add "program_active"
    (if current ≠ "OFF" ∧ 0 < active.length then "true" else "false")
  message.addDouble "time" env.gettime

def programNotify (env : Env) (change : Bool) (engine : ProgramEngine) :
    Bool × ProgramEngine × List MMessage :=
  match engine.refreshed env change with
  | some active =>
      let current := engine.program.current
      let message := prgstatus env change current active
      (true,
        { engine with
          active := active
          previousProgram := current
          index := engine.index.insert "prgstatus" ("program=\"" ++ current ++ "\" active=\"" ++
            message.getString "program_active" ++ "\"") },
        [message])
  | none => (false, engine, [])

/-- The names of the program directory in order. -/
def programNames (home : HomeDir) : List String :=
  (home.programs.foldl (fun names file => names.insert file.1 ())
    (SortedMap.empty : SortedMap String Unit)).keys

def makeStatusPage (engine : ProgramEngine) : ProgramEngine :=
  let page := (((MMessage.mk2 "" "").add "active_program" engine.program.current).addList
    "active_actions" engine.active).addList "available_programs" (programNames engine.home)
  let xml := page.add "language" "xml"
  { engine with
    urlindex := (engine.urlindex.insert "/programstatus.xml" xml).insert "/programstatus"
      (xml.add "language" "html") }

def new (startprg : String) (home : HomeDir) : ProgramEngine :=
  let home := Program.install startprg home
  { home := home
    program := Program.loadCurrent home
    previousProgram := ""
    active := []
    mod := false
    urlindex := SortedMap.empty
    index := SortedMap.empty }

/-- What the service thread does before its loop. -/
def start (env : Env) (engine : ProgramEngine) : ProgramEngine × ProgramOutput :=
  let notified := engine.programNotify env true
  (notified.2.1.makeStatusPage, ⟨notified.2.2, []⟩)

/-- The answer to the remote call that a message belongs to. -/
def rpcAnswer (msg : MMessage) (current : String) : List MMessage :=
  if msg.getString "tag" = "" then []
  else [((MMessage.mk2 "rpc" "answer").add "answer_tag" (msg.getString "tag")).add "value"
    ("value=" ++ current)]

/-- One turn of the loop.  Without braces or a statement of its own, the branch of
`checkcycle` governs the renewal of the pages. -/
def doWork (env : Env) (msg : MMessage) (engine : ProgramEngine) :
    ProgramEngine × ProgramOutput :=
  if msg.mtype = "trigger" ∧ msg.msubtype = "prgupdate" then
    let notified := engine.programNotify env false
    ({ notified.2.1 with mod := notified.1 }, ⟨notified.2.2, []⟩)
  else if msg.mtype = "cmd" ∧ msg.msubtype = "setprogram" then
    let engine := (engine.setprogram msg).2
    let notified := engine.programNotify env true
    ({ notified.2.1 with mod := notified.1 },
      ⟨notified.2.2, rpcAnswer msg engine.program.current⟩)
  else if msg.mtype = "trigger" ∧ msg.msubtype = "checkcycle" then
    (if engine.mod then engine.makeStatusPage else engine, ⟨[], []⟩)
  else (engine, ⟨[], []⟩)

/-- A message with the surroundings in which it is handled. -/
abbrev Turn := Env × MMessage

def next (engine : ProgramEngine) (turn : Turn) : ProgramEngine :=
  (engine.doWork turn.1 turn.2).1

def notified (engine : ProgramEngine) (turn : Turn) : List MMessage :=
  (engine.doWork turn.1 turn.2).2.notified

def run (engine : ProgramEngine) (turns : List Turn) : ProgramEngine := turns.foldl next engine

theorem header_draft (change : Bool) (current : String) :
    (draft change current).mtype = "program" ∧ (draft change current).msubtype = "prgstatus" := by
  simp only [draft]
  split
  · split
    · rw [MMessage.mtype_add, MMessage.mtype_add, MMessage.msubtype_add, MMessage.msubtype_add]
      exact ⟨rfl, rfl⟩
    · rw [MMessage.mtype_add, MMessage.msubtype_add]
      exact ⟨rfl, rfl⟩
  · exact ⟨rfl, rfl⟩

theorem header_prgstatus (env : Env) (change : Bool) (current : String) (active : List String) :
    (prgstatus env change current active).mtype = "program" ∧
      (prgstatus env change current active).msubtype = "prgstatus" := by
  obtain ⟨htype, hsubtype⟩ := header_draft change current
  constructor
  · simp only [prgstatus, MMessage.addDouble, MMessage.mtype_add, MMessage.mtype_addList, htype]
  · simp only [prgstatus, MMessage.addDouble, MMessage.msubtype_add, MMessage.msubtype_addList,
      hsubtype]

theorem find?_draft_status (change : Bool) (current : String) :
    ∀ items, ((draft change current).add "program" current).fields.find? "status" ≠
      some (.mstringList items) := by
  intro items
  rw [MMessage.find?_add_of_ne _ _ (by decide)]
  cases change with
  | false => exact fun h => nomatch h
  | true =>
      simp only [draft, if_true]
      split
      · rw [MMessage.find?_add, if_pos rfl, MMessage.find?_add_of_ne _ _ (by decide)]
        exact fun h => nomatch h
      · rw [MMessage.find?_add_of_ne _ _ (by decide)]
        exact fun h => nomatch h

/-- The status is written twice; the name of the program is what remains of it. -/
theorem getString_status_prgstatus (env : Env) (change : Bool) (current : String)
    (active : List String) :
    (prgstatus env change current active).getString "status" = current := by
  simp only [prgstatus, MMessage.addDouble]
  rw [MMessage.getString_add_of_ne _ _ (by decide), MMessage.getString_add_of_ne _ _ (by decide),
    MMessage.getString_addList_of_ne _ _ (by decide)]
  exact MMessage.getString_add_self _ _ _ (find?_draft_status change current)

theorem find?_draft_program (change : Bool) (current : String) :
    ∀ items, (draft change current).fields.find? "program" ≠ some (.mstringList items) := by
  intro items
  cases change with
  | false => exact fun h => nomatch h
  | true =>
      simp only [draft, if_true]
      split
      · rw [MMessage.find?_add_of_ne _ _ (by decide), MMessage.find?_add, if_pos rfl]
        exact fun h => nomatch h
      · rw [MMessage.find?_add, if_pos rfl]
        exact fun h => nomatch h

theorem getString_program_prgstatus (env : Env) (change : Bool) (current : String)
    (active : List String) :
    (prgstatus env change current active).getString "program" = current := by
  simp only [prgstatus, MMessage.addDouble]
  rw [MMessage.getString_add_of_ne _ _ (by decide), MMessage.getString_add_of_ne _ _ (by decide),
    MMessage.getString_addList_of_ne _ _ (by decide), MMessage.getString_add_of_ne _ _ (by decide)]
  exact MMessage.getString_add_self _ _ _ (find?_draft_program change current)

theorem find?_draft_active (change : Bool) (current : String) :
    (draft change current).fields.find? "active" = none := by
  cases change with
  | false => rfl
  | true =>
      simp only [draft, if_true]
      split
      · rw [MMessage.find?_add_of_ne _ _ (by decide), MMessage.find?_add_of_ne _ _ (by decide)]
        rfl
      · rw [MMessage.find?_add_of_ne _ _ (by decide)]
        rfl

theorem getList_active_prgstatus (env : Env) (change : Bool) (current : String)
    (active : List String) : (prgstatus env change current active).getList "active" = active := by
  simp only [prgstatus, MMessage.addDouble]
  rw [MMessage.getList_add_of_ne _ _ (by decide), MMessage.getList_add_of_ne _ _ (by decide)]
  apply MMessage.getList_addList_self
  rw [MMessage.find?_add_of_ne _ _ (by decide), MMessage.find?_add_of_ne _ _ (by decide)]
  exact find?_draft_active change current

theorem programNotify_of_refreshed {env : Env} {change : Bool} {engine : ProgramEngine}
    {active : List String} (hactive : engine.refreshed env change = some active) :
    (engine.programNotify env change).2.2 =
        [prgstatus env change engine.program.current active] ∧
      (engine.programNotify env change).2.1.program = engine.program ∧
      (engine.programNotify env change).2.1.active = active ∧
      (engine.programNotify env change).2.1.previousProgram = engine.program.current := by
  simp only [programNotify, hactive, and_self]

theorem programNotify_of_not_refreshed {env : Env} {change : Bool} {engine : ProgramEngine}
    (hnone : engine.refreshed env change = none) :
    (engine.programNotify env change).2 = (engine, []) := by
  simp only [programNotify, hnone]

/-! ## What a turn does -/

def IsPrgupdate (msg : MMessage) : Prop := msg.mtype = "trigger" ∧ msg.msubtype = "prgupdate"

def IsSetprogram (msg : MMessage) : Prop := msg.mtype = "cmd" ∧ msg.msubtype = "setprogram"

theorem not_isPrgupdate_of_isSetprogram {msg : MMessage} (h : IsSetprogram msg) :
    ¬IsPrgupdate msg := by
  intro hupdate
  have htype := h.1.symm.trans hupdate.1
  exact absurd htype (by decide)

/-- The part of the engine that notifications depend on. -/
def core (engine : ProgramEngine) : Program × String × List String :=
  (engine.program, engine.previousProgram, engine.active)

theorem notified_of_prgupdate {turn : Turn} (h : IsPrgupdate turn.2) (engine : ProgramEngine) :
    engine.notified turn = (engine.programNotify turn.1 false).2.2 ∧
      (engine.next turn).core = (engine.programNotify turn.1 false).2.1.core := by
  have h' : turn.2.mtype = "trigger" ∧ turn.2.msubtype = "prgupdate" := h
  simp only [notified, next, doWork, h', and_self, if_true]
  exact ⟨trivial, rfl⟩

theorem notified_of_setprogram {turn : Turn} (h : IsSetprogram turn.2) (engine : ProgramEngine) :
    engine.notified turn = ((engine.setprogram turn.2).2.programNotify turn.1 true).2.2 ∧
      (engine.next turn).core =
        ((engine.setprogram turn.2).2.programNotify turn.1 true).2.1.core := by
  have hother : ¬(turn.2.mtype = "trigger" ∧ turn.2.msubtype = "prgupdate") :=
    not_isPrgupdate_of_isSetprogram h
  have h' : turn.2.mtype = "cmd" ∧ turn.2.msubtype = "setprogram" := h
  simp only [notified, next, doWork, if_neg hother, if_pos h']
  exact ⟨trivial, rfl⟩

theorem notified_of_other {turn : Turn} (hupdate : ¬IsPrgupdate turn.2)
    (hset : ¬IsSetprogram turn.2) (engine : ProgramEngine) :
    engine.notified turn = [] ∧ (engine.next turn).core = engine.core := by
  have hupdate' : ¬(turn.2.mtype = "trigger" ∧ turn.2.msubtype = "prgupdate") := hupdate
  have hset' : ¬(turn.2.mtype = "cmd" ∧ turn.2.msubtype = "setprogram") := hset
  simp only [notified, next, doWork, if_neg hupdate', if_neg hset']
  split
  · split <;> exact ⟨rfl, rfl⟩
  · exact ⟨rfl, rfl⟩

theorem start_eq (env : Env) (engine : ProgramEngine) :
    (engine.start env).2.notified = (engine.programNotify env true).2.2 ∧
      (engine.start env).1.core = (engine.programNotify env true).2.1.core :=
  ⟨rfl, rfl⟩

/-- A notification does not touch the program. -/
theorem program_programNotify (env : Env) (change : Bool) (engine : ProgramEngine) :
    (engine.programNotify env change).2.1.program = engine.program := by
  cases hactive : engine.refreshed env change with
  | none => rw [programNotify_of_not_refreshed hactive]
  | some active => exact (programNotify_of_refreshed hactive).2.1

end ProgramEngine

end Hat
