import Hat.Core.Machine
import Hat.Minilibs.FileManager
import Hat.Minilibs.MMessage
import Hat.Minilibs.MParams
import Mathlib.Data.List.Induction
import Mathlib.Data.List.Nodup

/-!
# Actions of the manager

The action engine switches actions on and off by name and sends the command of an action that is
to be executed.  The status of an action lives in its file, so that a restart of the process only
forgets the program, and the page of the active actions lists what would be executed.
-/

namespace Hat.Manager

open Hat.FileManager

structure Action where
  params : MParams
  name : String
  deriving DecidableEq

namespace Action

/-- The constructor; the files are those of `unloaded`. -/
def new (unloaded : MParams) (nm : String) : Action :=
  let params := unloaded.load
  ⟨params, if params.get "name" = "" then nm else params.get "name"⟩

def load (action : Action) : Action := { action with params := action.params.load }

def setStatus (value : String) (action : Action) : Action :=
  { action with params := (action.params.set "status" value).save }

def command (action : Action) : MMessage :=
  (MMessage.mk2 "cmd" (action.params.get "cmd")).add "value" (action.params.get "value")

/-- What is notified: nothing unless the action is on. -/
def exec (action : Action) : List MMessage :=
  if action.params.get "status" ≠ "ON" then [] else [action.command]

def member (n : String) (action : Action) : Bool := action.params.get "name" = n

end Action

/-- A file of the configuration with the one of the same name in the home directory. -/
structure ActionFile where
  filename : String
  path : Option (String × List MAttribute)
  pathh : Option (String × List MAttribute)
  deriving DecidableEq

namespace ActionFile

def stem (file : ActionFile) : String := getStem file.filename

def unloaded (file : ActionFile) : MParams := ⟨file.stem, [], file.path, file.pathh⟩

/-- The constructor loads the file, and so does the constructor of the set once more. -/
def action (file : ActionFile) : Action := (Action.new file.unloaded file.stem).load

/-- The file with what the action has last saved. -/
def left (file : ActionFile) (action : Action) : ActionFile :=
  { file with pathh := action.params.pathh }

end ActionFile

abbrev ActionSet := List Action

namespace ActionSet

/-- The files that are read.  The names of the actions are compared with the file names of the
other directory, which still have their extension. -/
def filesOf (files trfiles : List ActionFile) : List ActionFile :=
  files ++ trfiles.filter fun file =>
    !NameList.member (files.map ActionFile.filename) file.stem

def new (files trfiles : List ActionFile) : ActionSet :=
  (filesOf files trfiles).map ActionFile.action

def member (n : String) (set : ActionSet) : Bool := set.any (Action.member n)

def isActive (n : String) (set : ActionSet) : Bool :=
  set.any fun action => action.params.get "name" = n && action.params.get "status" = "ON"

/-- Only the first action of the name is executed. -/
def exec (name : String) (set : ActionSet) : List MMessage :=
  match set.find? (Action.member name) with
  | some action => action.exec
  | none => []

end ActionSet

/-- The saved item lists. -/
structure ActionPages where
  actions : List (String × String)
  activeactions : List (String × String)
  deriving DecidableEq

structure ActionEngine where
  actions : ActionSet
  program : MMessage
  pages : ActionPages
  deriving DecidableEq

namespace ActionEngine

def new (files trfiles : List ActionFile) (pages : ActionPages) : ActionEngine :=
  ⟨ActionSet.new files trfiles, MMessage.mk2 "*" "*", pages⟩

def actionPage (actions : ActionSet) : List (String × String) :=
  actions.map fun action => (action.params.get "name", action.params.get "status")

def makeActionPage (engine : ActionEngine) : ActionEngine :=
  { engine with pages := { engine.pages with actions := actionPage engine.actions } }

/-- The first entry may stand for all actions. -/
def listsAll (active : List String) : Bool :=
  match active with
  | [] => false
  | first :: _ => first = "ALL" || first = "all" || first = "All"

def reallyActive (al : ActionSet) (p : MMessage) : List String :=
  let active := p.getList "active"
  if listsAll active then
    (al.filter fun action => action.params.get "status" = "ON").map fun action =>
      action.params.get "name"
  else active.filter fun name => al.isActive name

def makeActiveActionPage (engine : ActionEngine) : ActionEngine :=
  { engine with pages := { engine.pages with
      activeactions := (reallyActive engine.actions engine.program).map fun name => (name, "ON") } }

/-- The body of the loop over the actions in the branch `setactions`. -/
def assign (msg : MMessage) (action : Action) : Action :=
  let value := msg.getString (action.params.get "name")
  if value = "ON" ∨ value = "OFF" then action.setStatus value else action

/-- What the service loop does with a message, and what it notifies. -/
def doWork (msg : MMessage) (engine : ActionEngine) : ActionEngine × List MMessage :=
  if msg.mtype = "cmd" ∧ msg.msubtype = "setactions" then
    ({ engine with actions := engine.actions.map (assign msg) }.makeActionPage.makeActiveActionPage,
      [])
  else if msg.mtype = "cmd" ∧ msg.msubtype = "resetactions" then
    ({ engine with
        actions := engine.actions.map (Action.setStatus "ON") }.makeActionPage.makeActiveActionPage,
      [])
  else if msg.mtype = "program" ∧ msg.msubtype = "prgstatus" then
    ({ engine with program := msg }.makeActiveActionPage, [])
  else if msg.mtype = "rlcmd" ∧ engine.actions.member (msg.getString "action") = true then
    (engine, engine.actions.exec (msg.getString "action"))
  else (engine, [])

end ActionEngine

/-- The engine with the files its actions were read from. -/
structure Installation where
  files : List ActionFile
  engine : ActionEngine

inductive Installation.Act
  | receive (msg : MMessage)
  | restart
  deriving DecidableEq

namespace Installation

def boot (files trfiles : List ActionFile) : Installation :=
  ⟨ActionSet.filesOf files trfiles, ActionEngine.new files trfiles ⟨[], []⟩⟩

/-- A restarted process reads its files; the pages stay in the archive. -/
def next (site : Installation) : Act → Installation
  | .receive msg =>
      let engine := (site.engine.doWork msg).1
      ⟨List.zipWith ActionFile.left site.files engine.actions, engine⟩
  | .restart =>
      ⟨site.files, site.files.map ActionFile.action, MMessage.mk2 "*" "*", site.engine.pages⟩

end Installation

namespace ActionEngine

/-- The status that a message gives to the actions of a name. -/
def word (msg : MMessage) (name : String) : Option String :=
  if msg.mtype = "cmd" ∧ msg.msubtype = "setactions" then
    if msg.getString name = "ON" ∨ msg.getString name = "OFF" then some (msg.getString name)
    else none
  else if msg.mtype = "cmd" ∧ msg.msubtype = "resetactions" then some "ON"
  else none

/-- The program message has an entry for the name. -/
def Lists (program : MMessage) (name : String) : Prop :=
  listsAll (program.getList "active") = true ∨ name ∈ program.getList "active"

end ActionEngine

namespace Action

/-- The action after a word on it. -/
def obey : Option String → Action → Action
  | some value, action => action.setStatus value
  | none, action => action

@[simp]
theorem get_obey {field : String} (hfield : "status" ≠ field) (value : Option String)
    (action : Action) : (action.obey value).params.get field = action.params.get field := by
  cases value with
  | none => rfl
  | some value => exact MParams.get_set_of_ne action.params value hfield

theorem has_obey (value : Option String) (action : Action) (field : String) :
    (action.obey value).params.Has field ↔ action.params.Has field := by
  cases value with
  | none => exact Iff.rfl
  | some value => exact MParams.has_set action.params "status" value field

theorem command_obey (value : Option String) (action : Action) :
    (action.obey value).command = action.command := by
  have hcmd : "status" ≠ "cmd" := by decide
  have hvalue : "status" ≠ "value" := by decide
  rw [command, command, get_obey hcmd, get_obey hvalue]

end Action

namespace ActionFile

@[simp]
theorem stem_left (file : ActionFile) (action : Action) : (file.left action).stem = file.stem := rfl

theorem params_action (file : ActionFile) : file.action.params = file.unloaded.load :=
  MParams.load_load file.unloaded

theorem name_action (file : ActionFile) : file.action.name =
    if file.action.params.get "name" = "" then file.stem else file.action.params.get "name" := by
  rw [params_action]
  rfl

/-- A file that was not written is left as it is. -/
theorem left_action (file : ActionFile) : file.left file.action = file := by
  rw [left, params_action, MParams.pathh_load]
  rfl

theorem params_action_left (file : ActionFile) (params : MParams) (name : String)
    (hpath : params.path = file.path) :
    (file.left ⟨params.save, name⟩).action.params = params.save := by
  cases params with
  | mk ty attributes path pathh =>
      cases hpath
      exact params_action _

/-- What a restart reads is what the action was when it was last written. -/
theorem action_left_obey (file : ActionFile) (value : Option String) :
    (file.left (file.action.obey value)).action = file.action.obey value := by
  cases value with
  | none => rw [Action.obey, left_action]
  | some value =>
      have hpath : (file.action.params.set "status" value).path = file.path := by
        rw [MParams.path_set, params_action, MParams.path_load]
        rfl
      have hparams := params_action_left file (file.action.params.set "status" value)
        file.action.name hpath
      have hget : (file.action.params.set "status" value).get "name" =
          file.action.params.get "name" := MParams.get_set_of_ne _ value (by decide)
      have hname : (file.left (file.action.setStatus value)).action.name = file.action.name := by
        rw [name_action, name_action, Action.setStatus, hparams, MParams.get_save, hget, stem_left]
      exact congrArg₂ Action.mk hparams hname

end ActionFile

namespace ActionEngine

theorem word_ne_empty {msg : MMessage} {name value : String} (hword : word msg name = some value) :
    value ≠ "" := by
  intro hempty
  rw [word] at hword
  split_ifs at hword with hset hvalue hreset
  · rw [Option.some.injEq] at hword
    rw [hword, hempty] at hvalue
    exact absurd hvalue (by decide)
  · rw [Option.some.injEq] at hword
    exact absurd (hword.trans hempty) (by decide)

theorem assign_eq {msg : MMessage} (hset : msg.mtype = "cmd" ∧ msg.msubtype = "setactions")
    (action : Action) :
    assign msg action = action.obey (word msg (action.params.get "name")) := by
  rw [word, if_pos hset, assign]
  split
  · rfl
  · rfl

theorem actions_doWork (msg : MMessage) (engine : ActionEngine) :
    (engine.doWork msg).1.actions =
      engine.actions.map fun action => action.obey (word msg (action.params.get "name")) := by
  by_cases hset : msg.mtype = "cmd" ∧ msg.msubtype = "setactions"
  · rw [doWork, if_pos hset]
    exact List.map_congr_left fun action _ => assign_eq hset action
  · by_cases hreset : msg.mtype = "cmd" ∧ msg.msubtype = "resetactions"
    · rw [doWork, if_neg hset, if_pos hreset]
      apply List.map_congr_left
      intro action _
      rw [word, if_neg hset, if_pos hreset]
      rfl
    · have hword : ∀ action : Action,
          action.obey (word msg (action.params.get "name")) = action := by
        intro action
        rw [word, if_neg hset, if_neg hreset]
        rfl
      rw [doWork, if_neg hset, if_neg hreset, List.map_congr_left fun action _ => hword action,
        List.map_id']
      split_ifs <;> rfl

end ActionEngine

namespace Installation

open ActionEngine

/-- The word of a move on the actions of a name; a restart has none. -/
def Act.word (name : String) : Act → Option String
  | .receive msg => ActionEngine.word msg name
  | .restart => none

/-- The last word of a run on the actions of a name. -/
def lastWord (name : String) (run : List Act) : Option String :=
  (run.filterMap (Act.word name)).getLast?

/-- The action after all words of a run. -/
def told (run : List Act) (action : Action) : Action :=
  run.foldl (fun action act => action.obey (act.word (action.params.get "name"))) action

/-- The status is the last word, where the action has a status that can be set. -/
def statusAfter (run : List Act) (action : Action) : String :=
  match lastWord (action.params.get "name") run with
  | some value => if action.params.Has "status" then value else ""
  | none => action.params.get "status"

/-- The program message that the process has received last. -/
def programAfter (run : List Act) : MMessage :=
  run.foldl (fun program act => match act with
    | .receive msg => if msg.mtype = "program" ∧ msg.msubtype = "prgstatus" then msg else program
    | .restart => MMessage.mk2 "*" "*") (MMessage.mk2 "*" "*")

/-- What the first action of a name answers when it is to be executed after a run. -/
def answer (start : ActionSet) (run : List Act) (name : String) : List MMessage :=
  match start.find? (Action.member name) with
  | some action => if statusAfter run action = "ON" then [action.command] else []
  | none => []

theorem told_append_singleton (run : List Act) (act : Act) (action : Action) :
    told (run ++ [act]) action =
      (told run action).obey (act.word ((told run action).params.get "name")) := by
  rw [told, List.foldl_append]
  rfl

theorem get_told {field : String} (hfield : "status" ≠ field) (run : List Act) (action : Action) :
    (told run action).params.get field = action.params.get field := by
  induction run using List.reverseRecOn with
  | nil => rfl
  | append_singleton run act ih => rw [told_append_singleton, Action.get_obey hfield, ih]

theorem has_told (run : List Act) (action : Action) (field : String) :
    (told run action).params.Has field ↔ action.params.Has field := by
  induction run using List.reverseRecOn with
  | nil => exact Iff.rfl
  | append_singleton run act ih => rw [told_append_singleton, Action.has_obey, ih]

theorem command_told (run : List Act) (action : Action) :
    (told run action).command = action.command := by
  induction run using List.reverseRecOn with
  | nil => rfl
  | append_singleton run act ih => rw [told_append_singleton, Action.command_obey, ih]

theorem Act.word_ne_empty {act : Act} {name value : String} (hword : act.word name = some value) :
    value ≠ "" := by
  cases act with
  | receive msg => exact ActionEngine.word_ne_empty hword
  | restart => exact absurd hword.symm (Option.some_ne_none value)

theorem lastWord_append_singleton (name : String) (run : List Act) (act : Act) :
    lastWord name (run ++ [act]) = (act.word name).or (lastWord name run) := by
  rw [lastWord, List.filterMap_append, List.getLast?_append]
  cases hword : act.word name with
  | none => rw [List.filterMap_cons_none hword]; rfl
  | some value => rw [List.filterMap_cons_some hword]; rfl

/-- Only the last word counts. -/
theorem get_status_told (run : List Act) (action : Action) :
    (told run action).params.get "status" = statusAfter run action := by
  induction run using List.reverseRecOn with
  | nil => rfl
  | append_singleton run act ih =>
      rw [told_append_singleton, get_told (by decide), statusAfter, lastWord_append_singleton]
      cases hword : act.word (action.params.get "name") with
      | none =>
          rw [Action.obey, ih, statusAfter]
          rfl
      | some value =>
          have hset := MParams.get_set_eq_ite (told run action).params "status"
            (Act.word_ne_empty hword)
          simp only [has_told] at hset
          exact hset

end Installation

/-! ## Pages -/

namespace ActionEngine

/-- The messages that rewrite the page of all actions. -/
def Switches (msg : MMessage) : Prop :=
  msg.mtype = "cmd" ∧ (msg.msubtype = "setactions" ∨ msg.msubtype = "resetactions")

/-- The messages that the engine keeps as the program. -/
def IsStatus (msg : MMessage) : Prop := msg.mtype = "program" ∧ msg.msubtype = "prgstatus"

instance (msg : MMessage) : Decidable (IsStatus msg) := inferInstanceAs (Decidable (_ ∧ _))

/-- The page of the active actions is right: what it shows is on, and what the program lists and
is on is shown. -/
structure Shows (engine : ActionEngine) : Prop where
  active_of_shown : ∀ name, (name, "ON") ∈ engine.pages.activeactions →
    engine.actions.isActive name = true
  shown_of_active : ∀ name, Lists engine.program name → engine.actions.isActive name = true →
    (name, "ON") ∈ engine.pages.activeactions

/-- The page of the active actions holds those that are listed and on. -/
theorem mem_activePage (engine : ActionEngine) (name : String) :
    (name, "ON") ∈ engine.makeActiveActionPage.pages.activeactions ↔
      Lists engine.program name ∧ engine.actions.isActive name = true := by
  have hpair : (name, "ON") ∈ engine.makeActiveActionPage.pages.activeactions ↔
      name ∈ reallyActive engine.actions engine.program := by
    rw [makeActiveActionPage, List.mem_map]
    constructor
    · rintro ⟨other, hmem, heq⟩
      have hother : other = name := congrArg Prod.fst heq
      exact hother ▸ hmem
    · exact fun hmem => ⟨name, hmem, rfl⟩
  rw [hpair, reallyActive]
  by_cases hall : listsAll (engine.program.getList "active") = true
  · have hlists : Lists engine.program name := Or.inl hall
    simp only [hall, if_true, hlists, true_and, List.mem_map, List.mem_filter, ActionSet.isActive,
      List.any_eq_true, Bool.and_eq_true, decide_eq_true_eq]
    apply exists_congr
    intro action
    rw [and_assoc, and_comm (a := action.params.get "name" = name)]
  · simp only [hall, if_false, List.mem_filter, Lists, false_or, Bool.false_eq_true]

/-- What a message does: it switches actions, it is kept as the program, or it leaves the engine
as it is. -/
theorem doWork_cases (msg : MMessage) (engine : ActionEngine) :
    (Switches msg ∧ ¬ IsStatus msg ∧ ∃ actions, (engine.doWork msg).1 =
      { engine with actions := actions }.makeActionPage.makeActiveActionPage) ∨
    (¬ Switches msg ∧ IsStatus msg ∧
      (engine.doWork msg).1 = { engine with program := msg }.makeActiveActionPage) ∨
    (¬ Switches msg ∧ ¬ IsStatus msg ∧ (engine.doWork msg).1 = engine) := by
  have hcmd : msg.mtype = "cmd" → ¬ IsStatus msg := by
    intro hcmd hstatus
    exact absurd (hcmd.symm.trans hstatus.1) (by decide)
  by_cases hset : msg.mtype = "cmd" ∧ msg.msubtype = "setactions"
  · apply Or.inl
    rw [doWork, if_pos hset]
    exact ⟨⟨hset.1, Or.inl hset.2⟩, hcmd hset.1, _, rfl⟩
  · by_cases hreset : msg.mtype = "cmd" ∧ msg.msubtype = "resetactions"
    · apply Or.inl
      rw [doWork, if_neg hset, if_pos hreset]
      exact ⟨⟨hreset.1, Or.inr hreset.2⟩, hcmd hreset.1, _, rfl⟩
    · have hnot : ¬ Switches msg := by
        intro hswitches
        exact hswitches.2.elim (fun h => hset ⟨hswitches.1, h⟩) fun h => hreset ⟨hswitches.1, h⟩
      apply Or.inr
      rw [doWork, if_neg hset, if_neg hreset]
      by_cases hstatus : msg.mtype = "program" ∧ msg.msubtype = "prgstatus"
      · rw [if_pos hstatus]
        exact Or.inl ⟨hnot, hstatus, rfl⟩
      · rw [if_neg hstatus]
        apply Or.inr
        split
        · exact ⟨hnot, hstatus, rfl⟩
        · exact ⟨hnot, hstatus, rfl⟩

theorem shows_activePage (engine : ActionEngine) : Shows engine.makeActiveActionPage where
  active_of_shown name hshown := ((mem_activePage engine name).mp hshown).2
  shown_of_active name hlists hactive := (mem_activePage engine name).mpr ⟨hlists, hactive⟩

theorem Shows.doWork {engine : ActionEngine} (hshows : Shows engine) (msg : MMessage) :
    Shows (engine.doWork msg).1 := by
  obtain ⟨_, _, actions, hresult⟩ | ⟨_, _, hresult⟩ | ⟨_, _, hresult⟩ := doWork_cases msg engine
  · rw [hresult]
    apply shows_activePage
  · rw [hresult]
    apply shows_activePage
  · rwa [hresult]

theorem program_doWork (msg : MMessage) (engine : ActionEngine) :
    (engine.doWork msg).1.program = if IsStatus msg then msg else engine.program := by
  obtain ⟨_, hnot, actions, hresult⟩ | ⟨_, hstatus, hresult⟩ | ⟨_, hnot, hresult⟩ :=
    doWork_cases msg engine
  · rw [hresult, if_neg hnot]
    rfl
  · rw [hresult, if_pos hstatus]
    rfl
  · rw [hresult, if_neg hnot]

theorem page_doWork {msg : MMessage} {engine : ActionEngine}
    (hpage : Switches msg ∨ engine.pages.actions = actionPage engine.actions) :
    (engine.doWork msg).1.pages.actions = actionPage (engine.doWork msg).1.actions := by
  obtain ⟨_, _, actions, hresult⟩ | ⟨hnot, _, hresult⟩ | ⟨hnot, _, hresult⟩ :=
    doWork_cases msg engine
  · rw [hresult]
    rfl
  · rw [hresult]
    exact hpage.resolve_left hnot
  · rw [hresult]
    exact hpage.resolve_left hnot

end ActionEngine

namespace Installation

open ActionEngine

/-- The move rewrites the page of all actions. -/
def Act.Switches : Act → Prop
  | .receive msg => ActionEngine.Switches msg
  | .restart => False

/-- What holds after a run: the files hold what the memory holds, and the pages are right. -/
structure Settled (start : ActionSet) (run : List Act) (site : Installation) : Prop where
  files_eq : site.files.map ActionFile.action = site.engine.actions
  actions_eq : site.engine.actions = start.map (told run)
  program_eq : site.engine.program = programAfter run
  shows : Shows site.engine
  page_eq : (∃ act ∈ run, act.Switches) → site.engine.pages.actions = actionPage site.engine.actions

theorem not_lists_start (name : String) : ¬ Lists (MMessage.mk2 "*" "*") name := by
  apply not_or_intro
  · exact Bool.false_ne_true
  · exact List.not_mem_nil

theorem settled_boot (files trfiles : List ActionFile) :
    Settled (ActionSet.new files trfiles) [] (boot files trfiles) where
  files_eq := rfl
  actions_eq := (List.map_id _).symm
  program_eq := rfl
  shows :=
    { active_of_shown := fun _ hshown => absurd hshown List.not_mem_nil
      shown_of_active := fun name hlists => absurd hlists (not_lists_start name) }
  page_eq := fun ⟨_, hmem, _⟩ => absurd hmem List.not_mem_nil

variable {start : ActionSet} {run : List Act} {site : Installation}

/-- The files follow the memory. -/
theorem map_action_left {files : List ActionFile} {change : Action → Action}
    (hchange : ∀ file : ActionFile, (file.left (change file.action)).action = change file.action) :
    (List.zipWith ActionFile.left files ((files.map ActionFile.action).map change)).map
      ActionFile.action = (files.map ActionFile.action).map change := by
  induction files with
  | nil => rfl
  | cons file rest ih =>
      rw [List.map_cons, List.map_cons, List.zipWith_cons_cons, List.map_cons, hchange, ih]

theorem Settled.receive (hsettled : Settled start run site) (msg : MMessage) :
    Settled start (run ++ [.receive msg]) (site.next (.receive msg)) where
  files_eq := by
    rw [next, actions_doWork, ← hsettled.files_eq]
    exact map_action_left fun file => file.action_left_obey _
  actions_eq := by
    rw [next, actions_doWork, hsettled.actions_eq, List.map_map]
    apply List.map_congr_left
    intro action _
    exact (told_append_singleton run (.receive msg) action).symm
  program_eq := by
    rw [next, program_doWork, hsettled.program_eq, programAfter, programAfter, List.foldl_append]
    rfl
  shows := hsettled.shows.doWork msg
  page_eq := by
    rintro ⟨act, hact, hswitches⟩
    apply page_doWork
    rcases List.mem_append.mp hact with hrun | hlast
    · exact Or.inr (hsettled.page_eq ⟨act, hrun, hswitches⟩)
    · cases List.mem_singleton.mp hlast
      exact Or.inl hswitches

/-- A restart only forgets the program. -/
theorem Settled.restart (hsettled : Settled start run site) :
    Settled start (run ++ [.restart]) (site.next .restart) where
  files_eq := rfl
  actions_eq := by
    rw [next, hsettled.files_eq, hsettled.actions_eq]
    apply List.map_congr_left
    intro action _
    exact (told_append_singleton run .restart action).symm
  program_eq := by
    rw [programAfter, List.foldl_append]
    rfl
  shows :=
    { active_of_shown := fun name hshown => by
        rw [next, hsettled.files_eq]
        exact hsettled.shows.active_of_shown name hshown
      shown_of_active := fun name hlists => absurd hlists (not_lists_start name) }
  page_eq := by
    rintro ⟨act, hact, hswitches⟩
    rw [next, hsettled.files_eq]
    rcases List.mem_append.mp hact with hrun | hlast
    · exact hsettled.page_eq ⟨act, hrun, hswitches⟩
    · cases List.mem_singleton.mp hlast
      exact hswitches.elim

theorem Settled.exec (hsettled : Settled start run site) {rest : List Act} {final : Installation}
    (hexec : Machine.exec (Machine.total next) site rest = some final) :
    Settled start (run ++ rest) final := by
  induction rest generalizing run site with
  | nil =>
      rw [Machine.exec_nil, Option.some.injEq] at hexec
      rwa [List.append_nil, ← hexec]
  | cons act rest ih =>
      have hstep : Settled start (run ++ [act]) (site.next act) := by
        cases act with
        | receive msg => exact hsettled.receive msg
        | restart => exact hsettled.restart
      have hrest := ih hstep hexec
      rwa [List.append_assoc, List.singleton_append] at hrest

/-! ## What is executed -/

theorem exec_map_told (start : ActionSet) (run : List Act) (name : String) :
    ActionSet.exec name (start.map (told run)) = answer start run name := by
  have hmember : Action.member name ∘ told run = Action.member name := by
    funext action
    rw [Function.comp_apply, Action.member, get_told (by decide), Action.member]
  rw [ActionSet.exec, answer, List.find?_map, hmember]
  cases start.find? (Action.member name) with
  | none => rfl
  | some action =>
      rw [Option.map_some]
      simp only [Action.exec, get_status_told, command_told, ne_eq, ite_not]

theorem isActive_map_told (start : ActionSet) (run : List Act) (name : String) :
    ActionSet.isActive name (start.map (told run)) = true ↔
      ∃ action ∈ start, action.params.get "name" = name ∧ statusAfter run action = "ON" := by
  have hname : "status" ≠ "name" := by decide
  simp only [ActionSet.isActive, List.any_map, List.any_eq_true, Function.comp_apply,
    Bool.and_eq_true, decide_eq_true_eq, get_status_told, get_told hname]

/-- Where each name has one action only, that one answers. -/
theorem answer_ne_nil_iff (run : List Act) (name : String)
    (hdistinct : (start.map fun action => action.params.get "name").Nodup) :
    answer start run name ≠ [] ↔
      ∃ action ∈ start, action.params.get "name" = name ∧ statusAfter run action = "ON" := by
  rw [answer]
  cases hfind : start.find? (Action.member name) with
  | none =>
      have hnone : ∀ action ∈ start, action.params.get "name" ≠ name := by
        intro action hmem hname
        exact List.find?_eq_none.mp hfind action hmem (decide_eq_true hname)
      exact iff_of_false (fun h => h rfl) fun ⟨action, hmem, hname, _⟩ => hnone action hmem hname
  | some action =>
      have hmem := List.mem_of_find?_eq_some hfind
      have hname := List.find?_some hfind
      rw [Action.member, decide_eq_true_eq] at hname
      have honly : ∀ other ∈ start, other.params.get "name" = name → other = action := by
        intro other hother hsame
        exact List.inj_on_of_nodup_map hdistinct hother hmem (hsame.trans hname.symm)
      dsimp only
      constructor
      · intro hanswer
        by_cases hstatus : statusAfter run action = "ON"
        · exact ⟨action, hmem, hname, hstatus⟩
        · exact absurd (if_neg hstatus) hanswer
      · rintro ⟨other, hother, hsame, hstatus⟩
        rw [honly other hother hsame] at hstatus
        rw [if_pos hstatus]
        exact List.cons_ne_nil _ _

theorem doWork_rlcmd (engine : ActionEngine) {msg : MMessage} (htype : msg.mtype = "rlcmd") :
    (engine.doWork msg).2 = engine.actions.exec (msg.getString "action") := by
  have hcmd : msg.mtype ≠ "cmd" := by
    rw [htype]
    decide
  have hprogram : msg.mtype ≠ "program" := by
    rw [htype]
    decide
  rw [doWork, if_neg fun h => hcmd h.1, if_neg fun h => hcmd h.1, if_neg fun h => hprogram h.1]
  split
  · rfl
  · rename_i hnot
    have hmember : ¬ engine.actions.member (msg.getString "action") = true :=
      fun hmember => hnot ⟨htype, hmember⟩
    rw [ActionSet.exec, List.find?_eq_none.mpr]
    intro action hmem hname
    exact hmember (List.any_eq_true.mpr ⟨action, hmem, hname⟩)

/-- Two actions for a lamp, the second one among those of the timed rules. -/
def lampFiles : List ActionFile :=
  [⟨"lamp_on.xml", some ("action", [⟨"name", "generic", "lamp_on"⟩,
    ⟨"status", "generic", "ON"⟩, ⟨"cmd", "generic", "lamp"⟩, ⟨"value", "generic", "1"⟩]), none⟩]

def lampTrFiles : List ActionFile :=
  [⟨"lamp_off.xml", some ("action", [⟨"name", "generic", "lamp_off"⟩,
    ⟨"status", "generic", "OFF"⟩, ⟨"cmd", "generic", "lamp"⟩, ⟨"value", "generic", "0"⟩]), none⟩]

/-- The first action is switched off and the second one on, before the process restarts. -/
def lampRun : List Act :=
  [.receive (((MMessage.mk2 "cmd" "setactions").add "lamp_on" "OFF").add "lamp_off" "ON"),
    .restart, .receive ((MMessage.mk2 "program" "prgstatus").addList "active" ["ALL"])]

end Installation

end Hat.Manager
