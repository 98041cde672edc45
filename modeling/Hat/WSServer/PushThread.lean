import Hat.Minilibs.ArchiveTimes
import Hat.Minilibs.MMessage
import Hat.Minilibs.NameListInit
import Hat.WSServer.ReadJson

/-!
# Lines pushed to the browsers

`PushThread` writes a device as an object within an object.  `logMessage` cuts the inner one out
again, up to the first closing brace, wherever that stands, and puts time and type before it.
-/

namespace Hat

open Hat.Hsrv Hat.Json

namespace Json

/-- What `find(mark) + 1` gives, the beginning where there is no mark. -/
def behindFirst (mark : Char) (text : List Char) : ℕ :=
  if mark ∈ text then text.idxOf mark + 1 else 0

theorem drop_behindFirst {mark : Char} {front : List Char} (hfront : mark ∉ front)
    (text : List Char) :
    (front ++ mark :: text).drop (behindFirst mark (front ++ mark :: text)) = text := by
  have hmem : mark ∈ front ++ mark :: text := List.mem_append_right _ List.mem_cons_self
  rw [behindFirst, if_pos hmem, List.idxOf_append_of_notMem hfront, List.idxOf_cons_self,
    Nat.add_zero, ← List.drop_drop, List.drop_left, List.drop_one, List.tail_cons]

/-- The text up to the first mark. -/
def upTo (mark : Char) (text : List Char) : List Char := text.take (behindFirst mark text)

theorem upTo_cons_self (mark : Char) (text : List Char) : upTo mark (mark :: text) = [mark] := by
  rw [upTo, behindFirst, if_pos List.mem_cons_self, List.idxOf_cons_self]
  rfl

theorem upTo_append {mark : Char} {front text : List Char} (hfront : mark ∉ front)
    (htext : mark ∈ text) : upTo mark (front ++ text) = front ++ upTo mark text := by
  have hmem : mark ∈ front ++ text := List.mem_append_right _ htext
  rw [upTo, behindFirst, if_pos hmem, upTo, behindFirst, if_pos htext,
    List.idxOf_append_of_notMem hfront, Nat.add_assoc, List.take_length_add_append]

section

variable {raw : Char → Prop}

/-- A string that is read has a closing quote. -/
theorem Literal.quote_mem {text chars rest : List Char} (h : Literal raw text chars rest) :
    quote ∈ text := by
  induction h with
  | close rest => exact List.mem_cons_self
  | plain _ _ ih => exact List.mem_cons_of_mem _ ih
  | escape _ _ ih => exact List.mem_append_right _ ih

theorem closeBrace_mem_further (entries : List (String × String)) (rest : List Char) :
    closeBrace ∈ further entries ++ rest := by
  refine List.mem_append_left rest ?_
  induction entries with
  | nil => exact List.mem_cons_self
  | cons entry entries ih =>
      have hfurther : further (entry :: entries) = ',' :: (flatMember entry [] ++
          further entries) := by
        rw [flatMember_append]
        rfl
      rw [hfurther]
      exact List.mem_cons_of_mem _ (List.mem_append_right _ ih)

theorem notMem_flatMember {name value : String} (hname : closeBrace ∉ name.toList)
    (hvalue : closeBrace ∉ value.toList) : closeBrace ∉ flatMember (name, value) [] := by
  have hquote : closeBrace ≠ quote := by decide
  have hcolon : closeBrace ≠ ':' := by decide
  simp [flatMember, quoted, hname, hvalue, hquote, hcolon]

theorem upTo_flatMember {name value : String} (hname : closeBrace ∉ name.toList)
    (hvalue : closeBrace ∉ value.toList) {rest : List Char} (hrest : closeBrace ∈ rest) :
    upTo closeBrace (flatMember (name, value) rest) =
      flatMember (name, value) (upTo closeBrace rest) := by
  calc
    upTo closeBrace (flatMember (name, value) rest) =
        upTo closeBrace (flatMember (name, value) [] ++ rest) := by
      rw [flatMember_append, List.nil_append]
    _ = flatMember (name, value) [] ++ upTo closeBrace rest :=
      upTo_append (notMem_flatMember hname hvalue) hrest
    _ = flatMember (name, value) (upTo closeBrace rest) := by
      rw [flatMember_append, List.nil_append]

/-- What is cut off within a value. -/
theorem upTo_flatMember_of_mem {name value : String} (hname : closeBrace ∉ name.toList)
    (hvalue : closeBrace ∈ value.toList) (rest : List Char) :
    ∃ front, (∀ c ∈ front, c ∈ value.toList) ∧
      upTo closeBrace (flatMember (name, value) rest) =
        quoted name (':' :: quote :: (front ++ [closeBrace])) := by
  obtain ⟨front, back, hsplit, hfront⟩ := List.eq_append_cons_of_mem hvalue
  have hquote : closeBrace ≠ quote := by decide
  have hcolon : closeBrace ≠ ':' := by decide
  have hbefore : closeBrace ∉ quoted name (':' :: quote :: front) := by
    simp [quoted, hname, hfront, hquote, hcolon]
  have htext : flatMember (name, value) rest =
      quoted name (':' :: quote :: front) ++ closeBrace :: (back ++ quote :: rest) := by
    simp [flatMember, quoted, hsplit]
  refine ⟨front, fun c hc => ?_, ?_⟩
  · rw [hsplit]
    exact List.mem_append_left _ hc
  · rw [htext, upTo_append hbefore List.mem_cons_self, upTo_cons_self]
    simp [quoted]

theorem upTo_further (entry : String × String) (entries : List (String × String))
    (rest : List Char) :
    upTo closeBrace (further (entry :: entries) ++ rest) =
      ',' :: upTo closeBrace (flatMembers (entry :: entries) ++ rest) := by
  have hcomma : closeBrace ∉ [','] := by decide
  have hmem : closeBrace ∈ flatMembers (entry :: entries) ++ rest := by
    rw [flatMembers, flatMember_append, ← List.nil_append (further entries ++ rest),
      ← flatMember_append]
    exact List.mem_append_right _ (closeBrace_mem_further entries rest)
  exact upTo_append hcomma hmem

theorem upTo_flatMembers {entries : List (String × String)}
    (hlack : ∀ entry ∈ entries, closeBrace ∉ entry.1.toList ∧ closeBrace ∉ entry.2.toList)
    (rest : List Char) : upTo closeBrace (flatMembers entries ++ rest) = flatMembers entries := by
  induction entries with
  | nil => exact upTo_cons_self closeBrace rest
  | cons entry entries ih =>
      obtain ⟨hentry, hentries⟩ := List.forall_mem_cons.mp hlack
      rw [flatMembers, flatMember_append,
        upTo_flatMember hentry.1 hentry.2 (closeBrace_mem_further entries rest)]
      cases entries with
      | nil => exact congrArg (flatMember entry) (upTo_cons_self closeBrace rest)
      | cons other entries =>
          rw [upTo_further, ih hentries]
          rfl

/-- An object that is read although it was cut had no closing brace in its values: behind a brace
within one there is no quote to close it. -/
theorem Members.lack {entries : List (String × String)} (hplain : PlainEntries raw entries)
    (hnames : ∀ entry ∈ entries, closeBrace ∉ entry.1.toList) {rest behind after : List Char}
    (hbehind : quote ∉ behind)
    (h : Members raw (upTo closeBrace (flatMembers entries ++ rest) ++ behind)
      (entries.map fun entry => (entry.1, .node entry.2 [])) after) :
    ∀ entry ∈ entries, closeBrace ∉ entry.2.toList := by
  induction entries with
  | nil => exact fun entry hentry => absurd hentry List.not_mem_nil
  | cons entry entries ih =>
      obtain ⟨hentry, hentries⟩ := List.forall_mem_cons.mp hplain
      obtain ⟨hname, hnames⟩ := List.forall_mem_cons.mp hnames
      rw [flatMembers, flatMember_append] at h
      have hvalue : closeBrace ∉ entry.2.toList := by
        intro hmem
        obtain ⟨front, hfront, htext⟩ :=
          upTo_flatMember_of_mem hname hmem (further entries ++ rest)
        rw [List.map_cons, htext] at h
        obtain ⟨next, hmember⟩ := h.exists_member
        have hquoted : quoted entry.1 (':' :: quote :: (front ++ [closeBrace])) ++ behind =
            quoted entry.1 (':' :: quote :: (front ++ closeBrace :: behind)) := by
          simp [quoted]
        rw [hquoted] at hmember
        obtain ⟨-, value, last, hblank, hread, -⟩ := hmember.exists_of_self
        rw [hblank.eq_of_not (by decide)] at hread
        obtain ⟨chars, -, hliteral⟩ := hread.literal
        rcases List.mem_append.mp hliteral.quote_mem with hquote | hquote
        · exact (hentry.2 quote (hfront quote hquote)).ne_quote rfl
        · rcases List.mem_cons.mp hquote with hquote | hquote
          · exact absurd hquote (by decide)
          · exact hbehind hquote
      refine List.forall_mem_cons.mpr ⟨hvalue, ?_⟩
      rw [upTo_flatMember hname hvalue (closeBrace_mem_further entries rest),
        flatMember_append] at h
      cases entries with
      | nil => exact fun entry hentry => absurd hentry List.not_mem_nil
      | cons other entries =>
          rw [upTo_further] at h
          cases h with
          | more hmember hmore =>
              obtain ⟨hnext, -⟩ := hmember.plain rfl (by decide)
              rw [(List.cons.inj hnext).2] at hmore
              exact ih hentries hnames hmore

theorem document_cut_iff {entries : List (String × String)} (hplain : PlainEntries raw entries)
    (hnames : ∀ entry ∈ entries, closeBrace ∉ entry.1.toList) (rest : List Char) :
    Document raw (openBrace :: (upTo closeBrace (flatMembers entries ++ rest) ++ ['\n']))
        (flatTree entries) ↔
      ∀ entry ∈ entries, closeBrace ∉ entry.2.toList := by
  constructor
  · rintro ⟨first, after, hblank, hread, -⟩
    rw [hblank.eq_of_not (by decide)] at hread
    obtain ⟨members, htree, hmembers⟩ := hread.members
    have hsame : (entries.map fun entry => (entry.1, PTree.node entry.2 [])) = members :=
      congrArg PTree.children htree
    rw [← hsame] at hmembers
    exact hmembers.lack hplain hnames (by decide)
  · intro hvalues
    rw [upTo_flatMembers (fun entry hentry => ⟨hnames entry hentry, hvalues entry hentry⟩) rest]
    exact ⟨_, ['\n'], .none _, .object (members_flatMembers hplain ['\n']),
      .skip (Or.inr (Or.inr (Or.inl rfl))) (.none _)⟩

end

end Json

/-! ## The notify functions -/

structure PushThread where
  logfile : String

/-- A device as the notify functions write it. -/
def deviceText (entries : List (String × String)) : String :=
  "\x7b\"device\": " ++ String.ofList (openBrace :: flatMembers entries) ++ "\x7d\n"

/-- The words for the states of a switch, which commands and parts of a state share. -/
def switchWord (value : String) : String :=
  if value = "ON" ∨ value = "1" then "true"
  else if value = "OFF" ∨ value = "0" then "false"
  else value

/-- `+` stands before a part unless nothing has been written. -/
def convertValue (v : String) : String :=
  (NameList.init [] v '+').foldl
    (fun res part => (if res ≠ "" then res ++ "+" else res) ++ switchWord part) ""

/-- The bounds in the order in which they are tried, and what a value above one is shown as. -/
def dimmerSteps : List (ℚ × String) :=
  [(91, "100"), (81, "90"), (71, "80"), (61, "70"), (51, "60"), (41, "50"), (31, "40"), (21, "30"),
    (11, "20"), (1, "10")]

def remapDimmer (env : Env) (value : String) : String :=
  let val := a2double env value
  if val < 1 then "0"
  else ((dimmerSteps.find? fun step => step.1 < val).map Prod.snd).getD "0"

/-- The device and the name in the parts of a feature. -/
def deviceAndName (namefull : NameList) : String × String :=
  match namefull with
  | device :: name :: _ => (device, name)
  | _ => ("XX", namefull.headD "")

def stateValue (env : Env) (device value : String) : String :=
  if device ∈ ["LI", "SO", "SA", "GA", "GV", "IR"] then convertValue value
  else if device = "DI" then remapDimmer env value
  else if device = "SH" ∧ value = "UP" then "up"
  else if device = "SH" ∧ value = "DOWN" then "down"
  else if device = "SH" ∧ value = "OFF" then "off"
  else value

def programDevice (message : MMessage) : List (String × String) :=
  let source := message.getString "source"
  [("name", if source = "" then message.getString "agent" else source),
    ("mode", message.getString "status"), ("active", message.getString "program_active")]

/-- A feature of three parts has to end with `state`; one of more parts is taken as it is, since
`otherwise` is only a label. -/
def changedDevice (env : Env) (message : MMessage) : Option (List (String × String)) :=
  let namefull := NameList.init [] (message.getString "feature") '_'
  let device := (deviceAndName namefull).1
  let name := (deviceAndName namefull).2
  let value := message.getString "value"
  let color := message.getString "color"
  let describe (status : String) :=
    ("name", device ++ "_" ++ name) :: ("status", status) ::
      if color = "" then [] else [("color", color)]
  if namefull.length = 3 then
    if namefull[2]? ≠ some "state" then none
    else some (describe (stateValue env device value))
  else some (describe value)

def alarmDevice (message : MMessage) : List (String × String) :=
  [("name", message.getString "agentname"), ("alarm", message.getString "feature"),
    ("source", message.getString "source"), ("video", message.getString "video")]

def cmdDevice (message : MMessage) : Option (List (String × String)) :=
  if message.getString "agentname" = "Alarm" then none
  else
    some [("name", message.getString "agentname"), ("action", message.getString "feature"),
      ("value", switchWord (message.getString "value"))]

namespace PushThread

variable (thread : PushThread) (env : Env)

/-- The line, and what is then in the log file if that can be opened. -/
def logMessage (ty m : String) (file : Option String) : String × Option String :=
  let time := "20" ++ getasciitimecompact env.localtime
  let tolog := m.toList.drop 3
  let tolog := tolog.drop (behindFirst openBrace tolog)
  let tolog := tolog.take (behindFirst closeBrace tolog)
  let line := "\x7b\"time\":\"" ++ time ++ "\",\"type\":\"" ++ ty ++ "\"," ++
    String.ofList tolog ++ "\n"
  (line, if thread.logfile = "" then file else file.map (· ++ line))

/-- Nothing is pushed without a description. -/
def notify (message : MMessage) (file : Option String) :
    Option (List (String × String)) → String × Option String
  | none => ("", file)
  | some entries => thread.logMessage env (message.getString "class") (deviceText entries) file

def notifyAlarm (message : MMessage) (file : Option String) : String × Option String :=
  thread.notify env message file (some (alarmDevice message))

def notifyProgramChange (message : MMessage) (file : Option String) : String × Option String :=
  thread.notify env message file (some (programDevice message))

def notifyCmdChange (message : MMessage) (file : Option String) : String × Option String :=
  thread.notify env message file (cmdDevice message)

def notifyDeviceChange (message : MMessage) (file : Option String) : String × Option String :=
  thread.notify env message file (changedDevice env message)

def notifyEvent (message : MMessage) (file : Option String) : String × Option String :=
  if message.mtype = "logcmd" ∧ message.msubtype = "archive" ∧
      message.getString "class" ∈ ["event", "program", "cmd", "alarm"] then
    if message.getString "feature" = "" then ("", file)
    else if message.getString "class" = "alarm" then thread.notifyAlarm env message file
    else if message.getString "feature" = "prgstatus" then
      thread.notifyProgramChange env message file
    else if message.getString "class" = "cmd" then thread.notifyCmdChange env message file
    else thread.notifyDeviceChange env message file
  else ("", file)

end PushThread

/-! ## What a line shows -/

/-- The values of a message that its line shows: of a feature the first two parts, and no value of
a dimmer, for which a step of the scale stands. -/
def shown (message : MMessage) : List String :=
  let namefull := NameList.init [] (message.getString "feature") '_'
  let device := (deviceAndName namefull).1
  if message.getString "class" = "alarm" then
    [message.getString "agentname", message.getString "feature", message.getString "source",
      message.getString "video"]
  else if message.getString "feature" = "prgstatus" then
    [if message.getString "source" = "" then message.getString "agent"
      else message.getString "source", message.getString "status",
      message.getString "program_active"]
  else if message.getString "class" = "cmd" then
    [message.getString "agentname", message.getString "feature", message.getString "value"]
  else
    [device, (deviceAndName namefull).2, message.getString "color"] ++
      if namefull.length = 3 ∧ device = "DI" then [] else [message.getString "value"]

/-- The description that the notify function for a message builds. -/
def description (env : Env) (message : MMessage) : Option (List (String × String)) :=
  if message.getString "class" = "alarm" then some (alarmDevice message)
  else if message.getString "feature" = "prgstatus" then some (programDevice message)
  else if message.getString "class" = "cmd" then cmdDevice message
  else changedDevice env message

/-- Texts of characters with a property. -/
def Consists (P : Char → Prop) (text : String) : Prop := ∀ c ∈ text.toList, P c

instance (P : Char → Prop) [DecidablePred P] (text : String) : Decidable (Consists P text) :=
  List.decidableBAll P text.toList

/-- The texts that the notify functions put in and compare with, the names of the fields, the
classes and the digits. -/
def ownTexts : List String :=
  ["", "+", "_", "XX", "true", "false", "ON", "1", "OFF", "0", "UP", "DOWN", "up", "down", "off",
    "100", "90", "80", "70", "60", "50", "40", "30", "20", "10", "time", "type", "name", "mode",
    "active", "status", "color", "alarm", "source", "video", "action", "value", "event", "program",
    "cmd", "0123456789abcdef*"]

section

variable {P : Char → Prop}

theorem consists_ne_iff (mark : Char) (text : String) :
    Consists (fun c => c ≠ mark) text ↔ mark ∉ text.toList :=
  ⟨fun h hmem => h mark hmem rfl, fun h _ hc heq => h (heq ▸ hc)⟩

theorem consists_append {first second : String} :
    Consists P (first ++ second) ↔ Consists P first ∧ Consists P second := by
  rw [Consists, String.toList_append, List.forall_mem_append]
  rfl

theorem consists_switchWord (hown : ∀ text ∈ ownTexts, Consists P text) (value : String) :
    Consists P (switchWord value) ↔ Consists P value := by
  rw [switchWord]
  split_ifs with hon hoff
  · refine iff_of_true (hown _ (by decide)) ?_
    rcases hon with rfl | rfl
    · exact hown _ (by decide)
    · exact hown _ (by decide)
  · refine iff_of_true (hown _ (by decide)) ?_
    rcases hoff with rfl | rfl
    · exact hown _ (by decide)
    · exact hown _ (by decide)
  · exact Iff.rfl

theorem consists_convertValue (hown : ∀ text ∈ ownTexts, Consists P text) (v : String) :
    Consists P (convertValue v) ↔ Consists P v := by
  have hplus : P '+' := hown "+" (by decide) '+' (by decide)
  have hloop : ∀ (parts : List String) (res : String),
      Consists P (parts.foldl
        (fun res part => (if res ≠ "" then res ++ "+" else res) ++ switchWord part) res) ↔
      Consists P res ∧ ∀ part ∈ parts, Consists P part := by
    intro parts
    induction parts with
    | nil => simp
    | cons part rest ih =>
        intro res
        have hjoined : Consists P (if res ≠ "" then res ++ "+" else res) ↔ Consists P res := by
          split_ifs
          · rw [consists_append, and_iff_left (hown "+" (by decide))]
          · exact Iff.rfl
        rw [List.foldl_cons, ih, consists_append, hjoined, consists_switchWord hown,
          List.forall_mem_cons, and_assoc]
  rw [convertValue, hloop, and_iff_right (hown "" (by decide))]
  exact NameList.forall_mem_init_iff hplus v

theorem consists_remapDimmer (hown : ∀ text ∈ ownTexts, Consists P text) (env : Env)
    (value : String) : Consists P (remapDimmer env value) := by
  have hsteps : ∀ step ∈ dimmerSteps, step.2 ∈ ownTexts := by
    simp [dimmerSteps, ownTexts]
  rw [remapDimmer]
  cases hstep : dimmerSteps.find? fun step => step.1 < a2double env value with
  | none =>
      split_ifs
      · exact hown _ (by decide)
      · exact hown _ (by decide)
  | some step =>
      split_ifs
      · exact hown _ (by decide)
      · exact hown _ (hsteps step (List.mem_of_find?_eq_some hstep))

theorem consists_stateValue (hown : ∀ text ∈ ownTexts, Consists P text) (env : Env)
    (device value : String) :
    Consists P (stateValue env device value) ↔ device = "DI" ∨ Consists P value := by
  rw [stateValue]
  split_ifs with hswitch hdimmer hup hdown hoff
  · have hdevice : device ≠ "DI" := by
      rintro rfl
      exact absurd hswitch (by decide)
    rw [consists_convertValue hown, or_iff_right hdevice]
  · exact iff_of_true (consists_remapDimmer hown env value) (Or.inl hdimmer)
  · exact iff_of_true (hown _ (by decide)) (Or.inr (hup.2 ▸ hown _ (by decide)))
  · exact iff_of_true (hown _ (by decide)) (Or.inr (hdown.2 ▸ hown _ (by decide)))
  · exact iff_of_true (hown _ (by decide)) (Or.inr (hoff.2 ▸ hown _ (by decide)))
  · rw [or_iff_right hdimmer]

theorem consists_changedDevice (hown : ∀ text ∈ ownTexts, Consists P text) {env : Env}
    {message : MMessage} {entries : List (String × String)}
    (hentries : changedDevice env message = some entries)
    (halarm : message.getString "class" ≠ "alarm")
    (hprogram : message.getString "feature" ≠ "prgstatus")
    (hcmd : message.getString "class" ≠ "cmd") :
    (∀ entry ∈ entries, Consists P entry.2) ↔ ∀ text ∈ shown message, Consists P text := by
  rw [shown]
  simp only [if_neg halarm, if_neg hprogram, if_neg hcmd]
  rw [changedDevice] at hentries
  simp only at hentries
  generalize NameList.init [] (message.getString "feature") '_' = namefull at hentries ⊢
  have hcolor : (∀ entry ∈ if message.getString "color" = "" then []
      else [("color", message.getString "color")], Consists P entry.2) ↔
      Consists P (message.getString "color") := by
    split_ifs with hempty
    · rw [hempty]
      exact iff_of_true (fun entry hentry => absurd hentry List.not_mem_nil) (hown _ (by decide))
    · rw [List.forall_mem_singleton]
  have hname : Consists P ((deviceAndName namefull).1 ++ "_" ++ (deviceAndName namefull).2) ↔
      Consists P (deviceAndName namefull).1 ∧ Consists P (deviceAndName namefull).2 := by
    rw [consists_append, consists_append, and_iff_left (hown "_" (by decide))]
  by_cases hthree : namefull.length = 3
  · simp only [if_pos hthree] at hentries
    by_cases hstate : namefull[2]? ≠ some "state"
    · rw [if_pos hstate] at hentries
      cases hentries
    · rw [if_neg hstate, Option.some.injEq] at hentries
      rw [← hentries, List.forall_mem_cons, List.forall_mem_cons, hcolor, hname,
        consists_stateValue hown]
      by_cases hdimmer : (deviceAndName namefull).1 = "DI"
      · simp [hthree, hdimmer, and_assoc]
      · simp [hthree, hdimmer, and_assoc, and_comm]
  · rw [if_neg hthree, Option.some.injEq] at hentries
    rw [← hentries, List.forall_mem_cons, List.forall_mem_cons, hcolor, hname]
    simp [hthree, and_assoc, and_comm]

/-- A description has the characters of what the message shows. -/
theorem consists_description (hown : ∀ text ∈ ownTexts, Consists P text) {env : Env}
    {message : MMessage} {entries : List (String × String)}
    (hentries : description env message = some entries) :
    (∀ entry ∈ entries, Consists P entry.2) ↔ ∀ text ∈ shown message, Consists P text := by
  rw [description] at hentries
  split_ifs at hentries with halarm hprogram hcmd
  · rw [shown, if_pos halarm, ← Option.some.inj hentries]
    simp [alarmDevice]
  · rw [shown, if_neg halarm, if_pos hprogram, ← Option.some.inj hentries]
    simp [programDevice]
  · rw [shown, if_neg halarm, if_neg hprogram, if_pos hcmd]
    rw [cmdDevice] at hentries
    split_ifs at hentries
    rw [← Option.some.inj hentries]
    simp [consists_switchWord hown]
  · exact consists_changedDevice hown hentries halarm hprogram hcmd

end

theorem fst_description {env : Env} {message : MMessage} {entries : List (String × String)}
    (hentries : description env message = some entries) :
    entries ≠ [] ∧ ∀ entry ∈ entries, entry.1 ∈ ownTexts := by
  rw [description] at hentries
  split_ifs at hentries
  · rw [← Option.some.inj hentries]
    simp [alarmDevice, ownTexts]
  · rw [← Option.some.inj hentries]
    simp [programDevice, ownTexts]
  · rw [cmdDevice] at hentries
    split_ifs at hentries
    rw [← Option.some.inj hentries]
    simp [ownTexts]
  · rw [changedDevice] at hentries
    simp only at hentries
    split_ifs at hentries <;> rw [← Option.some.inj hentries] <;> simp [ownTexts]

/-- All values of a message. -/
def MMessage.texts (message : MMessage) : List String :=
  message.fields.entries.flatMap fun entry => entry.2.texts

theorem consists_getString {P : Char → Prop} {message : MMessage}
    (hvalues : ∀ text ∈ message.texts, Consists P text) (hempty : Consists P "")
    (field : String) : Consists P (message.getString field) := by
  rw [MMessage.getString]
  cases hlist : message.fields.find? field with
  | none => exact hempty
  | some list =>
      have hmem := (message.fields.mem_entries_iff field list).mpr hlist
      have htexts : ∀ text ∈ list.texts, Consists P text :=
        fun text htext => hvalues text (List.mem_flatMap_of_mem hmem htext)
      cases list with
      | mstring value => exact htexts value List.mem_cons_self
      | mstringList items =>
          cases items with
          | nil => exact hempty
          | cons first rest => exact htexts first List.mem_cons_self

/-- What is shown is made of values of the message. -/
theorem consists_shown {P : Char → Prop} (hown : ∀ text ∈ ownTexts, Consists P text)
    {message : MMessage} (hvalues : ∀ field, Consists P (message.getString field)) :
    ∀ text ∈ shown message, Consists P text := by
  have hline : P '_' := hown "_" (by decide) '_' (by decide)
  have hparts := (NameList.forall_mem_init_iff hline (message.getString "feature")).mpr
    (hvalues "feature")
  have hpair : Consists P (deviceAndName (NameList.init [] (message.getString "feature") '_')).1 ∧
      Consists P (deviceAndName (NameList.init [] (message.getString "feature") '_')).2 := by
    generalize NameList.init [] (message.getString "feature") '_' = namefull at hparts ⊢
    match namefull with
    | device :: name :: _ =>
        exact ⟨hparts device (by simp), hparts name (by simp)⟩
    | [name] => exact ⟨hown "XX" (by decide), hparts name (by simp)⟩
    | [] => exact ⟨hown "XX" (by decide), hown "" (by decide)⟩
  rw [shown]
  split_ifs <;> simp [hvalues, hpair]

theorem consists_time {P : Char → Prop} (hown : ∀ text ∈ ownTexts, Consists P text) (tm : Tm) :
    Consists P ("20" ++ getasciitimecompact tm) := by
  -- beyond the digits `digitChar` gives a star
  have hdigit : ∀ n, Nat.digitChar n ∈ "0123456789abcdef*".toList := by
    intro n
    by_cases hn : n < 16
    · have hsmall : ∀ n < 16, Nat.digitChar n ∈ "0123456789abcdef*".toList := by decide
      exact hsmall n hn
    · rw [Nat.digitChar_eq_star.mpr (by omega)]
      decide
  intro c hc
  rw [getasciitimecompact, twenty_append, String.toList_ofList, digits, List.mem_flatMap] at hc
  obtain ⟨n, -, hc⟩ := hc
  rcases List.mem_pair.mp hc with rfl | rfl
  · exact hown "0123456789abcdef*" (by decide) _ (hdigit _)
  · exact hown "0123456789abcdef*" (by decide) _ (hdigit _)

namespace PushThread

/-- Time and type stand before the fields of the description. -/
def lineEntries (env : Env) (message : MMessage) (entries : List (String × String)) :
    List (String × String) :=
  ("time", "20" ++ getasciitimecompact env.localtime) :: ("type", message.getString "class") ::
    entries

theorem toList_logMessage (thread : PushThread) (env : Env) {message : MMessage}
    {entries : List (String × String)} (hentries : entries ≠ [])
    (htime : closeBrace ∉ ("20" ++ getasciitimecompact env.localtime).toList)
    (htype : closeBrace ∉ (message.getString "class").toList) (file : Option String) :
    (thread.logMessage env (message.getString "class") (deviceText entries) file).1.toList =
      openBrace :: (upTo closeBrace
        (flatMembers (lineEntries env message entries) ++ [closeBrace, '\n']) ++ ['\n']) := by
  obtain ⟨entry, rest, rfl⟩ := List.exists_cons_of_ne_nil hentries
  have hbefore : openBrace ∉ "evice\": ".toList := by decide
  have htext : (deviceText (entry :: rest)).toList.drop 3 =
      "evice\": ".toList ++ openBrace :: (flatMembers (entry :: rest) ++ [closeBrace, '\n']) := by
    simp [deviceText, closeBrace]
  have hline : upTo closeBrace
      (flatMembers (lineEntries env message (entry :: rest)) ++ [closeBrace, '\n']) =
      flatMember ("time", "20" ++ getasciitimecompact env.localtime)
        (',' :: flatMember ("type", message.getString "class")
          (',' :: upTo closeBrace (flatMembers (entry :: rest) ++ [closeBrace, '\n']))) := by
    have htimeName : closeBrace ∉ "time".toList := by decide
    have htypeName : closeBrace ∉ "type".toList := by decide
    rw [lineEntries, flatMembers, flatMember_append, upTo_flatMember htimeName htime
      (closeBrace_mem_further _ _), upTo_further, flatMembers, flatMember_append,
      upTo_flatMember htypeName htype (closeBrace_mem_further _ _), upTo_further]
  rw [hline]
  simp only [logMessage, htext, drop_behindFirst hbefore, String.toList_append,
    String.toList_ofList]
  simp [flatMember, quoted, openBrace, quote, upTo]

/-- What is pushed is one object of the fields of the description behind time and type. -/
def Pushes (thread : PushThread) (env : Env) (message : MMessage) (file : Option String) : Prop :=
  ∃ entries, description env message = some entries ∧
    Document standard (thread.notifyEvent env message file).1.toList
      (flatTree (lineEntries env message entries))

theorem notifyEvent_eq (thread : PushThread) {env : Env} {message : MMessage}
    {file : Option String} (hline : (thread.notifyEvent env message file).1 ≠ "") :
    message.getString "class" ∈ ["event", "program", "cmd", "alarm"] ∧
      ∃ entries, description env message = some entries ∧
        thread.notifyEvent env message file =
          thread.logMessage env (message.getString "class") (deviceText entries) file := by
  have hnotify : message.getString "class" ∈ ["event", "program", "cmd", "alarm"] ∧
      thread.notifyEvent env message file =
        thread.notify env message file (description env message) := by
    rw [notifyEvent] at hline ⊢
    split_ifs at hline ⊢ with hclass hfeature halarm hprogram hcmd
    · exact absurd rfl hline
    · exact ⟨hclass.2.2, by rw [description, if_pos halarm, notifyAlarm]⟩
    · exact ⟨hclass.2.2, by rw [description, if_neg halarm, if_pos hprogram, notifyProgramChange]⟩
    · exact ⟨hclass.2.2,
        by rw [description, if_neg halarm, if_neg hprogram, if_pos hcmd, notifyCmdChange]⟩
    · exact ⟨hclass.2.2,
        by rw [description, if_neg halarm, if_neg hprogram, if_neg hcmd, notifyDeviceChange]⟩
    · exact absurd rfl hline
  refine ⟨hnotify.1, ?_⟩
  rw [hnotify.2] at hline ⊢
  cases hentries : description env message with
  | none =>
      rw [hentries] at hline
      exact absurd rfl hline
  | some entries => exact ⟨entries, rfl, rfl⟩

theorem consists_lineEntries {P : Char → Prop} (hown : ∀ text ∈ ownTexts, Consists P text)
    {env : Env} {message : MMessage}
    (hclass : message.getString "class" ∈ ["event", "program", "cmd", "alarm"])
    {entries : List (String × String)} (hentries : description env message = some entries) :
    (∀ entry ∈ lineEntries env message entries, Consists P entry.1) ∧
      ((∀ entry ∈ lineEntries env message entries, Consists P entry.2) ↔
        ∀ text ∈ shown message, Consists P text) := by
  have hclasses : ["event", "program", "cmd", "alarm"] ⊆ ownTexts := by decide
  rw [lineEntries, List.forall_mem_cons, List.forall_mem_cons, List.forall_mem_cons,
    List.forall_mem_cons]
  refine ⟨⟨hown "time" (by decide), hown "type" (by decide), fun entry hentry => ?_⟩, ?_⟩
  · exact hown _ ((fst_description hentries).2 entry hentry)
  · rw [consists_description hown hentries, and_iff_right (consists_time hown env.localtime),
      and_iff_right (hown _ (hclasses hclass))]

theorem document_notifyEvent_iff (thread : PushThread) {env : Env} {message : MMessage}
    {file : Option String} (hvalues : ∀ text ∈ message.texts, PlainText standard text)
    (hline : (thread.notifyEvent env message file).1 ≠ "") {entries : List (String × String)}
    (hentries : description env message = some entries) :
    Document standard (thread.notifyEvent env message file).1.toList
        (flatTree (lineEntries env message entries)) ↔
      ∀ text ∈ shown message, closeBrace ∉ text.toList := by
  have hstandard : ∀ text ∈ ownTexts, Consists (Plain standard) text := by decide
  have hbraces : ∀ text ∈ ownTexts, Consists (fun c => c ≠ closeBrace) text := by decide
  obtain ⟨hclass, described, hdescribed, hsame⟩ := thread.notifyEvent_eq hline
  obtain rfl : described = entries := Option.some.inj (hdescribed.symm.trans hentries)
  have hplain : PlainEntries standard (lineEntries env message described) := by
    have hvalue := (consists_lineEntries hstandard hclass hentries).2.mpr
      (consists_shown hstandard (consists_getString hvalues (hstandard "" (by decide))))
    intro entry hentry
    exact ⟨(consists_lineEntries hstandard hclass hentries).1 entry hentry, hvalue entry hentry⟩
  have hlack := consists_lineEntries hbraces hclass hentries
  have htime := consists_time hbraces env.localtime
  have htype : Consists (fun c => c ≠ closeBrace) (message.getString "class") := by
    have hclasses : ["event", "program", "cmd", "alarm"] ⊆ ownTexts := by decide
    exact hbraces _ (hclasses hclass)
  simp only [consists_ne_iff] at hlack htime htype
  rw [hsame, thread.toList_logMessage env (fst_description hentries).1 htime htype,
    document_cut_iff hplain hlack.1, hlack.2]

/-- The line is right exactly if no value that it shows has a closing brace. -/
theorem pushes_iff (thread : PushThread) {env : Env} {message : MMessage} {file : Option String}
    (hvalues : ∀ text ∈ message.texts, PlainText standard text)
    (hline : (thread.notifyEvent env message file).1 ≠ "") :
    thread.Pushes env message file ↔ ∀ text ∈ shown message, closeBrace ∉ text.toList := by
  obtain ⟨-, entries, hentries, -⟩ := thread.notifyEvent_eq hline
  rw [← thread.document_notifyEvent_iff hvalues hline hentries]
  constructor
  · rintro ⟨described, hdescribed, hdocument⟩
    rwa [Option.some.inj (hentries.symm.trans hdescribed)]
  · exact fun hdocument => ⟨entries, hentries, hdocument⟩

/-- An event of the lamp in the hall. -/
def hallEvent (value : String) : MMessage :=
  (((MMessage.mk2 "logcmd" "archive").add "class" "event").add "feature" "LI_hall").add
    "value" value

theorem pushes_hallEvent : (⟨""⟩ : PushThread).Pushes firstNight (hallEvent "\x7bON,:") none :=
  (pushes_iff ⟨""⟩ (by decide +kernel) (by decide +kernel)).mpr (by decide +kernel)

/-- A closing brace in the status ends the line. -/
theorem not_pushes_brace :
    (∀ text ∈ (hallEvent "\x7d").texts, PlainText standard text) ∧
      ((⟨""⟩ : PushThread).notifyEvent firstNight (hallEvent "\x7d") none).1 =
        "\x7b\"time\":\"20700101030405\",\"type\":\"event\",\"name\":\"LI_hall\"," ++
          "\"status\":\"\x7d\n" ∧
      ¬(⟨""⟩ : PushThread).Pushes firstNight (hallEvent "\x7d") none := by
  have hvalues : ∀ text ∈ (hallEvent "\x7d").texts, PlainText standard text := by decide +kernel
  refine ⟨hvalues, by decide +kernel, ?_⟩
  rintro ⟨entries, hentries, hdocument⟩
  have hbraces := ((⟨""⟩ : PushThread).document_notifyEvent_iff hvalues (by decide +kernel)
    hentries).mp hdocument
  exact hbraces "\x7d" (by decide +kernel) (by decide)

end PushThread

end Hat
