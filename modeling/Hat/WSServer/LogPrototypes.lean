import Hat.Core.Expansion
import Hat.Minilibs.AgentInfo
import Hat.Minilibs.ArchiveTimes
import Hat.Minilibs.MParams

/-!
# Texts of log entries

The user log writes a line for a message, and the translator a text for an entry of that log.
Both fill in a prototype: as long as there is a `$` in it, the key behind the first one is
replaced by the value of a field.
-/

namespace Hat

open Hat.Hsrv

/-- What stands before the first occurrence of a part. -/
def beforePart (part : List Char) : List Char → List Char
  | [] => []
  | c :: rest => if part.isPrefixOf (c :: rest) then [] else c :: beforePart part rest

structure UserLog where
  logmap : String → Option NameList
  proto : String → Option String
  pathname : String → String
  source : String → Option NameList

namespace UserLog

def isDelim (c : Char) : Bool := c = '\x22'

/-- The key behind the first `$`.  Without a delimiter the prototype is read past its end. -/
def getKey (proto : String) : Option String :=
  match proto.toList.dropWhile fun c => c ≠ '$' with
  | [] => some ""
  | _ :: tail =>
      if '\x22' ∈ tail then some (String.ofList (tail.takeWhile fun c => !isDelim c)) else none

def remap (v : String) : String := if v = "ON" then "true" else if v = "OFF" then "false" else v

/-- The message with the fields that are added for the log. -/
def recorded (env : Env) (m : MMessage) : MMessage :=
  let mtype := m.getString "class"
  let msubtype := String.ofList (beforePart "_state".toList (m.getString "feature").toList)
  let m := (m.add "mtype" mtype).add "msubtype" msubtype
  let m := if m.getString "agent" ≠ "" then m.add "agentname" (m.getString "agent") else m
  let m := if m.getString "Ipower" ≠ "" then m.add "value" (m.getString "Ipower") else m
  m.add "time" ("20" ++ getasciitimecompact env.localtime)

def valueOf (m : MMessage) (key : String) : String :=
  if key = "program" then m.getString key else remap (m.getString key)

def turn (m : MMessage) (prototype : String) : WhileLoop.Turn String :=
  match getKey prototype with
  | none => .fault
  | some key =>
      if key = "" then .exit else .next (strReplace prototype ("$" ++ key) (valueOf m key))

/-- The loop of `log`, with the turns it may take. -/
def fill (env : Env) (turns : ℕ) (m : MMessage) (prototype : String) : Option String :=
  WhileLoop.run (turn (recorded env m)) turns prototype

def checkSource (target agent : String) (userlog : UserLog) : Bool :=
  match userlog.source target with
  | some agents => agents.member agent
  | none => true

/-- The lines that are appended, with their files. -/
def log (env : Env) (turns : ℕ) (m : MMessage) (userlog : UserLog) :
    Option (List (String × String)) :=
  match userlog.logmap (m.getString "class"), userlog.proto (m.getString "class") with
  | some targets, some prototype =>
      (fill env turns m prototype).map fun line =>
        (targets.filter fun target =>
          userlog.checkSource target ((recorded env m).getString "agentname")).map
            fun target => (userlog.pathname target, line)
  | _, _ => some []

end UserLog

structure Translator extends MParams

namespace Translator

def isDelim (c : Char) : Bool := c = ' ' || c = ',' || c = ';' || c = '\x22' || c = '.'

def getKey (proto : String) : String :=
  match proto.toList.dropWhile fun c => c ≠ '$' with
  | [] => ""
  | _ :: tail => String.ofList (tail.takeWhile fun c => !isDelim c)

/-- The value without the two letters of its kind, up to the next underscore.  The third letter
of a value with less than two is whatever is found there. -/
def clean (beyond : Char) (v : String) : Option String :=
  let third := if v.toList.length = 2 then '\x00' else v.toList.getD 2 beyond
  let res :=
    if third = '_' then
      if 3 ≤ v.toList.length then some (v.toList.drop 3) else none
    else some v.toList
  res.map fun res => String.ofList (res.takeWhile fun c => c ≠ '_')

def remap (beyond : Char) (category v : String) (translator : Translator) : Option String :=
  let value := translator.getCategory v category
  if value = "" then clean beyond v else some value

/-- Day, month and year before the time of day. -/
def timeFormat (t : String) : String :=
  let piece (start size : ℕ) : List Char := (t.toList.drop start).take size
  if t.toList.length < 14 then t
  else String.ofList (piece 6 2 ++ '-' :: piece 4 2 ++ '-' :: piece 0 4 ++ " - ".toList ++
    piece 8 2 ++ ':' :: piece 10 2 ++ ':' :: piece 12 2)

/-- A field that the entry does not have is an exception. -/
def valueOf (beyond : Char) (entry : String → Option String) (evtype key : String)
    (translator : Translator) : Option String :=
  (entry key).bind fun currentval =>
    translator.remap beyond evtype (if key = "time" then timeFormat currentval else currentval)

def turn (beyond : Char) (entry : String → Option String) (evtype : String)
    (translator : Translator) (res : String) : WhileLoop.Turn String :=
  if getKey res = "" then .exit
  else
    match translator.valueOf beyond entry evtype (getKey res) with
    | none => .fault
    | some nwd => .next (strReplace res ("$" ++ getKey res) nwd)

def log2text (beyond : Char) (turns : ℕ) (entry : String → Option String)
    (translator : Translator) : Option String :=
  (entry "type").bind fun evtype =>
    let res := translator.getCategory evtype "proto"
    if res = "" then some ""
    else WhileLoop.run (translator.turn beyond entry evtype) turns res

end Translator

/-- Every `$` is followed by a key and a delimiter. -/
def IsPrototype (isDelim : Char → Bool) (proto : String) : Prop :=
  Expansion.Keyed '$' isDelim proto.toList

instance (isDelim : Char → Bool) (proto : String) : Decidable (IsPrototype isDelim proto) :=
  inferInstanceAs (Decidable (Expansion.Keyed '$' isDelim proto.toList))

def keyCount (isDelim : Char → Bool) (proto : String) : ℕ :=
  Expansion.keys '$' isDelim proto.toList

/-- The values of fields, by the letters of their keys. -/
def byLetters (valueOf : String → Option String) (key : List Char) : Option (List Char) :=
  (valueOf (String.ofList key)).map String.toList

/-- The prototype with each of its keys replaced, if there are values for all. -/
def filledIn (isDelim : Char → Bool) (valueOf : String → Option String) (proto : String) :
    Option String :=
  (Expansion.expand '$' isDelim (byLetters valueOf) proto.toList).map String.ofList

/-- The keys have values without a `$`, up to one that has a `$` with no key behind it and leaves
no key to fill in. -/
def PlainValues (isDelim : Char → Bool) (valueOf : String → Option String) (proto : String) :
    Prop :=
  Expansion.Unmarked '$' isDelim (byLetters valueOf) proto.toList

/-- The loop is over after one turn for each key at most, and the lines hold the prototype with
its keys replaced. -/
structure UserLog.Logs (env : Env) (m : MMessage) (prototype : String) (targets : NameList)
    (userlog : UserLog) : Prop where
  line : ∃ line, filledIn isDelim (fun key => some (valueOf (recorded env m) key)) prototype =
      some line ∧
    fill env (keyCount isDelim prototype) m prototype = some line ∧
    userlog.log env (keyCount isDelim prototype) m =
      some ((targets.filter fun target =>
        userlog.checkSource target ((recorded env m).getString "agentname")).map
          fun target => (userlog.pathname target, line))

/-- The loop is over after one turn for each key at most, and gives the prototype with its keys
replaced. -/
def Translator.Translates (beyond : Char) (entry : String → Option String) (evtype : String)
    (translator : Translator) : Prop :=
  ∃ text, filledIn isDelim (fun key => translator.valueOf beyond entry evtype key)
      (translator.getCategory evtype "proto") = some text ∧
    translator.log2text beyond (keyCount isDelim (translator.getCategory evtype "proto")) entry =
      some text

/-! ## The loops -/

/-- The first `$` with its key is the first occurrence of that key behind a `$`. -/
theorem toList_strReplace_key {proto : String} (hmark : '$' ∈ proto.toList)
    (isDelim : Char → Bool) (value : String) :
    (strReplace proto
        ("$" ++ String.ofList (Expansion.keyOf isDelim (Expansion.marked '$' proto.toList)))
        value).toList =
      Expansion.front '$' proto.toList ++ value.toList ++
        Expansion.behind isDelim (Expansion.marked '$' proto.toList) := by
  obtain ⟨before, tail, htext, hbefore⟩ := List.eq_append_cons_of_mem hmark
  rw [htext, Expansion.front_append hbefore, Expansion.marked_append hbefore]
  have hproto : proto = String.ofList before ++
      ("$" ++ String.ofList (Expansion.keyOf isDelim tail)) ++
        String.ofList (Expansion.behind isDelim tail) := by
    apply String.toList_inj.mp
    have htail : Expansion.keyOf isDelim tail ++ Expansion.behind isDelim tail = tail :=
      List.takeWhile_append_dropWhile
    simp [htext, htail]
  have hdst : ("$" ++ String.ofList (Expansion.keyOf isDelim tail)).toList =
      '$' :: Expansion.keyOf isDelim tail := by
    simp
  rw [hproto, strReplace_append hdst (by rwa [String.toList_ofList])]
  simp

theorem dropWhile_eq_nil_of_notMem {text : List Char} (hmark : '$' ∉ text) :
    (text.dropWhile fun c => c ≠ '$') = [] := by
  rw [List.dropWhile_eq_nil_iff]
  intro c hc
  exact decide_eq_true fun heq => hmark (heq ▸ hc)

theorem dropWhile_eq_cons_marked {text : List Char} (hmark : '$' ∈ text) :
    (text.dropWhile fun c => c ≠ '$') = '$' :: Expansion.marked '$' text := by
  obtain ⟨before, tail, rfl, hbefore⟩ := List.eq_append_cons_of_mem hmark
  have hfree : ∀ c ∈ before, decide (c ≠ '$') = true := by
    intro c hc
    exact decide_eq_true fun heq => hbefore (heq ▸ hc)
  rw [Expansion.marked_append hbefore, List.dropWhile_append_of_pos hfree,
    List.dropWhile_cons_of_neg (by decide)]

theorem ofList_eq_empty_iff (text : List Char) : String.ofList text = "" ↔ text = [] := by
  rw [← String.toList_eq_nil_iff, String.toList_ofList]

namespace UserLog

theorem behind_eq_nil_iff (tail : List Char) :
    Expansion.behind isDelim tail = [] ↔ '\x22' ∉ tail := by
  rw [Expansion.behind, List.dropWhile_eq_nil_iff]
  constructor
  · intro hall hmem
    exact absurd (hall _ hmem) (by decide)
  · intro hmem c hc
    have hne : c ≠ '\x22' := fun heq => hmem (heq ▸ hc)
    simp [isDelim, hne]

theorem getKey_of_notMem {proto : String} (hmark : '$' ∉ proto.toList) :
    getKey proto = some "" := by
  rw [getKey, dropWhile_eq_nil_of_notMem hmark]

theorem getKey_of_mem {proto : String} (hmark : '$' ∈ proto.toList) :
    getKey proto =
      if '\x22' ∈ Expansion.marked '$' proto.toList then
        some (String.ofList (Expansion.keyOf isDelim (Expansion.marked '$' proto.toList)))
      else none := by
  rw [getKey, dropWhile_eq_cons_marked hmark]
  rfl

/-- A turn over the text is one over its letters. -/
theorem map_turn (m : MMessage) (prototype : String) :
    (turn m prototype).map String.toList =
      Expansion.turn '$' isDelim (byLetters fun key => some (valueOf m key)) true
        prototype.toList := by
  rw [turn, Expansion.turn]
  by_cases hmark : '$' ∈ prototype.toList
  · rw [getKey_of_mem hmark, if_neg (not_not.mpr hmark)]
    by_cases hdelim : '\x22' ∈ Expansion.marked '$' prototype.toList
    · have hclosed : ¬(true = true ∧
          Expansion.behind isDelim (Expansion.marked '$' prototype.toList) = []) :=
        fun h => (behind_eq_nil_iff _).mp h.2 hdelim
      rw [if_neg hclosed, if_pos hdelim]
      by_cases hkey : Expansion.keyOf isDelim (Expansion.marked '$' prototype.toList) = []
      · rw [if_pos hkey]
        exact congrArg (WhileLoop.Turn.map String.toList)
          (if_pos ((ofList_eq_empty_iff _).mpr hkey))
      · rw [if_neg hkey]
        refine (congrArg (WhileLoop.Turn.map String.toList)
          (if_neg (hkey ∘ (ofList_eq_empty_iff _).mp))).trans ?_
        exact congrArg WhileLoop.Turn.next (toList_strReplace_key hmark isDelim _)
    · rw [if_neg hdelim, if_pos ⟨rfl, (behind_eq_nil_iff _).mpr hdelim⟩]
      rfl
  · rw [getKey_of_notMem hmark, if_pos hmark]
    rfl

end UserLog

namespace Translator

variable (beyond : Char) (entry : String → Option String) (evtype : String)
  (translator : Translator)

theorem map_turn (res : String) :
    (translator.turn beyond entry evtype res).map String.toList =
      Expansion.turn '$' isDelim (byLetters fun key => translator.valueOf beyond entry evtype key)
        false res.toList := by
  rw [turn, Expansion.turn]
  by_cases hmark : '$' ∈ res.toList
  · have hkey : getKey res =
        String.ofList (Expansion.keyOf isDelim (Expansion.marked '$' res.toList)) := by
      rw [getKey, dropWhile_eq_cons_marked hmark]
      rfl
    have hloose : ¬(false = true ∧
        Expansion.behind isDelim (Expansion.marked '$' res.toList) = []) :=
      fun h => Bool.false_ne_true h.1
    rw [hkey, if_neg (not_not.mpr hmark), if_neg hloose]
    by_cases hempty : Expansion.keyOf isDelim (Expansion.marked '$' res.toList) = []
    · rw [if_pos hempty, if_pos ((ofList_eq_empty_iff _).mpr hempty)]
      rfl
    · rw [if_neg hempty, if_neg (hempty ∘ (ofList_eq_empty_iff _).mp), byLetters]
      cases translator.valueOf beyond entry evtype
          (String.ofList (Expansion.keyOf isDelim (Expansion.marked '$' res.toList))) with
      | none => rfl
      | some nwd => exact congrArg WhileLoop.Turn.next (toList_strReplace_key hmark isDelim _)
  · have hkey : getKey res = "" := by
      rw [getKey, dropWhile_eq_nil_of_notMem hmark]
    rw [if_pos hkey, if_pos hmark]
    rfl

end Translator

/-- A loop over a text whose turns are those over its letters. -/
theorem run_eq_filledIn_iff {isDelim : Char → Bool} (hmark : isDelim '$' = false)
    {valueOf : String → Option String} {strict : Bool} {turn : String → WhileLoop.Turn String}
    (hturn : ∀ text, (turn text).map String.toList =
      Expansion.turn '$' isDelim (byLetters valueOf) strict text.toList)
    {proto : String} (hproto : IsPrototype isDelim proto) :
    (∃ text, filledIn isDelim valueOf proto = some text ∧
        WhileLoop.run turn (keyCount isDelim proto) proto = some text) ↔
      PlainValues isDelim valueOf proto := by
  have hrun := WhileLoop.map_run hturn (keyCount isDelim proto) proto
  have hexpand : (∃ expanded,
      Expansion.expand '$' isDelim (byLetters valueOf) proto.toList = some expanded ∧
        WhileLoop.run (Expansion.turn '$' isDelim (byLetters valueOf) strict)
          (Expansion.keys '$' isDelim proto.toList) ([] ++ proto.toList) = some ([] ++ expanded)) ↔
      Expansion.Unmarked '$' isDelim (byLetters valueOf) proto.toList :=
    Expansion.run_eq_expand_iff hmark hproto List.not_mem_nil
  simp only [List.nil_append] at hexpand
  rw [PlainValues, ← hexpand]
  constructor
  · rintro ⟨text, hfilled, htext⟩
    obtain ⟨expanded, hexpanded, rfl⟩ := Option.map_eq_some_iff.mp hfilled
    rw [htext, Option.map_some, String.toList_ofList] at hrun
    exact ⟨expanded, hexpanded, hrun.symm⟩
  · rintro ⟨expanded, hexpanded, htext⟩
    refine ⟨String.ofList expanded, by rw [filledIn, hexpanded, Option.map_some], ?_⟩
    rw [keyCount] at hrun
    rw [htext] at hrun
    obtain ⟨text, hlast, rfl⟩ := Option.map_eq_some_iff.mp hrun
    rw [String.ofList_toList]
    exact hlast

theorem UserLog.logs_iff (env : Env) {m : MMessage} {prototype : String} {targets : NameList}
    {userlog : UserLog} (htargets : userlog.logmap (m.getString "class") = some targets)
    (hproto : userlog.proto (m.getString "class") = some prototype)
    (hprototype : IsPrototype isDelim prototype) :
    userlog.Logs env m prototype targets ↔
      PlainValues isDelim (fun key => some (valueOf (recorded env m) key)) prototype := by
  rw [← run_eq_filledIn_iff (by decide) (map_turn (recorded env m)) hprototype]
  constructor
  · rintro ⟨line, hfilled, hfill, -⟩
    exact ⟨line, hfilled, hfill⟩
  · rintro ⟨line, hfilled, hfill⟩
    have hline : fill env (keyCount isDelim prototype) m prototype = some line := hfill
    refine ⟨line, hfilled, hline, ?_⟩
    simp only [log, htargets, hproto, hline, Option.map_some]

theorem Translator.translates_event_iff (beyond : Char) {entry : String → Option String}
    {evtype : String} {translator : Translator} (htype : entry "type" = some evtype)
    (hproto : IsPrototype isDelim (translator.getCategory evtype "proto")) :
    translator.Translates beyond entry evtype ↔
      PlainValues isDelim (fun key => translator.valueOf beyond entry evtype key)
        (translator.getCategory evtype "proto") := by
  rw [← run_eq_filledIn_iff (by decide) (map_turn beyond entry evtype translator) hproto,
    Translates, log2text, htype, Option.bind_some]
  by_cases hempty : translator.getCategory evtype "proto" = ""
  · have hexit : translator.turn beyond entry evtype "" = .exit := if_pos rfl
    simp only [if_pos hempty]
    rw [hempty, WhileLoop.run_of_exit hexit]
  · simp only [if_neg hempty]

/-- The user log and the translator fill in a prototype, in one turn for each key at most,
exactly if the values of its keys are plain. -/
theorem fills_iff (env : Env) (m : MMessage) (prototype : String) (targets : NameList)
    (userlog : UserLog) (beyond : Char) (entry : String → Option String) (evtype : String)
    (translator : Translator) :
    (userlog.logmap (m.getString "class") = some targets →
      userlog.proto (m.getString "class") = some prototype →
      IsPrototype UserLog.isDelim prototype →
      (userlog.Logs env m prototype targets ↔
        PlainValues UserLog.isDelim (fun key => some (UserLog.valueOf (UserLog.recorded env m) key))
          prototype)) ∧
    (entry "type" = some evtype →
      IsPrototype Translator.isDelim (translator.getCategory evtype "proto") →
      (translator.Translates beyond entry evtype ↔
        PlainValues Translator.isDelim (fun key => translator.valueOf beyond entry evtype key)
          (translator.getCategory evtype "proto"))) :=
  ⟨UserLog.logs_iff env, Translator.translates_event_iff beyond⟩

/-- A log of the values of all events. -/
def valueLog : UserLog where
  logmap mtype := if mtype = "event" then some ["all"] else none
  proto mtype := if mtype = "event" then some "value=\"$value\"" else none
  pathname target := "logs/" ++ target ++ "/data"
  source _ := none

def valueEvent (value : String) : MMessage :=
  ((MMessage.mk2 "log" "event").add "class" "event").add "value" value

/-- A log and a translator with several keys, and an event that lacks one of them. -/
def manyProto : String := "<r n=\"$name\" v=\"$value\" w=\"$where\"/>"

def manyLog : UserLog where
  logmap mtype := if mtype = "event" then some ["all", "lamps"] else none
  proto mtype := if mtype = "event" then some manyProto else none
  pathname target := "logs/" ++ target ++ "/data"
  source _ := none

def manyEvent : MMessage :=
  (((MMessage.mk2 "log" "event").add "class" "event").add "name" "lamp").add "value" "ON"

def manyTranslator : Translator where
  ty := "translator"
  attributes := [⟨"event", "proto", "Event: $name is $value."⟩]
  path := none
  pathh := none

def manyEntry (key : String) : Option String :=
  [("type", "event"), ("name", "lamp"), ("value", "true")].lookup key

theorem fills_iff_many :
    (manyLog.Logs firstNight manyEvent manyProto ["all", "lamps"] ↔
      PlainValues UserLog.isDelim
        (fun key => some (UserLog.valueOf (UserLog.recorded firstNight manyEvent) key))
        manyProto) ∧
    (manyTranslator.Translates '_' manyEntry "event" ↔
      PlainValues Translator.isDelim
        (fun key => manyTranslator.valueOf '_' manyEntry "event" key)
        (manyTranslator.getCategory "event" "proto")) :=
  have hfills := fills_iff firstNight manyEvent manyProto
    ["all", "lamps"] manyLog '_' manyEntry "event" manyTranslator
  ⟨hfills.1 (by decide +kernel) (by decide +kernel) (by decide +kernel),
    hfills.2 (by decide +kernel) (by decide +kernel)⟩

/-- A value that is its own key is filled in for ever. -/
theorem not_logs_value :
    IsPrototype UserLog.isDelim "value=\"$value\"" ∧
      (∀ turns, UserLog.fill firstNight turns (valueEvent "$value") "value=\"$value\"" = none) ∧
      ¬valueLog.Logs firstNight (valueEvent "$value") "value=\"$value\"" ["all"] := by
  have hturn : UserLog.turn (UserLog.recorded firstNight (valueEvent "$value"))
      "value=\"$value\"" = .next "value=\"$value\"" := by
    decide +kernel
  have hendless : ∀ turns,
      UserLog.fill firstNight turns (valueEvent "$value") "value=\"$value\"" = none := by
    intro turns
    refine WhileLoop.run_eq_none (I := fun text => text = "value=\"$value\"") ?_ rfl turns
    rintro text rfl
    exact ⟨_, hturn, rfl⟩
  refine ⟨by decide +kernel, hendless, ?_⟩
  rintro ⟨line, -, hfill, -⟩
  rw [hendless] at hfill
  exact absurd hfill (Option.some_ne_none _).symm

end Hat
