import Hat.Core.SortedMap
import Hat.Minilibs.Hsrv
import Mathlib.Data.String.Basic

/-!
# Programs

A program tells by calendar day and time of day which alarms and actions are
active.  Program files are modelled by what the XML reader delivers: a missing
attribute reads as `*`.  The home directory holds the program files and the text
files that remember the current, the previous and the swapped-out program.
-/

namespace Hat

open Hat.Hsrv

/-- `getAttrbyName`. -/
def attrOr (attr : Option String) : String := attr.getD "*"

structure PeriodElement where
  fromAttr : Option String
  toAttr : Option String
  alarms : List (Option String)
  deriving DecidableEq

structure DayElement where
  month : Option String
  day : Option String
  weekday : Option String
  periods : List PeriodElement
  deriving DecidableEq

inductive ProgramFile
  /-- The first word of the file does not contain `xml`. -/
  | other
  | unparsable
  | programs (year : Option String) (days : List DayElement)
  deriving DecidableEq

structure HomeDir where
  programs : List (String × ProgramFile)
  currentp : Option String
  swappedout : Option String
  previousp : Option String
  deriving DecidableEq

namespace FileManager

def words (text : String) : List (List Char) :=
  (text.toList.splitOnP isSpace).filter fun word => word ≠ []

/-- The words of a text without the blanks between them.  The loop forgets a word
that ends with the text. -/
def readFile (text : String) : String :=
  let pieces := words text
  let complete := match text.toList.getLast? with
    | some c => isSpace c
    | none => true
  String.ofList ((if complete then pieces else pieces.dropLast).flatten)

/-- The text that `saveFile` writes. -/
def saveFile (content : String) : String := content ++ "\n"

/-- The names in the program directory that are not hidden. -/
def fileList (programs : List (String × ProgramFile)) : List String :=
  (programs.map Prod.fst).filter fun name => name.toList.head? ≠ some '.'

end FileManager

structure Period where
  t0 : String
  t1 : String
  event : List String
  deriving DecidableEq

namespace Period

def new (element : PeriodElement) : Period :=
  ⟨attrOr element.fromAttr, attrOr element.toAttr, element.alarms.map attrOr⟩

/-- Both ends of the period belong to it. -/
def isActive (second : ℤ) (period : Period) : Option (List String) :=
  if string2second period.t0 ≤ second ∧ second ≤ string2second period.t1 ∧
      0 < period.event.length then some period.event
  else none

end Period

abbrev DayProgram := List Period

namespace DayProgram

def new (element : DayElement) : DayProgram := element.periods.map Period.new

/-- The first period that is active. -/
def isActive (second : ℤ) (day : DayProgram) : Option (List String) :=
  day.findSome? (Period.isActive second)

end DayProgram

/-- The days of a program are there only together with its document. -/
structure Program where
  current : String
  doc : Option (SortedMap String DayProgram)
  deriving DecidableEq

namespace Program

def new : Program := ⟨"", none⟩

def dayKey (year : String) (element : DayElement) : String :=
  year ++ "_" ++ attrOr element.month ++ "_" ++ attrOr element.day ++ "_" ++
    attrOr element.weekday

def readDays (year : String) (days : List DayElement) : SortedMap String DayProgram :=
  days.foldl (fun map element => map.insert (dayKey year element) (DayProgram.new element))
    SortedMap.empty

/-- `load` with a name. -/
def load (home : HomeDir) (fname : String) : Program where
  current := fname
  doc := match home.programs.lookup fname with
    | some (.programs year days) => some (readDays (attrOr year) days)
    | some .unparsable => some SortedMap.empty
    | some .other => none
    | none => none

/-- `load` without a name: the first word of the file that names the current one. -/
def loadCurrent (home : HomeDir) : Program :=
  load home (match home.currentp with
    | some text => String.ofList ((FileManager.words text).headD [])
    | none => "OFF")

/-- The keys under which a day is looked for, the most specific first. -/
def mkaccesskey (tm : Tm) : List String :=
  let year := toString tm.year
  let month := toString tm.mon
  let day := toString tm.mday
  let week := toString tm.wday
  [year ++ "_" ++ month ++ "_" ++ day ++ "_" ++ week,
    "*_" ++ month ++ "_" ++ day ++ "_" ++ week,
    "*_*_*_" ++ week,
    "*_" ++ month ++ "_*_*",
    "*_*_*_*"]

def getDay (keys : List String) (program : Program) : Option DayProgram :=
  program.doc.bind fun days => keys.findSome? days.find?

/-- The active list, when there is one. -/
def isActive (env : Env) (program : Program) : Option (List String) :=
  (program.getDay (mkaccesskey env.localtime)).bind
    (DayProgram.isActive (daysecond env.localtime))

/-- The programs that `install` writes: every day from midnight to one minute
before midnight. -/
def installedFile (alarms : List String) : ProgramFile :=
  .programs none [
    { month := none
      day := none
      weekday := none
      periods := [⟨some "00:00:00", some "23:59:00", alarms.map some⟩] }]

def addFile (name : String) (file : ProgramFile) (home : HomeDir) : HomeDir :=
  if (home.programs.lookup name).isSome then home
  else { home with programs := home.programs ++ [(name, file)] }

def install (prg : String) (home : HomeDir) : HomeDir :=
  let home := addFile "OFF" (installedFile []) home
  let home := addFile "MANUAL" (installedFile ["ALL"]) home
  let home := addFile "ON" (installedFile ["ALL"]) home
  let home := addFile "AUTO" (installedFile ["ALL"]) home
  if home.currentp.isSome then home
  else { home with
    currentp := some (FileManager.saveFile (if prg = "" then "OFF" else prg))
    previousp := some (FileManager.saveFile "NULL") }

end Program

end Hat
