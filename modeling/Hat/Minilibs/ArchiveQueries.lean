import Hat.Core.Collect
import Hat.Minilibs.ArchiveManager
import Hat.Minilibs.ArchiveTimes
import Hat.WSServer.JParser

/-!
# Queries over the lines of the archive

A query asks for the lines of a time window.  `getSubSet` looks for them in the directories of
the cameras, where a line is an XML element, and `getSubLog` in the directory of the url, where
it is an object of JSON.  Both take the files of the directory by their names, today's and
those whose day is within the window, and compare the time of each line.  No result stands
for an exception or for an access that is not defined.
-/

namespace Hat

/-- The names of the visible directories within a directory. -/
def FileSystem.dirList (files : FileSystem) (dir : String) : List String :=
  ((files.entries dir).filter fun entry =>
    entry.isDir && entry.name.toList.head? ≠ some '.').map DirEntry.name

namespace ArchiveManager

theorem noSlash_data : '/' ∉ "data".toList := by
  decide

/-- The text has the word somewhere. -/
def contains (text word : String) : Prop := word.toList <:+: text.toList

instance (text word : String) : Decidable (contains text word) :=
  inferInstanceAs (Decidable (word.toList <:+: text.toList))

/-- `substr`, which fails from a place behind the end. -/
def substrAt (text : String) (place count : ℕ) : Option String :=
  if place ≤ text.length then some (String.ofList (substr text.toList place count)) else none

section Requests

variable (read : String → Option PTree)

/-- One end of the window, from a date `DDMMYYYY` and a time `hh:mm`. -/
def rangeText (date time : String) : Option String :=
  (substrAt date 4 4).bind fun y => (substrAt date 2 2).bind fun m =>
    (substrAt date 0 2).bind fun d => (substrAt time 0 2).bind fun h =>
      (substrAt time 3 5).map fun min => y ++ m ++ d ++ h ++ min

def getTimeRangeFromJson (body : String) : Option (String × String) :=
  (read body).bind fun rpt =>
    (if contains body "window" then rpt.getChild "window" else some rpt).bind fun pt =>
      (pt.get "start_date").bind fun startDate => (pt.get "start_time").bind fun startTime =>
        (pt.get "end_date").bind fun endDate => (pt.get "end_time").bind fun endTime =>
          (rangeText startDate startTime).bind fun start =>
            (rangeText endDate endTime).map fun stop => (start, stop)

/-- The names that are selected; without a selection there is none. -/
def getCategoriesJson (body : String) : Option NameList :=
  (read body).bind fun rpt =>
    if contains body "select" then
      (rpt.getChild "select").bind fun pt =>
        (pt.children.mapM fun child : String × PTree => child.2.get "name").map fun names =>
          names.filter fun name => name ≠ ""
    else some []

end Requests

/-- The day in the name of a file is within the window. -/
def evalDescriptor (start stop desc : String) : Option Bool :=
  if '.' ∈ desc.toList then
    let t := String.ofList ((desc.toList.dropWhile fun c => c ≠ '.').drop 1)
    let date := NameList.init [] t '_'
    (date[0]?).bind fun y => (date[1]?).bind fun m => (date[2]?).map fun d =>
      let dday := y ++ m ++ d
      let sday := String.ofList (substr start.toList 0 8)
      let eday := String.ofList (substr stop.toList 0 8)
      decide (sday ≤ dday ∧ dday ≤ eday)
  else some true

variable (files : FileSystem)

/-- The lines of a file, when it can be opened. -/
def scanFile (path : String) (takeLine : String → Option (List String)) : Option (List String) :=
  match files.content path with
  | some content => collect takeLine (lines content)
  | none => some []

/-- The loop over the files of a directory, with the test of their names. -/
def scanDirectory (dir start stop : String) (isData : String → Bool)
    (takeLine : String → Option (List String)) : Option (List String) :=
  collect (fun descriptor =>
    let tail := FileManager.getTail descriptor
    if isData tail then
      (if tail = "data" then some true else evalDescriptor start stop descriptor).bind fun inside =>
        if inside then scanFile files (dir ++ "/" ++ descriptor) takeLine else some []
    else some []) (files.fileList dir)

section Queries

variable (parse : String → List XmlNode) (read : String → Option PTree)

/-- The text before the first dot, which a name without a dot does not have. -/
def subSetPrefix (tail : String) : String :=
  if '.' ∈ tail.toList then String.ofList (tail.toList.takeWhile fun c => c ≠ '.') else ""

def xmlLine (line : String) : String := "<?xml version=\"1.0\" ?>" ++ line

/-- A line without an element is passed over. -/
def takeXmlLine (start stop line : String) : Option (List String) :=
  match parse (xmlLine line) with
  | [] => none
  | [_] => some []
  | _ :: desc :: _ =>
      let timestamp := normalizeDateTime (desc.getAttrbyName "time")
      some (if start ≤ timestamp ∧ timestamp ≤ stop then [line] else [])

/-- The lines of the cameras in the window. -/
def subSetLines (archive : ArchiveManager) (start stop : String) : Option (List String) :=
  let rootPath := archive.archiveHome ++ "/archive/"
  collect (fun camera => scanDirectory files (rootPath ++ camera) start stop
    (fun tail => subSetPrefix tail = "data") (takeXmlLine parse start stop))
    (files.dirList rootPath)

def getSubSet (archive : ArchiveManager) (body : String) : Option String :=
  (getTimeRangeFromJson read body).bind fun range =>
    (subSetLines files parse archive range.1 range.2).map String.join

/-- Short lines are passed over; a line that is no JSON, or has no time or type, is an
exception. -/
def takeLogLine (start stop : String) (category : NameList) (line : String) :
    Option (List String) :=
  if line.utf8ByteSize < 10 then some []
  else
    (read line).bind fun pt => (pt.get "time").bind fun time => (pt.get "type").map fun cat =>
      let timestamp := normalizeDateTime time
      if (timestamp = "" ∨ start < timestamp ∧ timestamp ≤ stop) ∧
          (category = [] ∨ category.member cat) then [line]
      else []

/-- The lines of a directory in the window. -/
def subLogLines (rootPath start stop : String) (category : NameList) : Option (List String) :=
  scanDirectory files rootPath start stop (fun tail => FileManager.getStem tail = "data")
    (takeLogLine read start stop category)

def getSubLog (archive : ArchiveManager) (url body : String) : Option String :=
  (getTimeRangeFromJson read body).bind fun range =>
    (getCategoriesJson read body).bind fun category =>
      (subLogLines files read (archive.archiveHome ++ url) range.1 range.2 category).map
        fun items => "[" ++ ",".intercalate items ++ "]"

end Queries

end ArchiveManager

end Hat
