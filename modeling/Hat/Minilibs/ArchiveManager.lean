import Hat.Core.Pathname
import Hat.Minilibs.AgentInfo
import Hat.Minilibs.FileManager
import Hat.Minilibs.MParams
import Mathlib.Data.List.Infix
import Mathlib.Data.List.Sort
import Mathlib.Data.String.Basic

/-!
# The archive

The archive answers a request with the content of a file whose path is made of the url as it
stands.  The permission is asked for the first two segments of the url only, and a url of one
segment needs none.
-/

namespace Hat

open Hat.Hsrv NameList

/-- What follows the last slash, or everything. -/
def Hsrv.tailof (path : String) : String := String.ofList (FileManager.afterLast '/' path.toList)

structure RootDescriptor where
  temporalWindow : ℤ
  /-- The directory that holds the directory of the root. -/
  home : String
  visibility : List String

/-- An entry of a directory. -/
structure DirEntry where
  name : String
  isDir : Bool
  name_noSlash : '/' ∉ name.toList

/-- The files as a request finds them. -/
structure FileSystem where
  /-- The content of a file that can be opened for reading. -/
  content : String → Option String
  /-- The file can be opened for reading and writing. -/
  isFile : String → Bool
  entries : String → List DirEntry

/-- The names of the visible files of a directory. -/
def FileSystem.fileList (files : FileSystem) (dir : String) : List String :=
  ((files.entries dir).filter fun entry =>
    !entry.isDir && entry.name.toList.head? ≠ some '.').map DirEntry.name

/-- The answer to a request with the files that were opened for it. -/
structure Reply where
  answer : String
  filetype : String
  opened : List String

structure ArchiveManager where
  archiveHome : String
  accessInfo : SortedMap String RootDescriptor

namespace ArchiveManager

/-- One category of roots.  A root without a value keeps the list of the one before it. -/
def initCategory (params : MParams) (home category : String) :
    List MAttribute → NameList × SortedMap String RootDescriptor →
      NameList × SortedMap String RootDescriptor
  | [], state => state
  | root :: rest, (subdir, accessInfo) =>
      let subdir := NameList.init subdir (params.getCategory root.name category) '+'
      initCategory params home category rest (subdir, accessInfo.insertNew root.name
        { temporalWindow := atoi (params.getCategory root.name "history").toList
          home := home
          visibility := if subdir.member "*" then ["*"] else subdir })

def extractCategory (params : MParams) (category : String) : List MAttribute :=
  params.attributes.filter fun attr => attr.category = category

def init (params : MParams) (homedir configdir : String) : ArchiveManager where
  archiveHome := homedir
  accessInfo :=
    let roots := initCategory params homedir "root" (extractCategory params "root")
      ([], SortedMap.empty)
    (initCategory params configdir "conf" (extractCategory params "conf") roots).2

/-- What holds of every descriptor that the loop makes holds of all it leaves. -/
theorem forall_initCategory {params : MParams} {home category : String}
    {P : RootDescriptor → Prop}
    (hnew : ∀ temporalWindow (subdir : NameList),
      P ⟨temporalWindow, home, if subdir.member "*" then ["*"] else subdir⟩)
    (roots : List MAttribute) {state : NameList × SortedMap String RootDescriptor}
    (hstate : ∀ name descriptor, state.2.find? name = some descriptor → P descriptor) :
    ∀ name descriptor,
      (initCategory params home category roots state).2.find? name = some descriptor →
        P descriptor := by
  induction roots generalizing state with
  | nil => exact hstate
  | cons root rest ih =>
      obtain ⟨subdir, accessInfo⟩ := state
      apply ih
      intro name descriptor hfind
      rw [SortedMap.find?_insertNew] at hfind
      split at hfind
      · rw [← Option.some.inj hfind]
        exact hnew _ _
      · exact hstate name descriptor hfind

/-- The roots lie in one of the two homes, and only a star alone stands for all. -/
theorem init_descriptor (params : MParams) (homedir configdir : String) :
    ∀ name descriptor, (init params homedir configdir).accessInfo.find? name = some descriptor →
      (descriptor.home = homedir ∨ descriptor.home = configdir) ∧
        ("*" ∈ descriptor.visibility → descriptor.visibility = ["*"]) := by
  have hvisibility : ∀ subdir : NameList,
      "*" ∈ (if subdir.member "*" then ["*"] else subdir) →
        (if subdir.member "*" then ["*"] else subdir) = ["*"] := by
    intro subdir
    by_cases hstar : subdir.member "*" = true
    · rw [if_pos hstar]
      exact fun _ => rfl
    · rw [if_neg hstar]
      intro hmem
      exact absurd (List.any_eq_true.mpr ⟨"*", hmem, by simp⟩) hstar
  refine forall_initCategory (fun temporalWindow subdir => ⟨.inr rfl, hvisibility subdir⟩) _ ?_
  refine forall_initCategory (fun temporalWindow subdir => ⟨.inl rfl, hvisibility subdir⟩) _ ?_
  intro name descriptor hfind
  exact absurd hfind.symm (Option.some_ne_none descriptor)

inductive Mode
  | read
  | write
  deriving DecidableEq

/-- The front of an empty list is not defined. -/
def fullAccess (descriptor : RootDescriptor) : Option Bool :=
  descriptor.visibility.head?.map fun first => first = "*"

def checkPermission (archive : ArchiveManager) (url : List String) (mode : Mode) : Option Bool :=
  match url with
  | [] => none
  | [_] => some (mode = .read)
  | archiveName :: subdir :: _ =>
      match archive.accessInfo.find? archiveName with
      | none => some false
      | some descriptor =>
          (fullAccess descriptor).map fun full => full || subdir ∈ descriptor.visibility

def getRootPath (archive : ArchiveManager) (uri : String) : Option String :=
  (dropEmptyFront (NameList.init [] uri '/')).bind fun nl => nl.head?.map fun rname =>
    match archive.accessInfo.find? rname with
    | some descriptor => descriptor.home
    | none => archive.archiveHome

/-- The text before the last slash. -/
def dirPath (fullPath : String) : String :=
  String.ofList (FileManager.beforeLast '/' fullPath.toList)

/-- The directory of the url, or why there is none. -/
def getExec (archive : ArchiveManager) (url : String) : Option String :=
  (archive.getRootPath url).bind fun rootPath =>
    let fullPath := rootPath ++ "/" ++ url
    let nl := NameList.init [] url '/'
    let rooted := nl.head? = some "" ∧ nl.length > 1
    let resPath := if rooted then nl.tail else nl
    let archiveName := if rooted then resPath.headD "" else ""
    if resPath.length ≠ 1 ∧ archive.accessInfo.find? archiveName = none then some "Not Found"
    else (archive.checkPermission resPath .read).map fun permission =>
      if permission then dirPath fullPath else "Forbidden"

variable (files : FileSystem) (parse : String → List XmlNode)

def lines (content : String) : List String :=
  (content.toList.splitOn '\n').map String.ofList

def refuse (answer : String) : Reply := ⟨answer, "", []⟩

def isRefusal (resPath : String) : Bool := resPath = "Not Found" || resPath = "Forbidden"

/-- What is done with the content of a file, when it can be opened. -/
def withFile (path : String) (answer : String → Option Reply) : Option Reply :=
  match files.content path with
  | some content => answer content
  | none => some (refuse "Not Found")

def getAll (archive : ArchiveManager) (url : String) : Option Reply :=
  (archive.getExec url).bind fun resPath =>
    let filePath := resPath ++ "/" ++ "data"
    if isRefusal resPath then some (refuse resPath)
    else withFile files filePath fun content =>
      some ⟨String.join ((lines content).map fun line => line ++ "\n"), "", [filePath]⟩

def getFile (archive : ArchiveManager) (url : String) : Option Reply :=
  (archive.getExec url).bind fun resPath =>
    let fullpath := resPath ++ "/" ++ tailof url
    if isRefusal resPath then some (refuse resPath)
    else withFile files fullpath fun content => some ⟨content, "", [fullpath]⟩

/-- A line that describes a video stands for the video, whose file need not exist. -/
def describe (archive : ArchiveManager) (line filePath : String) : Option Reply :=
  match parse ("<?xml version=\"1.0\" ?>" ++ line) with
  | [] => none
  | [_] => some ⟨line, "", [filePath]⟩
  | _ :: desc :: _ =>
      if desc.getAttrbyName "format" = "video" then
        let url := desc.getAttrbyName "url"
        let fullPath := archive.archiveHome ++ url
        match files.content fullPath with
        | some content => some ⟨content, FileManager.getExt url, [filePath, fullPath]⟩
        | none => some ⟨"", FileManager.getExt url, [filePath]⟩
      else some ⟨line, "", [filePath]⟩

def firstLine (content : String) : String := (lines content).headD ""

def getFirst (archive : ArchiveManager) (url : String) : Option Reply :=
  (archive.getExec url).bind fun resPath =>
    let filePath := resPath ++ "/" ++ "data"
    if isRefusal resPath then some (refuse resPath)
    else withFile files filePath fun content =>
      describe files parse archive (firstLine content) filePath

/-- Today's data, or else the first name of the earlier ones. -/
def latestName (dir : String) : Option String :=
  if files.isFile (dir ++ "/" ++ "data") then some "data"
  else (((files.fileList dir).filter fun name =>
    "data.".toList <:+: name.toList).mergeSort fun left right => left ≤ right).head?

def getLatestData (dir : String) : String :=
  match latestName files dir with
  | some name => dir ++ "/" ++ name
  | none => "Not Found"

/-- The last line before the first empty one. -/
def lastLine (content : String) : String :=
  ((lines content).takeWhile fun line => line ≠ "").getLastD ""

def getLast (archive : ArchiveManager) (url : String) : Option Reply :=
  (archive.getExec url).bind fun resDir =>
    let filePath := getLatestData files resDir
    if isRefusal filePath then some (refuse filePath)
    else withFile files filePath fun content =>
      describe files parse archive (lastLine content) filePath

inductive GetMethod
  | getFirst
  | getLast
  | getAll
  | getFile
  deriving DecidableEq

def get (archive : ArchiveManager) (url : String) : GetMethod → Option Reply
  | .getFirst => getFirst files parse archive url
  | .getLast => getLast files parse archive url
  | .getAll => getAll files archive url
  | .getFile => getFile files archive url

end ArchiveManager

end Hat
