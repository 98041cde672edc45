import Hat.Core.Disk
import Hat.Minilibs.ArchiveConfined

/-!
# The archive as a store

Configurations and logs are written under the path that their url gives.  A request that is
granted changes the text of one place, one that is refused changes none, and the directories
made on the way hold no text.  What a reader gets is what the granted requests left.
-/

namespace Hat

open Hat.Hsrv

namespace ArchiveManager

/-- Without the empty name in front of a leading slash. -/
def relative (list : NameList) : NameList :=
  if list.head? = some "" ∧ list.length > 1 then list.tail else list

def urlOf (m : MMessage) : String :=
  if m.getString "url" = "" then "/message" else m.getString "url"

/-- A message that leaves its type or subtype to the url. -/
def IsOpen (m : MMessage) : Prop := m.mtype = "*" ∨ m.msubtype = "*"

instance : DecidablePred IsOpen := fun _ => inferInstanceAs (Decidable (_ ∨ _))

/-- The url that `restify` puts into the message. -/
def completeUrl (conf : Bool) (m : MMessage) : String :=
  let url := relative (NameList.init [] (urlOf m) '/')
  let urlstr :=
    if url.head? = some "message" ∧ ¬IsOpen m then urlOf m ++ "/" ++ m.mtype ++ "/" ++ m.msubtype
    else urlOf m
  if url.getLast? ≠ some "data" ∧ !conf then urlstr ++ "/data" else urlstr

/-- The type and the subtype that are open are taken from a url of messages. -/
def completeTypes (m : MMessage) : MMessage :=
  let url := relative (NameList.init [] (urlOf m) '/')
  if url.head? = some "message" ∧ IsOpen m then
    { m with
      mtype := if m.mtype = "*" ∧ 1 < url.length then url.getD 1 "" else m.mtype
      msubtype := if m.msubtype = "*" ∧ 2 < url.length then url.getD 2 "" else m.msubtype }
  else m

def restify (conf : Bool) (m : MMessage) : MMessage :=
  (completeTypes m).add "url" (completeUrl conf m)

/-- The directories on the way are made; when one cannot be, the agent exits. -/
def makeParents (absPath : String) : NameList → Disk → Option Disk
  | [], disk => some disk
  | name :: rest, disk =>
      let absPath := absPath ++ "/" ++ name
      if disk.isDir absPath then makeParents absPath rest disk
      else (disk.makeDir absPath).bind (makeParents absPath rest)

/-- `addResource` without a source. -/
def addResource (archive : ArchiveManager) (resPath : String) (disk : Disk) : Option Disk :=
  if disk.isFile (archive.archiveHome ++ "/" ++ resPath) then some disk
  else (archive.getRootPath resPath).bind fun absPath =>
    makeParents absPath (NameList.init [] resPath '/').dropLast disk

/-- The disk after a request, the answer and what is notified. -/
structure Outcome where
  disk : Disk
  answer : String
  notified : List MMessage

/-- The common body of the three: `opened` writes the text to the path, if it can be opened. -/
def writeResource (conf : Bool) (method : String) (opened : String → String → Disk → Option Disk)
    (granted refused : String → String) (archive : ArchiveManager) (subject : Bool) (m : MMessage)
    (disk : Disk) : Option Outcome :=
  let m := restify conf m
  let url := m.getString "url"
  let m := { m with mtype := "cmd", msubtype := "putConf", fields := m.fields.erase "url" }
  (archive.getRootPath url).bind fun rootPath =>
    let fullPath := rootPath ++ "/" ++ url
    (archive.checkPermission (relative (NameList.init [] url '/')) .write).bind fun permission =>
      if permission && !disk.isDir fullPath then
        (archive.addResource url disk).map fun made =>
          match opened fullPath (m.getString "body" ++ "\n") made with
          | none => ⟨made, "Forbidden", []⟩
          | some written =>
              ⟨written, granted fullPath,
                if subject then [(m.add "method" method).add "url" url] else []⟩
      else some ⟨disk, refused fullPath, []⟩

def uploaded : String := "\x7b\"response\":\x7b\"message\":\"ok\",\"upload\":\"true\"\x7d\x7d"

def notUploaded : String := "\x7b\"response\":\x7b\"message\":\"ok\",\"upload\":\"false\"\x7d\x7d"

def putConf : ArchiveManager → Bool → MMessage → Disk → Option Outcome :=
  writeResource true "PUT" Disk.create
    (fun fullPath => if FileManager.getExt fullPath ≠ "json" then "OK" else uploaded)
    (fun fullPath => if FileManager.getExt fullPath ≠ "json" then "Forbidden" else notUploaded)

def putLog : ArchiveManager → Bool → MMessage → Disk → Option Outcome :=
  writeResource false "PUT" Disk.create (fun _ => "OK") (fun _ => "Forbidden")

/-- The end of a file that is not there is its beginning. -/
def postLog : ArchiveManager → Bool → MMessage → Disk → Option Outcome :=
  writeResource false "POST" Disk.append (fun _ => "OK") (fun _ => "Forbidden")

/-- The file that `deleteResource` removes: outside of the configuration it is that of the data. -/
def removedPath (isConf : Bool) (archive : ArchiveManager) (resPath : String) : String :=
  let fullPath := (archive.getRootPath resPath).getD "" ++ "/" ++ resPath ++
    (if isConf then "" else "/data")
  let resname := if isConf then (NameList.segments resPath).getLastD "" else "data"
  dirPath fullPath ++ (if resname = "" then "" else "/" ++ resname)

/-- `deleteResource`, with the answer of its route. -/
def deleteResource (configdir : String) (archive : ArchiveManager) (resPath : String)
    (disk : Disk) : Option Outcome :=
  (archive.getRootPath resPath).bind fun absPath =>
    let nlist := NameList.segments resPath
    nlist.head?.bind fun root =>
      match archive.accessInfo.find? root with
      | none => some ⟨disk, "Forbidden", []⟩
      | some descriptor =>
          let isConf := decide (descriptor.home = configdir)
          let fullPath := absPath ++ "/" ++ resPath ++ (if isConf then "" else "/data")
          let nlist := if isConf then nlist else nlist ++ ["data"]
          if !disk.isFile fullPath && resPath ≠ "" then some ⟨disk, "Forbidden", []⟩
          else (archive.checkPermission nlist .write).map fun permission =>
            if !permission then ⟨disk, "Forbidden", []⟩
            else
              match disk.deleteFile (archive.removedPath isConf resPath) with
              | some deleted => ⟨deleted, "OK", []⟩
              | none => ⟨disk, "Forbidden", []⟩

/-- What the routes ask the archive to do. -/
inductive Request
  | putConf (url body : String)
  | putLog (url body : String)
  | postLog (url body : String)
  | deleteRes (url : String)
  deriving DecidableEq

def httprequest (url body : String) : MMessage :=
  ((MMessage.mk2 "httprequest" "*").add "url" url).add "body" body

def perform (configdir : String) (archive : ArchiveManager) (subject : Bool) :
    Request → Disk → Option Outcome
  | .putConf url body => archive.putConf subject (httprequest url body)
  | .putLog url body => archive.putLog subject (httprequest url body)
  | .postLog url body => archive.postLog subject (httprequest url body)
  | .deleteRes url => archive.deleteResource configdir url

/-- The requests of a run, each with its answer. -/
def performAll (configdir : String) (archive : ArchiveManager) (subject : Bool) :
    List Request → Disk → Option (Disk × List (Request × String))
  | [], disk => some (disk, [])
  | request :: rest, disk =>
      (archive.perform configdir subject request disk).bind fun outcome =>
        (archive.performAll configdir subject rest outcome.disk).map fun later =>
          (later.1, (request, outcome.answer) :: later.2)

/-- The texts by their places. -/
abbrev Store := List String → Option String

/-- The url under which a request is stored. -/
def storedUrl (conf : Bool) (url : String) : String :=
  completeUrl conf (httprequest url "")

def resourcePath (archive : ArchiveManager) (url : String) : String :=
  (archive.getRootPath url).getD "" ++ "/" ++ url

/-- The root of the url belongs to the configuration. -/
def isConf (configdir : String) (archive : ArchiveManager) (url : String) : Bool :=
  ((NameList.segments url).head?.bind archive.accessInfo.find?).any (·.home = configdir)

/-- The place that a request is about. -/
def placeOf (cwd : List String) (configdir : String) (archive : ArchiveManager) :
    Request → List String
  | .putConf url _ => Pathname.resolve cwd (archive.resourcePath (storedUrl true url))
  | .putLog url _ | .postLog url _ => Pathname.resolve cwd (archive.resourcePath (storedUrl false url))
  | .deleteRes url =>
      Pathname.resolve cwd (archive.removedPath (archive.isConf configdir url) url)

/-- What a granted request leaves at its place. -/
def Request.textAfter (old : Option String) : Request → Option String
  | .putConf _ body | .putLog _ body => some (body ++ "\n")
  | .postLog _ body => some (old.getD "" ++ (body ++ "\n"))
  | .deleteRes _ => none

def Grants (answer : String) : Prop := answer = "OK" ∨ answer = uploaded

instance : DecidablePred Grants := fun _ => inferInstanceAs (Decidable (_ ∨ _))

/-- The store after the granted requests of a run. -/
def replay (cwd : List String) (configdir : String) (archive : ArchiveManager) (store : Store)
    (answered : List (Request × String)) : Store :=
  answered.foldl (fun store request =>
    if Grants request.2 then
      let place := archive.placeOf cwd configdir request.1
      Function.update store place (request.1.textAfter (store place))
    else store) store

variable {archive : ArchiveManager} {disk made : Disk}

theorem makeParents_spec (names : NameList) {absPath : String}
    (hmade : makeParents absPath names disk = some made) (hrooted : disk.Rooted) :
    made.Rooted ∧ disk.DirsIn made ∧ made.textAt = disk.textAt := by
  induction names generalizing absPath disk with
  | nil =>
      rw [← Option.some.inj hmade]
      exact ⟨hrooted, Disk.DirsIn.refl disk, rfl⟩
  | cons name rest ih =>
      rw [makeParents] at hmade
      split at hmade
      · exact ih hmade hrooted
      · obtain ⟨next, hnext, hrest⟩ := Option.bind_eq_some_iff.mp hmade
        obtain ⟨hdirs, htext⟩ := Disk.textAt_makeDir hnext
        obtain ⟨hmadeRooted, hmadeDirs, hmadeText⟩ := ih hrest (hrooted.makeDir hnext)
        exact ⟨hmadeRooted, hdirs.trans hmadeDirs, hmadeText.trans htext⟩

theorem addResource_spec {resPath : String} (hmade : archive.addResource resPath disk = some made)
    (hrooted : disk.Rooted) : made.Rooted ∧ disk.DirsIn made ∧ made.textAt = disk.textAt := by
  rw [addResource] at hmade
  split at hmade
  · rw [← Option.some.inj hmade]
    exact ⟨hrooted, Disk.DirsIn.refl disk, rfl⟩
  · obtain ⟨absPath, -, hparents⟩ := Option.bind_eq_some_iff.mp hmade
    exact makeParents_spec _ hparents hrooted

/-- A request changes what is at its place if it is granted, and nothing otherwise. -/
structure Performs (place : List String) (after : Option String → Option String) (disk : Disk)
    (outcome : Outcome) : Prop where
  rooted : outcome.disk.Rooted
  dirsIn : disk.DirsIn outcome.disk
  textAt : outcome.disk.textAt =
    if Grants outcome.answer then Function.update disk.textAt place (after (disk.textAt place))
    else disk.textAt

theorem not_grants_forbidden : ¬Grants "Forbidden" := by decide

/-- A refused request leaves the disk as it is, but for directories. -/
theorem performs_of_refused {place : List String} {after : Option String → Option String}
    {outcome : Outcome} (hrefused : ¬Grants outcome.answer)
    (hdisk : outcome.disk.Rooted ∧ disk.DirsIn outcome.disk ∧ outcome.disk.textAt = disk.textAt) :
    Performs place after disk outcome :=
  ⟨hdisk.1, hdisk.2.1, hdisk.2.2.trans (if_neg hrefused).symm⟩

/-- What opening for writing does with the text that is there. -/
def Opens (opened : String → String → Disk → Option Disk) (after : String → Option String →
    Option String) : Prop :=
  ∀ (disk other : Disk) (path text : String), opened path text disk = some other → disk.Rooted →
    other.Rooted ∧ disk.Writes other (Pathname.resolve disk.cwd path)
      (after text (disk.textAt (Pathname.resolve disk.cwd path)))

theorem opens_create : Opens Disk.create fun text _ => some text :=
  fun _ _ _ _ hopened hrooted => ⟨hrooted.create hopened, Disk.writes_create hopened⟩

theorem opens_append : Opens Disk.append fun text old => some (old.getD "" ++ text) :=
  fun _ _ _ _ hopened hrooted => ⟨hrooted.append hopened, Disk.writes_append hopened⟩

theorem getString_httprequest (url body : String) :
    (httprequest url body).getString "url" = url ∧
      (httprequest url body).getString "body" = body := by
  constructor
  · rw [httprequest, MMessage.getString_add_of_ne _ _ (by decide)]
    exact MMessage.getString_add_self "url" url _ fun _ hfield => Option.some_ne_none _ hfield.symm
  · apply MMessage.getString_add_self "body" body
    intro items hfield
    rw [MMessage.find?_add_of_ne _ _ (by decide)] at hfield
    exact Option.some_ne_none _ hfield.symm

theorem find?_completeTypes (field : String) (m : MMessage) :
    (completeTypes m).fields.find? field = m.fields.find? field := by
  rw [completeTypes]
  split <;> rfl

theorem completeUrl_httprequest (conf : Bool) (url body : String) :
    completeUrl conf (httprequest url body) = storedUrl conf url := by
  have hurl : ∀ body, urlOf (httprequest url body) = urlOf (httprequest url "") := by
    intro body
    rw [urlOf, urlOf, (getString_httprequest url body).1, (getString_httprequest url "").1]
  rw [storedUrl, completeUrl, completeUrl, hurl body]
  rfl

theorem getString_restify (conf : Bool) (url body : String) :
    (restify conf (httprequest url body)).getString "url" = storedUrl conf url := by
  rw [restify, completeUrl_httprequest]
  apply MMessage.getString_add_self "url"
  intro items hfield
  rw [find?_completeTypes, httprequest, MMessage.find?_add_of_ne _ _ (by decide)] at hfield
  exact absurd hfield (by rw [MMessage.find?_add, if_pos rfl]; exact fun h => nomatch h)

/-- The body is the one of the request. -/
theorem getString_body (conf : Bool) (url body : String) :
    ({ restify conf (httprequest url body) with
        mtype := "cmd"
        msubtype := "putConf"
        fields := (restify conf (httprequest url body)).fields.erase "url" } :
      MMessage).getString "body" = body := by
  have hbody := (getString_httprequest url body).2
  rw [MMessage.getString, SortedMap.find?_erase, if_neg (by decide), restify,
    MMessage.find?_add_of_ne _ _ (by decide), find?_completeTypes]
  exact hbody

theorem performs_writeResource {conf : Bool} {method : String}
    {opened : String → String → Disk → Option Disk} {granted refused : String → String}
    {after : String → Option String → Option String} (hopens : Opens opened after)
    (hgranted : ∀ path, Grants (granted path)) (hrefused : ∀ path, ¬Grants (refused path))
    {subject : Bool} {url body : String} {outcome : Outcome} (hrooted : disk.Rooted)
    (houtcome : writeResource conf method opened granted refused archive subject
      (httprequest url body) disk = some outcome) :
    Performs (Pathname.resolve disk.cwd (archive.resourcePath (storedUrl conf url)))
      (after (body ++ "\n")) disk outcome := by
  simp only [writeResource, getString_restify, getString_body] at houtcome
  obtain ⟨rootPath, hroot, hrest⟩ := Option.bind_eq_some_iff.mp houtcome
  obtain ⟨permission, -, hserved⟩ := Option.bind_eq_some_iff.mp hrest
  have hpath : rootPath ++ "/" ++ storedUrl conf url = archive.resourcePath (storedUrl conf url) := by
    rw [resourcePath, hroot, Option.getD_some]
  rw [hpath] at hserved
  split at hserved
  · obtain ⟨made, hmade, heq⟩ := Option.map_eq_some_iff.mp hserved
    obtain ⟨hmadeRooted, hmadeDirs, hmadeText⟩ := addResource_spec hmade hrooted
    split at heq
    · rw [← heq]
      exact performs_of_refused not_grants_forbidden ⟨hmadeRooted, hmadeDirs, hmadeText⟩
    · rename_i written hwritten
      obtain ⟨hwrittenRooted, hwrites⟩ := hopens _ _ _ _ hwritten hmadeRooted
      rw [← heq]
      refine ⟨hwrittenRooted, hmadeDirs.trans hwrites.dirsIn, ?_⟩
      rw [if_pos (hgranted _)]
      have htext := hwrites.textAt
      rw [hmadeDirs.1, hmadeText] at htext
      exact htext
  · rw [← Option.some.inj hserved]
    exact performs_of_refused (hrefused _) ⟨hrooted, Disk.DirsIn.refl disk, rfl⟩

theorem performs_deleteResource {configdir url : String} {outcome : Outcome}
    (hrooted : disk.Rooted)
    (houtcome : archive.deleteResource configdir url disk = some outcome) :
    Performs (Pathname.resolve disk.cwd (archive.removedPath (archive.isConf configdir url) url))
      (fun _ => none) disk outcome := by
  have hsame : disk.Rooted ∧ disk.DirsIn disk ∧ disk.textAt = disk.textAt :=
    ⟨hrooted, Disk.DirsIn.refl disk, rfl⟩
  simp only [deleteResource] at houtcome
  obtain ⟨absPath, -, hhead⟩ := Option.bind_eq_some_iff.mp houtcome
  obtain ⟨root, hroot, hserved⟩ := Option.bind_eq_some_iff.mp hhead
  split at hserved
  · rw [← Option.some.inj hserved]
    exact performs_of_refused not_grants_forbidden hsame
  · rename_i descriptor hfind
    have hconf : archive.isConf configdir url = decide (descriptor.home = configdir) := by
      rw [isConf, hroot, Option.bind_some, hfind, Option.any_some]
    rw [← hconf] at hserved
    generalize (!disk.isFile _ && decide (url ≠ "")) = missing at hserved
    generalize archive.checkPermission _ _ = allowed at hserved
    split at hserved
    · rw [← Option.some.inj hserved]
      exact performs_of_refused not_grants_forbidden hsame
    · obtain ⟨permission, -, heq⟩ := Option.map_eq_some_iff.mp hserved
      split at heq
      · rw [← heq]
        exact performs_of_refused not_grants_forbidden hsame
      · split at heq
        · rename_i deleted hdeleted
          have hwrites := Disk.writes_deleteFile hdeleted
          rw [← heq]
          refine ⟨hrooted.deleteFile hdeleted, hwrites.dirsIn, ?_⟩
          rw [if_pos (show Grants "OK" from Or.inl rfl)]
          exact hwrites.textAt
        · rw [← heq]
          exact performs_of_refused not_grants_forbidden hsame

/-- Every request changes its own place if it is granted, and no text otherwise. -/
theorem performs_perform {configdir : String} {subject : Bool} {request : Request} {outcome : Outcome}
    (hrooted : disk.Rooted)
    (houtcome : archive.perform configdir subject request disk = some outcome) :
    Performs (archive.placeOf disk.cwd configdir request) request.textAfter disk outcome := by
  cases request with
  | putConf url body =>
      rw [perform, putConf] at houtcome
      have hgranted : ∀ path,
          Grants (if FileManager.getExt path ≠ "json" then "OK" else uploaded) := by
        intro path
        split
        · exact Or.inl rfl
        · exact Or.inr rfl
      have hrefused : ∀ path,
          ¬Grants (if FileManager.getExt path ≠ "json" then "Forbidden" else notUploaded) := by
        intro path
        split <;> decide
      exact performs_writeResource opens_create hgranted hrefused hrooted houtcome
  | putLog url body =>
      rw [perform, putLog] at houtcome
      exact performs_writeResource opens_create (fun _ => Or.inl rfl)
        (fun _ => not_grants_forbidden) hrooted houtcome
  | postLog url body =>
      rw [perform, postLog] at houtcome
      exact performs_writeResource opens_append (fun _ => Or.inl rfl)
        (fun _ => not_grants_forbidden) hrooted houtcome
  | deleteRes url =>
      rw [perform] at houtcome
      exact performs_deleteResource hrooted houtcome

/-! ## Whole runs -/

/-- A run leaves the texts that its granted requests give, whatever else it is asked. -/
theorem performAll_spec {configdir : String} {subject : Bool} {requests : List Request}
    {final : Disk} {answered : List (Request × String)} (hrooted : disk.Rooted)
    (hserved : archive.performAll configdir subject requests disk = some (final, answered)) :
    final.Rooted ∧ final.cwd = disk.cwd ∧
      final.textAt = replay disk.cwd configdir archive disk.textAt answered := by
  induction requests generalizing disk answered with
  | nil =>
      obtain ⟨hfinal, hanswered⟩ := Prod.mk.inj (Option.some.inj hserved)
      rw [← hfinal, ← hanswered]
      exact ⟨hrooted, rfl, rfl⟩
  | cons request rest ih =>
      obtain ⟨outcome, houtcome, hlater⟩ := Option.bind_eq_some_iff.mp hserved
      obtain ⟨later, hrest, heq⟩ := Option.map_eq_some_iff.mp hlater
      obtain ⟨hfinal, hanswered⟩ := Prod.mk.inj heq
      have hperforms := performs_perform hrooted houtcome
      have hlast : archive.performAll configdir subject rest outcome.disk = some (final, later.2) := by
        rw [hrest, ← hfinal]
      obtain ⟨hlaterRooted, hcwd, htext⟩ := ih hperforms.rooted hlast
      rw [← hanswered]
      refine ⟨hlaterRooted, hcwd.trans hperforms.dirsIn.1, ?_⟩
      rw [htext, hperforms.dirsIn.1, hperforms.textAt]
      rfl

/-- The files of a disk as a request finds them. -/
def files (disk : Disk) (entries : String → List DirEntry) : FileSystem where
  content := disk.read
  isFile := disk.isFile
  entries := entries

theorem flatten_map_append_singleton {α : Type*} (separator : α) {pieces : List (List α)}
    (hpieces : pieces ≠ []) :
    (pieces.map fun piece => piece ++ [separator]).flatten =
      [separator].intercalate pieces ++ [separator] := by
  induction pieces with
  | nil => exact absurd rfl hpieces
  | cons piece rest ih =>
      by_cases hrest : rest = []
      · simp [hrest]
      · rw [List.map_cons, List.flatten_cons, ih hrest, List.intercalate_cons_of_ne_nil hrest]
        simp

/-- Every line of a text gets its end, the last one too. -/
theorem join_lines (content : String) :
    String.join ((lines content).map fun line => line ++ "\n") = content ++ "\n" := by
  apply String.toList_inj.mp
  rw [String.toList_join, List.flatMap_map, lines, List.flatMap_map, String.toList_append]
  calc (content.toList.splitOn '\n').flatMap (fun piece => (String.ofList piece ++ "\n").toList)
      = ((content.toList.splitOn '\n').map fun piece => piece ++ ['\n']).flatten := by
        simp [List.flatMap]
    _ = content.toList ++ ['\n'] := by
        rw [flatten_map_append_singleton '\n' (List.splitOn_ne_nil '\n' _),
          List.intercalate_splitOn]

/-- A file is looked for in a directory that is granted. -/
theorem withFile_files {entries : String → List DirEntry} {directory name : String}
    (hrooted : disk.Rooted) (hup : ".." ∉ Pathname.split directory) (hslash : '/' ∉ name.toList)
    (hname : Pathname.Proper name ∧ name ≠ "..") (answer : String → Option Reply) :
    withFile (files disk entries) (directory ++ "/" ++ name) answer =
      match disk.textAt (Pathname.resolve disk.cwd (directory ++ "/" ++ name)) with
      | some text => answer text
      | none => some (refuse "Not Found") := by
  rw [withFile, ← hrooted.read_eq hup hslash hname]
  rfl

/-- An archive with one root that all may read and write. -/
def journal : ArchiveManager where
  archiveHome := "/hat"
  accessInfo := SortedMap.empty.insert "event" ⟨30, "/hat", ["*"]⟩

def emptyHome : Disk where
  cwd := []
  node place := if place = ["hat"] then some .dir else none

theorem emptyHome_rooted : emptyHome.Rooted := by
  intro place name hsome
  have hplace : place ++ [name] = [] ++ ["hat"] := by
    by_contra hne
    rw [Disk.lookup, if_neg (by simp)] at hsome
    exact hsome (if_neg hne)
  exact if_pos (List.append_inj' hplace rfl).1

def lampRequests : List Request :=
  [.postLog "/event/lamp_state/" "on", .putLog "/event/lamp_state/" "off",
    .postLog "/event/lamp_state/" "on", .deleteRes "/event/door_state"]

end ArchiveManager

end Hat
