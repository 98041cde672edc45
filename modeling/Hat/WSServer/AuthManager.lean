import Hat.Core.Guarded
import Hat.Core.SortedMap
import Hat.Minilibs.FileManager
import Hat.Minilibs.MMessage
import Hat.Minilibs.MParams
import Hat.WSServer.JParser

/-!
# The users of the service

`AuthManager` keeps the table of users in memory and one file for each user in the
home directory.  Its three handlers take the lock of the table for their whole run.
An index into a table inserts a missing entry, and the first piece of an empty text
is read outside the list of pieces.
-/

namespace Hat

open Hat.Hsrv Hat.Guarded Hat.Guarded.Call

/-- A set of attributes with the name of the file it is saved to; there is none for an
entry that an index into the table has made. -/
structure User where
  ty : String
  attributes : List MAttribute
  file : Option String
  deriving DecidableEq

/-- The files of a directory, with the type and the attributes the reader delivers. -/
abbrev UserDir := SortedMap String (String × List MAttribute)

namespace User

def params (user : User) : MParams := ⟨user.ty, user.attributes, none, none⟩

def get (user : User) (name : String) : String := user.params.get name

def set (name value : String) (user : User) : User :=
  { user with attributes := (user.params.set name value).attributes }

def add (name value : String) (user : User) : User :=
  { user with attributes := (user.params.add name value).attributes }

def addCategory (name category value : String) (user : User) : User :=
  { user with attributes := (user.params.addCategory name category value).attributes }

def blank : User := ⟨"nonname", [], none⟩

/-- The user loaded from the file of the name in the home directory, or else from the
one in the configuration directory. -/
def new (home : UserDir) (config : Option UserDir) (name : String) : User :=
  let file := name ++ ".xml"
  let loaded := MParams.load
    ⟨name, [], config.bind fun dir => dir.find? file, home.find? file⟩
  ⟨loaded.ty, loaded.attributes, some file⟩

def getField (field : String) (user : User) : String :=
  if user.get field ≠ "" then user.get field
  else user.get (user.params.getCategory field "alias")

def setField (field value : String) (user : User) : Bool × User :=
  if value ≠ "true" ∧ value ≠ "false" then (false, user)
  else if user.get field = "" then (true, user.set field value)
  else
    let name := user.params.getCategory field "alias"
    if name ≠ "" then (true, user.set name value) else (false, user)

end User

structure AuthManager where
  par : MParams
  userTemplate : User
  users : SortedMap String User
  /-- The directory `users` in the home directory. -/
  home : UserDir
  /-- The directory `users` in the configuration directory, when there is one. -/
  config : Option UserDir

namespace AuthManager

/-- The entry of the name, after the index operator. -/
def userAt (name : String) (manager : AuthManager) : User :=
  (manager.users.find? name).getD User.blank

/-- The index operator inserts a missing entry. -/
def index (name : String) (manager : AuthManager) : AuthManager :=
  { manager with users := manager.users.insertNew name User.blank }

def updateUser (name : String) (f : User → User) (manager : AuthManager) : AuthManager :=
  { manager with users := manager.users.insert name (f (manager.userAt name)) }

/-- Write the file of a user; an entry without one has nowhere to be written. -/
def saveUser (name : String) (manager : AuthManager) : AuthManager :=
  match (manager.userAt name).file with
  | some file =>
      { manager with
        home := manager.home.insert file
          ((manager.userAt name).ty, (manager.userAt name).attributes) }
  | none => manager

/-- Erasing an entry that is not there is undefined. -/
def deleteUser (name : String) : Call AuthManager Bool :=
  if name = "admin" then pure false
  else do
    let manager ← read
    if manager.users.contains name then do
      write fun manager => { manager with users := manager.users.erase name }
      pure true
    else raise .undefined

/-- The names under which the files of a directory are loaded; hidden files are not. -/
def stems (dir : UserDir) : List String :=
  (dir.keys.filter fun file => file.toList.head? ≠ some '.').map FileManager.getStem

/-- The second loop of `init`, which goes over the names of both directories. -/
def loadConfigured (home : UserDir) (config : Option UserDir) :
    List String → User × SortedMap String User → User × SortedMap String User
  | [], loaded => loaded
  | username :: rest, (template, users) =>
      if username = "user_template" then
        loadConfigured home config rest (User.new home config "user_template", users)
      else
        loadConfigured home config rest
          (template, users.insertNew username (User.new home config username))

/-- The process starts with an empty table and reads both directories. -/
def init (conf : MParams) (home : UserDir) (config : Option UserDir) : AuthManager :=
  let users := (stems home).foldl
    (fun users username => users.insert username (User.new home config username)) SortedMap.empty
  let loaded := match config with
    | some dir => loadConfigured home config (stems home ++ stems dir) (User.blank, users)
    | none => (User.blank, users)
  let manager : AuthManager := ⟨conf.load, loaded.1, loaded.2, home, config⟩
  loaded.2.keys.foldl (fun manager username => manager.saveUser username) manager

def userEntry (entry : String × User) : String :=
  entry.1 ++ "\",\"enable_status\":\"" ++ entry.2.get "enable_status" ++ "\"\x7d"

def usersAnswer (users : SortedMap String User) : String :=
  "\x7b\"response\":\n\t\x7b\"message\":\"ok\"," ++
    (match users.entries with
    | [] => ""
    | first :: rest =>
        "\"users\": [\n\t\t\x7b\"name\":\"" ++ userEntry first ++
          String.join (rest.map fun entry => ",\n\t\t\x7b\"name\":\"" ++ userEntry entry)) ++
    "\n\t\t]\n\t\x7d\n\x7d\n"

def userAnswer (user : User) : String :=
  "\x7b\"response\":\n\t\x7b\"message\":\"ok\"," ++
    "\"password\":\"" ++ user.get "passwd" ++
    "\",\n\t\t\"administration_access\":\"" ++ user.get "Administration" ++
    "\",\n\t\t\"Alarm_operations\": [\n\t\t\t" ++
    "\x7b\"Manual\":\"" ++ user.get "Alarm_manual" ++
    "\"\x7d,\n\t\t\t\x7b\"Auto\":\"" ++ user.get "Alarm_auto" ++
    "\"\x7d,\n\t\t\t\x7b\"Zones\":\"" ++ user.get "Alarm_Zones" ++
    "\"\x7d,\n\t\t\t\x7b\"On/OFF\":\"" ++ user.get "Alarm_OFF" ++
    "\"\x7d\n\t\t\t]\n\t\x7d\n\x7d\n"

def res : MMessage := MMessage.mk2 "*" "*"

/-- The first piece of a text at the dots. -/
def firstPiece (text : String) : Call AuthManager String :=
  orRaise .undefined (NameList.init [] text '.').head?

def execGet (params : List String) : Call AuthManager MMessage :=
  underLock (match params with
  | [_, _, _] => do
      let manager ← read
      pure (res.add "body" (usersAnswer manager.users))
  | [_, _, _, value] => do
      let name ← firstPiece value
      write (index name)
      let manager ← read
      pure (res.add "body" (userAnswer (manager.userAt name)))
  | _ => pure (if params.length < 3 then res.add "body" "Not found" else res))

/-- The loop of `getUserOf` over the table. -/
def findUser (capability : String) (passwd : NameList) :
    List (String × User) → Call AuthManager String
  | [] => pure ""
  | entry :: rest => do
      let first ← orRaise .undefined passwd.head?
      if entry.2.get "passwd" = first ∧ entry.2.getField capability = "true" then pure entry.1
      else findUser capability passwd rest

def getUserOf (capability pwd : String) : Call AuthManager String := do
  let manager ← read
  findUser capability (NameList.init [] pwd '.') manager.users.entries

def execCheck (params : List String) : Call AuthManager MMessage :=
  underLock (match params with
  | [_, _, capability, pwd] => do
      let answer ← getUserOf capability pwd
      let manager ← read
      let body := if answer ≠ "" then
        strReplace (manager.par.get "passwd_check_answer") "$USERNAME" answer else "Forbidden"
      pure (res.add "body" (filterChar body))
  | _ => pure (res.add "body" "Not found"))

def isUniquePasswd (name passwd : String) (users : SortedMap String User) : Bool :=
  users.entries.all fun entry => !(entry.1 ≠ name && entry.2.get "passwd" = passwd)

/-- The three marks of the answer of `addUser`. -/
def addAnswer (par : MParams) (upload univocalName univocalPasswd : String) : String :=
  strReplace (strReplace (strReplace (par.get "add_user_answer") "$UPLOAD" upload)
    "$UNIVOCALNAME" univocalName) "$UNIVOCALPASSWD" univocalPasswd

def setFields (name : String) : List (String × String) → Call AuthManager Unit
  | [] => pure ()
  | (opname, selstatus) :: rest => do
      write (updateUser name fun user => (user.setField opname selstatus).2)
      setFields name rest

variable (readJson : String → Option PTree)

def addUser (name body : String) (res : MMessage) : Call AuthManager MMessage :=
  underLock do
    let manager ← read
    if manager.users.contains name then
      pure (res.add "body" (filterChar (addAnswer manager.par "false" "false" "false")))
    else do
      write fun manager => { manager with
        users := manager.users.insert name (User.new manager.home manager.config name) }
      write (updateUser name fun user => manager.userTemplate.attributes.foldl
        (fun user attr => user.addCategory attr.name attr.category attr.value) user)
      write (updateUser name (User.add "username" name))
      let pt ← orRaise .thrown (readJson body)
      let password ← orRaise .thrown (pt.get "password")
      write (updateUser name (User.add "passwd" password))
      let access ← orRaise .thrown (pt.get "administration_access")
      write (updateUser name (User.add "Administration" access))
      let ptu ← orRaise .thrown (pt.getChild "alarm_operations")
      let treeParse ← orRaise .thrown (jParser "name" "selection_status" ptu)
      setFields name treeParse
      write (saveUser name)
      let manager ← read
      let unique := isUniquePasswd name ((manager.userAt name).get "passwd") manager.users
      pure (res.add "body" (filterChar
        (addAnswer manager.par "true" "true" (if unique then "true" else "false"))))

/-- Every user that is not yet in the list is put there as unlisted. -/
def markUnlisted (users : SortedMap String User) (currentUsers : SortedMap String Bool) :
    SortedMap String Bool :=
  users.entries.foldl (fun marked entry => marked.insertNew (entry.2.get "username") false)
    currentUsers

def deleteUnlisted : List (String × Bool) → Call AuthManager Unit
  | [] => pure ()
  | (name, listed) :: rest =>
      if listed then deleteUnlisted rest
      else do
        let _ ← deleteUser name
        deleteUnlisted rest

/-- The enabling of one listed user, and its file. -/
def enable (name status : String) (manager : AuthManager) : AuthManager :=
  if manager.users.contains name then
    saveUser name (updateUser name (User.set "enable_status" status) manager)
  else manager

/-- The loop over the entries of an upload, with the names it has met. -/
def readUsers : List (String × String) → SortedMap String Bool → Call AuthManager Unit
  | [], _ => pure ()
  | (name, status) :: rest, currentUsers => do
      write (enable name status)
      let manager ← read
      let currentUsers := markUnlisted manager.users (currentUsers.insert name true)
      deleteUnlisted currentUsers.entries
      readUsers rest currentUsers

/-- The entries of an upload. -/
def uploaded (body : String) : Option (List (String × String)) :=
  (readJson body).bind fun pt => (pt.getChild "Users").bind (jParser "name" "enable_status")

def uploadUsers (body : String) (res : MMessage) : Call AuthManager MMessage := do
  let treeParse ← orRaise .thrown (uploaded readJson body)
  readUsers treeParse SortedMap.empty
  let manager ← read
  pure (res.add "body" (filterChar (manager.par.get "wr_users_answer")))

/-- The first half of `execSet`. -/
def execUpload (page body : String) : Call AuthManager MMessage :=
  if page = "Users.json" ∧ body ≠ "" then uploadUsers readJson body res else pure res

/-- The second half of `execSet`; its answer replaces that of the first. -/
def execAdd (params : List String) (body : String) (res : MMessage) : Call AuthManager MMessage :=
  match params with
  | [_, _, "Users", value] => do
      let name ← firstPiece value
      addUser readJson name body res
  | _ => pure (res.add "body" "Not found")

def execSet (params : List String) (body : String) : Call AuthManager MMessage :=
  underLock (match params[2]? with
  | none => pure (res.add "body" "Not found")
  | some page => execUpload readJson page body >>= execAdd readJson params body)

inductive Request
  | set (params : List String) (body : String)
  | get (params : List String)
  | check (params : List String)

def handle : Request → Call AuthManager MMessage
  | .set params body => execSet readJson params body
  | .get params => execGet params
  | .check params => execCheck params

end AuthManager

end Hat
