import Hat.WSServer.AuthManager

/-!
# Adding a user

`addUser` enters the new user into the table and fills it from the template before it
reads the body of the request.  An exception from the body leaves the table with the
user as it is then.  The module gives what an addition does to the table, and determines
when a failed one leaves the table as it was.
-/

namespace Hat.AuthManager

open Hat.Guarded Hat.Guarded.Call

/-- What a body asks for. -/
structure Addition where
  password : String
  administrationAccess : String
  operations : List (String × String)
  deriving DecidableEq

variable (readJson : String → Option PTree)

/-- What `addUser` reads from the body; `none` where it raises an exception. -/
def addition (body : String) : Option Addition := do
  let pt ← readJson body
  let password ← pt.get "password"
  let access ← pt.get "administration_access"
  let ptu ← pt.getChild "alarm_operations"
  let treeParse ← jParser "name" "selection_status" ptu
  pure ⟨password, access, treeParse⟩

/-- The user as it is entered, with the attributes of the template over those of its file. -/
def prepared (name : String) (manager : AuthManager) : User :=
  manager.userTemplate.attributes.foldl
    (fun user attr => user.addCategory attr.name attr.category attr.value)
    (User.new manager.home manager.config name)

/-- The user with its name, its password and its access. -/
def Addition.introduce (asked : Addition) (name : String) (user : User) : User :=
  ((user.add "username" name).add "passwd" asked.password).add "Administration"
    asked.administrationAccess

/-- The loop over the operations. -/
def setAll (operations : List (String × String)) (user : User) : User :=
  operations.foldl (fun user entry => (user.setField entry.1 entry.2).2) user

/-- The user that an addition leaves in the table. -/
def added (asked : Addition) (name : String) (manager : AuthManager) : User :=
  setAll asked.operations (asked.introduce name (manager.prepared name))

def withUser (name : String) (user : User) (manager : AuthManager) : AuthManager :=
  { manager with users := manager.users.insert name user }

@[simp]
theorem userAt_withUser (name : String) (user : User) (manager : AuthManager) :
    (manager.withUser name user).userAt name = user := by
  rw [userAt, withUser, SortedMap.find?_insert_self, Option.getD_some]

@[simp]
theorem updateUser_withUser (name : String) (f : User → User) (user : User)
    (manager : AuthManager) :
    (manager.withUser name user).updateUser name f = manager.withUser name (f user) := by
  have husers : (manager.users.insert name user).insert name (f user) =
      manager.users.insert name (f user) := by
    apply SortedMap.eq_of_find?
    intro other
    rw [SortedMap.find?_insert, SortedMap.find?_insert, SortedMap.find?_insert]
    split <;> rfl
  rw [updateUser, userAt_withUser]
  simp only [withUser, husers]

theorem setFields_withUser (name : String) (operations : List (String × String)) (user : User)
    (manager : AuthManager) (locked : Bool) :
    setFields name operations ⟨locked, manager.withUser name user⟩ =
      .ok () ⟨locked, manager.withUser name (setAll operations user)⟩ := by
  induction operations generalizing user with
  | nil => rfl
  | cons entry rest ih =>
      have hwrite : write (updateUser name fun user => (user.setField entry.1 entry.2).2)
          ⟨locked, manager.withUser name user⟩ =
            .ok () ⟨locked, manager.withUser name (user.setField entry.1 entry.2).2⟩ := by
        rw [write, updateUser_withUser]
      rw [setFields, bind_ok hwrite, ih]
      rfl

@[simp]
theorem par_saveUser (name : String) (manager : AuthManager) :
    (manager.saveUser name).par = manager.par := by
  rw [saveUser]
  split <;> rfl

variable {readJson}

theorem addUser_of_contains {manager : AuthManager} {name : String}
    (hknown : manager.users.contains name) (body : String) (res : MMessage) :
    addUser readJson name body res ⟨false, manager⟩ =
      .ok (res.add "body" (Hsrv.filterChar (addAnswer manager.par "false" "false" "false")))
        ⟨false, manager⟩ := by
  simp [addUser, underLock, hknown]
  rfl

variable (readJson) in
/-- An addition of a new name: where the body lacks something, the user stays in the
table as it is when the exception is raised. -/
theorem addUser_of_new {manager : AuthManager} {name : String}
    (hnew : manager.users.contains name = false) (body : String) (res : MMessage) :
    match addition readJson body with
    | some asked => ∃ unique, addUser readJson name body res ⟨false, manager⟩ =
        .ok (res.add "body" (Hsrv.filterChar (addAnswer manager.par "true" "true" unique)))
          ⟨false, (manager.withUser name (manager.added asked name)).saveUser name⟩
    | none => ∃ user, addUser readJson name body res ⟨false, manager⟩ =
        .error .thrown ⟨false, manager.withUser name user⟩ := by
  have hentered : { manager with
      users := manager.users.insert name (User.new manager.home manager.config name) } =
        manager.withUser name (User.new manager.home manager.config name) := rfl
  simp only [addition, addUser, underLock, read_bind, hnew, Bool.false_eq_true, if_false,
    write_bind, hentered, updateUser_withUser]
  cases hpt : readJson body with
  | none => exact ⟨_, rfl⟩
  | some pt =>
      simp only [orRaise_some_bind, Option.bind_eq_bind, Option.bind_some]
      cases hpassword : pt.get "password" with
      | none => exact ⟨_, rfl⟩
      | some password =>
          simp only [orRaise_some_bind, write_bind, updateUser_withUser, Option.bind_some]
          cases haccess : pt.get "administration_access" with
          | none => exact ⟨_, rfl⟩
          | some access =>
              simp only [orRaise_some_bind, write_bind, updateUser_withUser, Option.bind_some]
              cases hptu : pt.getChild "alarm_operations" with
              | none => exact ⟨_, rfl⟩
              | some ptu =>
                  simp only [orRaise_some_bind, Option.bind_some]
                  cases hrows : jParser "name" "selection_status" ptu with
                  | none => exact ⟨_, rfl⟩
                  | some rows =>
                      let after := (manager.withUser name
                        (manager.added ⟨password, access, rows⟩ name)).saveUser name
                      refine ⟨if isUniquePasswd name ((after.userAt name).get "passwd") after.users
                        then "true" else "false", ?_⟩
                      rw [orRaise_some_bind, bind_ok (setFields_withUser name rows _ manager true)]
                      simp only [write_bind, read_bind, par_saveUser]
                      rfl

variable (readJson)

/-- An addition that does not complete leaves the table as it was: no user is found that was
not there, and a later addition of the same name with a body that has everything succeeds. -/
def LeavesTable (manager : AuthManager) (name body : String) (res : MMessage) : Prop :=
  ∀ raised after, addUser readJson name body res ⟨false, manager⟩ = .error raised after →
    after.data.users = manager.users ∧
    (∀ capability pwd user checked,
      getUserOf capability pwd ⟨true, after.data⟩ = .ok user checked → user ≠ "" →
        manager.users.contains user) ∧
    ∀ later, (addition readJson later).isSome → ∃ unique final,
      addUser readJson name later res ⟨false, after.data⟩ =
        .ok (res.add "body" (Hsrv.filterChar (addAnswer after.data.par "true" "true" unique))) final

/-- An addition leaves the table as it was when it fails exactly when it does not fail: the
name is taken or the body has everything. -/
theorem leavesTable_iff (manager : AuthManager) (name body : String) (res : MMessage) :
    LeavesTable readJson manager name body res ↔
      manager.users.contains name ∨ (addition readJson body).isSome := by
  constructor
  · intro hleaves
    by_contra hfails
    rw [not_or, Bool.not_eq_true, Bool.not_eq_true, Option.isSome_eq_false_iff,
      Option.isNone_iff_eq_none] at hfails
    obtain ⟨hnew, hnone⟩ := hfails
    have hrun := addUser_of_new readJson hnew body res
    rw [hnone] at hrun
    obtain ⟨user, hraised⟩ := hrun
    have hsame := (hleaves _ _ hraised).1
    have hentered : (manager.withUser name user).users.contains name = true := by
      rw [SortedMap.contains, withUser, SortedMap.find?_insert_self]
      rfl
    rw [hsame, hnew] at hentered
    exact Bool.false_ne_true hentered
  · rintro hcompletes raised after hraised
    exfalso
    by_cases hknown : manager.users.contains name = true
    · rw [addUser_of_contains hknown] at hraised
      cases hraised
    · have hrun := addUser_of_new readJson (Bool.eq_false_iff.mpr hknown) body res
      obtain ⟨asked, hasked⟩ := Option.isSome_iff_exists.mp (hcompletes.resolve_left hknown)
      rw [hasked] at hrun
      obtain ⟨unique, hdone⟩ := hrun
      rw [hdone] at hraised
      cases hraised

/-- No users yet, and a template that allows switching off. -/
def noUsers : AuthManager where
  par := ⟨"authmanager", [], none, none⟩
  userTemplate := ⟨"user", [⟨"Alarm_OFF", "generic", "true"⟩], some "user_template.xml"⟩
  users := SortedMap.empty
  home := SortedMap.empty
  config := none

/-- The body is an empty object: the new user stays, and is found with an empty password. -/
theorem not_leavesTable_emptyBody :
    ¬LeavesTable (fun text => if text = "\x7b\x7d" then some (.node "" []) else none)
      noUsers "bob" "\x7b\x7d" res := by
  intro hleaves
  have hraised : ∃ after, addUser
      (fun text => if text = "\x7b\x7d" then some (.node "" []) else none) "bob" "\x7b\x7d" res
        ⟨false, noUsers⟩ = .error .thrown after ∧
      getUserOf "Alarm_OFF" ".json" ⟨true, after.data⟩ = .ok "bob" ⟨true, after.data⟩ :=
    ⟨_, rfl, rfl⟩
  obtain ⟨after, hraised, hfound⟩ := hraised
  have hknown := (hleaves _ _ hraised).2.1 _ _ _ _ hfound (by decide)
  exact absurd hknown (by decide)

end Hat.AuthManager
