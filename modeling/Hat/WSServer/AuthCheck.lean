import Hat.WSServer.AuthManager

/-!
# Checking a password

`execCheck` compares the text before the first dot with the stored passwords, takes the
first user in table order that has the capability, and does not look at the enabling
of users.  The module determines when its answer is right.
-/

namespace Hat.AuthManager

open Hat.Guarded Hat.Guarded.Call

variable (capability sent : String) (manager : AuthManager)

/-- The password that was sent: the text without its trailing extension. -/
def sentPasswd : String := String.ofList (FileManager.beforeLast '.' sent.toList)

/-- The password that is compared: the text before the first dot. -/
def comparedPasswd : String := String.ofList (sent.toList.takeWhile fun c => c ≠ '.')

/-- An enabled user of the table with the password and the capability. -/
def Entitled (name : String) : Prop :=
  ∃ user, manager.users.find? name = some user ∧ user.get "enable_status" = "true" ∧
    user.get "passwd" = sentPasswd sent ∧ user.getField capability = "true"

/-- The check stays within the pieces of the password, names entitled users only, and
does not forbid when there is one. -/
structure ChecksUser : Prop where
  inBounds : ∀ first second,
    (execCheck [first, second, capability, sent]).fault ⟨false, manager⟩ ≠ some .undefined
  names : ∀ name after, getUserOf capability sent ⟨true, manager⟩ = .ok name after →
    name ≠ "" → manager.Entitled capability sent name
  admits : (∃ name, manager.Entitled capability sent name) →
    ∀ after, getUserOf capability sent ⟨true, manager⟩ ≠ .ok "" after

/-- The first user that has the text before the first dot as password and the capability. -/
def firstMatch : Option (String × User) :=
  manager.users.entries.find? fun entry =>
    entry.2.get "passwd" = comparedPasswd sent ∧ entry.2.getField capability = "true"

/-- An empty text is sent to an empty table only, and the first match, if it has a name,
is enabled and has the whole text as password; without a match nobody is entitled. -/
def FirstMatchEntitled : Prop :=
  (sent = "" → manager.users.entries = []) ∧
    match manager.firstMatch capability sent with
    | some (name, user) =>
        if name = "" then ∀ name, ¬manager.Entitled capability sent name
        else user.get "enable_status" = "true" ∧ comparedPasswd sent = sentPasswd sent
    | none => ∀ name, ¬manager.Entitled capability sent name

theorem findUser_eq {passwd : NameList} {first : String} (hfirst : passwd.head? = some first)
    (entries : List (String × User)) (service : Service AuthManager) :
    findUser capability passwd entries service =
      .ok (((entries.find? fun entry =>
        entry.2.get "passwd" = first ∧ entry.2.getField capability = "true").map
          Prod.fst).getD "") service := by
  induction entries with
  | nil => rfl
  | cons entry rest ih =>
      rw [findUser, hfirst]
      simp only [orRaise, pure_bind]
      by_cases hentry : entry.2.get "passwd" = first ∧ entry.2.getField capability = "true"
      · rw [if_pos hentry, List.find?_cons_of_pos (by simpa using hentry)]
        rfl
      · rw [if_neg hentry, List.find?_cons_of_neg (by simpa using hentry), ih]

theorem getUserOf_of_ne_empty (hsent : sent ≠ "") (locked : Bool) :
    getUserOf capability sent ⟨locked, manager⟩ =
      .ok (((manager.firstMatch capability sent).map Prod.fst).getD "") ⟨locked, manager⟩ :=
  findUser_eq capability (NameList.head?_init hsent '.') manager.users.entries _

/-- The pieces of an empty text are read outside their list as soon as there is a user. -/
theorem fault_getUserOf_empty (locked : Bool) :
    (getUserOf capability "").fault ⟨locked, manager⟩ =
      if manager.users.entries = [] then none else some .undefined := by
  have hrun : getUserOf capability "" ⟨locked, manager⟩ =
      findUser capability [] manager.users.entries ⟨locked, manager⟩ := rfl
  rw [fault, hrun]
  cases manager.users.entries with
  | nil => rfl
  | cons entry rest => rfl

theorem getUserOf_of_no_users (hnone : manager.users.entries = []) (locked : Bool) :
    getUserOf capability sent ⟨locked, manager⟩ = .ok "" ⟨locked, manager⟩ := by
  have hrun : getUserOf capability sent ⟨locked, manager⟩ =
      findUser capability (NameList.init [] sent '.') manager.users.entries
        ⟨locked, manager⟩ := rfl
  rw [hrun, hnone]
  rfl

/-- The request ends as the search for the user does. -/
theorem fault_execCheck (first second : String) :
    (execCheck [first, second, capability, sent]).fault ⟨false, manager⟩ =
      (getUserOf capability sent).fault ⟨true, manager⟩ := by
  rw [execCheck, fault_underLock rfl, fault, fault]
  cases hrun : getUserOf capability sent ⟨true, manager⟩ with
  | ok name after => rw [bind_ok hrun]; rfl
  | error raised after => rw [bind_error hrun]

theorem entitled_of_firstMatch {name : String} {user : User}
    (hmatch : manager.firstMatch capability sent = some (name, user)) :
    manager.Entitled capability sent name ↔
      user.get "enable_status" = "true" ∧ comparedPasswd sent = sentPasswd sent := by
  have hfound := List.find?_some hmatch
  simp only [decide_eq_true_eq] at hfound
  obtain ⟨hpasswd, hfield⟩ := hfound
  have hmem := List.mem_of_find?_eq_some hmatch
  rw [SortedMap.mem_entries_iff] at hmem
  constructor
  · rintro ⟨other, hother, henabled, hsentPasswd, _⟩
    obtain rfl : user = other := Option.some.inj (hmem.symm.trans hother)
    exact ⟨henabled, hpasswd.symm.trans hsentPasswd⟩
  · rintro ⟨henabled, hwhole⟩
    exact ⟨user, hmem, henabled, hpasswd.trans hwhole, hfield⟩

theorem not_entitled_of_no_users (hnone : manager.users.entries = []) (name : String) :
    ¬manager.Entitled capability sent name := by
  rintro ⟨user, hfound, _⟩
  rw [← SortedMap.mem_entries_iff, hnone] at hfound
  exact absurd hfound List.not_mem_nil

/-- Of a text that is not empty, only the user that is found matters. -/
theorem checksUser_of_found {name : String}
    (hrun : getUserOf capability sent ⟨true, manager⟩ = .ok name ⟨true, manager⟩) :
    manager.ChecksUser capability sent ↔
      (name ≠ "" → manager.Entitled capability sent name) ∧
        (name = "" → ∀ other, ¬manager.Entitled capability sent other) := by
  constructor
  · intro h
    refine ⟨fun hne => h.names name _ hrun hne, ?_⟩
    rintro rfl other hother
    exact h.admits ⟨other, hother⟩ _ hrun
  · rintro ⟨hnamed, hnobody⟩
    constructor
    · intro first second
      rw [fault_execCheck, fault, hrun]
      exact (Option.some_ne_none _).symm
    · intro found after hfound hne
      rw [hrun] at hfound
      cases hfound
      exact hnamed hne
    · rintro ⟨other, hother⟩ after hfound
      rw [hrun] at hfound
      cases hfound
      exact hnobody rfl other hother

theorem firstMatchEntitled_of_ne_empty (hsent : sent ≠ "") :
    let name := ((manager.firstMatch capability sent).map Prod.fst).getD ""
    manager.FirstMatchEntitled capability sent ↔
      (name ≠ "" → manager.Entitled capability sent name) ∧
        (name = "" → ∀ other, ¬manager.Entitled capability sent other) := by
  rw [FirstMatchEntitled, and_iff_right fun h => absurd h hsent]
  cases hmatch : manager.firstMatch capability sent with
  | none => simp
  | some entry =>
      obtain ⟨name, user⟩ := entry
      have hentitled := entitled_of_firstMatch capability sent manager hmatch
      by_cases hname : name = ""
      · simp [hname]
      · simp [hname, hentitled]

/-- For every table and every request the check is right exactly when the first match
is entitled. -/
theorem checksUser_iff :
    manager.ChecksUser capability sent ↔ manager.FirstMatchEntitled capability sent := by
  by_cases hnone : manager.users.entries = []
  · have hnobody := not_entitled_of_no_users capability sent manager hnone
    have hmatch : manager.firstMatch capability sent = none := by
      rw [firstMatch, hnone]
      rfl
    rw [checksUser_of_found capability sent manager
      (getUserOf_of_no_users capability sent manager hnone true)]
    simp [FirstMatchEntitled, hnone, hmatch, hnobody]
  · by_cases hsent : sent = ""
    · subst hsent
      apply iff_of_false
      · intro h
        have hfault := h.inBounds "" ""
        rw [fault_execCheck, fault_getUserOf_empty, if_neg hnone] at hfault
        exact hfault rfl
      · intro h
        exact hnone (h.1 rfl)
    · rw [checksUser_of_found capability sent manager
        (getUserOf_of_ne_empty capability sent manager hsent true)]
      exact (firstMatchEntitled_of_ne_empty capability sent manager hsent).symm

/-- Bob has been disabled. -/
def disabledBob : AuthManager where
  par := ⟨"authmanager", [], none, none⟩
  userTemplate := User.blank
  users := SortedMap.empty.insert "bob" ⟨"bob", [⟨"username", "generic", "bob"⟩,
    ⟨"passwd", "generic", "1234"⟩, ⟨"enable_status", "generic", "false"⟩,
    ⟨"Alarm_OFF", "generic", "true"⟩], some "bob.xml"⟩
  home := SortedMap.empty
  config := none

/-- Bob's password is accepted although he has been disabled. -/
theorem not_checksUser_disabled : ¬disabledBob.ChecksUser "Alarm_OFF" "1234.json" := by
  intro h
  have hrun := getUserOf_of_ne_empty "Alarm_OFF" "1234.json" disabledBob (by decide) true
  have hname : ((disabledBob.firstMatch "Alarm_OFF" "1234.json").map Prod.fst).getD "" = "bob" := by
    decide +kernel
  rw [hname] at hrun
  obtain ⟨user, hfound, henabled, _⟩ := h.names "bob" _ hrun (by decide)
  have hbob : (disabledBob.users.find? "bob").map (fun user => user.get "enable_status") =
      some "false" := by
    decide +kernel
  rw [hfound, Option.map_some, henabled] at hbob
  exact absurd hbob (by decide)

end Hat.AuthManager
