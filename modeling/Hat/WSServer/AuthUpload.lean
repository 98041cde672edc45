import Hat.WSServer.AuthManager

/-!
# Uploading the list of users

`execSet` deletes the unlisted users after every entry of the list, so at the first
entry a user that is listed later counts as unlisted, and a name that has been deleted
once is deleted again at the next entry.  The module follows the table through the
loop and determines the uploads that leave it as it should be.
-/

namespace Hat.AuthManager

open Hat.Guarded Hat.Guarded.Call

/-- The keys of the table are the user names. -/
def Named (manager : AuthManager) : Prop :=
  ∀ name user, manager.users.find? name = some user → user.get "username" = name

def isListed (entries : List (String × String)) (name : String) : Prop :=
  name ∈ entries.map Prod.fst

/-- The status in the last entry of the name. -/
def lastStatus (entries : List (String × String)) (name : String) : Option String :=
  ((entries.filter fun entry => entry.1 = name).map Prod.snd).getLast?

@[simp]
theorem users_saveUser (name : String) (manager : AuthManager) :
    (manager.saveUser name).users = manager.users := by
  unfold saveUser
  split <;> rfl

theorem find?_enable (name status other : String) (manager : AuthManager) :
    (manager.enable name status).users.find? other =
      if name = other then (manager.users.find? other).map (User.set "enable_status" status)
      else manager.users.find? other := by
  unfold enable
  by_cases hname : name = other
  · subst hname
    rw [if_pos rfl]
    split
    · rename_i hcontains
      obtain ⟨user, huser⟩ := SortedMap.contains_iff.mp hcontains
      rw [users_saveUser, updateUser, SortedMap.find?_insert_self, userAt, huser]
      rfl
    · rename_i hcontains
      have hnone : manager.users.find? name = none := by
        simpa [SortedMap.contains] using hcontains
      rw [hnone, Option.map_none]
  · rw [if_neg hname]
    split
    · rw [users_saveUser, updateUser, SortedMap.find?_insert_of_ne _ _ hname]
    · rfl

theorem contains_enable (name status other : String) (manager : AuthManager) :
    (manager.enable name status).users.contains other = manager.users.contains other := by
  rw [SortedMap.contains, find?_enable]
  split
  · rw [Option.isSome_map]
    rfl
  · rfl

theorem Named.enable {manager : AuthManager} (h : manager.Named) (name status : String) :
    (manager.enable name status).Named := by
  intro other user huser
  rw [find?_enable] at huser
  split at huser
  · obtain ⟨before, hbefore, rfl⟩ := Option.map_eq_some_iff.mp huser
    have hname := MParams.get_set_of_ne before.params status
      (show "enable_status" ≠ "username" by decide)
    exact hname.trans (h other before hbefore)
  · exact h other user huser

/-- The table after the statuses of all entries have been set. -/
def enableAll (entries : List (String × String)) (manager : AuthManager) : AuthManager :=
  entries.foldl (fun manager entry => manager.enable entry.1 entry.2) manager

theorem contains_enableAll (entries : List (String × String)) (manager : AuthManager)
    (name : String) : (manager.enableAll entries).users.contains name =
      manager.users.contains name := by
  induction entries generalizing manager with
  | nil => rfl
  | cons entry rest ih => exact (ih _).trans (contains_enable entry.1 entry.2 name manager)

theorem find?_enableAll (entries : List (String × String)) (manager : AuthManager)
    (name : String) : (manager.enableAll entries).users.find? name =
      (manager.users.find? name).map fun user =>
        ((entries.filter fun entry => entry.1 = name).map Prod.snd).foldl
          (fun user status => User.set "enable_status" status user) user := by
  induction entries generalizing manager with
  | nil => simp [enableAll]
  | cons entry rest ih =>
      have hstep := ih (manager.enable entry.1 entry.2)
      rw [find?_enable] at hstep
      by_cases hentry : entry.1 = name
      · rw [if_pos hentry, Option.map_map] at hstep
        rw [List.filter_cons_of_pos (by simpa using hentry)]
        exact hstep
      · rw [if_neg hentry] at hstep
        rw [List.filter_cons_of_neg (by simpa using hentry)]
        exact hstep

/-- Setting a status several times leaves the last one, if the user takes it. -/
theorem get_foldl_set_iff (statuses : List String) {status : String}
    (hlast : statuses.getLast? = some status) (user : User) :
    (statuses.foldl (fun user status => User.set "enable_status" status user) user).get
        "enable_status" = status ↔
      MParams.Takes "enable_status" status user.attributes := by
  induction statuses generalizing user with
  | nil => exact absurd hlast.symm (Option.some_ne_none status)
  | cons first rest ih =>
      rw [List.foldl_cons]
      cases rest with
      | nil =>
          obtain rfl : first = status := Option.some.inj hlast
          exact MParams.get_set_iff user.params "enable_status" first
      | cons second tail =>
          rw [ih (by simpa using hlast)]
          exact MParams.takes_set user.params "enable_status" status first

theorem find?_foldl_insertNew (names : List String) (marks : SortedMap String Bool)
    (name : String) :
    (names.foldl (fun marks name => marks.insertNew name false) marks).find? name =
      (marks.find? name).or (if name ∈ names then some false else none) := by
  induction names generalizing marks with
  | nil => simp
  | cons first rest ih =>
      rw [List.foldl_cons, ih, SortedMap.find?_insertNew]
      by_cases hfirst : first = name
      · subst hfirst
        cases hmark : marks.find? first with
        | none => simp [SortedMap.contains, hmark]
        | some mark => simp [SortedMap.contains, hmark]
      · have hmem : name ∈ first :: rest ↔ name ∈ rest := by
          rw [List.mem_cons, or_iff_right fun h => hfirst h.symm]
        simp only [hfirst, false_and, if_false, hmem]

theorem find?_markUnlisted {manager : AuthManager} (h : manager.Named)
    (marks : SortedMap String Bool) (name : String) :
    (markUnlisted manager.users marks).find? name =
      (marks.find? name).or (if manager.users.contains name then some false else none) := by
  have hnames : manager.users.entries.map (fun entry => entry.2.get "username") =
      manager.users.keys := by
    apply List.map_congr_left
    intro entry hentry
    exact h entry.1 entry.2 ((SortedMap.mem_entries_iff _ _ _).mp hentry)
  have hmarked : markUnlisted manager.users marks =
      manager.users.keys.foldl (fun marks name => marks.insertNew name false) marks := by
    rw [← hnames, List.foldl_map]
    rfl
  rw [hmarked, find?_foldl_insertNew]
  simp only [SortedMap.mem_keys_iff_contains]

/-- The table without the unlisted names. -/
def dropUnlisted : List (String × Bool) → SortedMap String User → SortedMap String User
  | [], users => users
  | (name, listed) :: rest, users =>
      dropUnlisted rest (if listed = true ∨ name = "admin" then users else users.erase name)

theorem find?_dropUnlisted (marks : List (String × Bool)) (users : SortedMap String User)
    (name : String) : (dropUnlisted marks users).find? name =
      if (name, false) ∈ marks ∧ name ≠ "admin" then none else users.find? name := by
  induction marks generalizing users with
  | nil => rfl
  | cons mark rest ih =>
      obtain ⟨first, listed⟩ := mark
      rw [dropUnlisted, ih]
      by_cases hrest : (name, false) ∈ rest ∧ name ≠ "admin"
      · rw [if_pos hrest, if_pos ⟨List.mem_cons_of_mem _ hrest.1, hrest.2⟩]
      · rw [if_neg hrest]
        by_cases hkept : listed = true ∨ first = "admin"
        · rw [if_pos hkept, if_neg]
          rintro ⟨hmem, hadmin⟩
          rcases List.mem_cons.mp hmem with heq | hmem
          · obtain ⟨rfl, rfl⟩ := Prod.mk.inj heq
            exact hkept.elim Bool.false_ne_true hadmin
          · exact hrest ⟨hmem, hadmin⟩
        · rw [if_neg hkept, SortedMap.find?_erase]
          have hfirst : listed = false ∧ first ≠ "admin" := by simpa using hkept
          by_cases hname : first = name
          · subst hname
            rw [if_pos rfl, if_pos ⟨by rw [hfirst.1]; exact List.mem_cons_self, hfirst.2⟩]
          · have hmem : (name, false) ∈ (first, listed) :: rest ↔ (name, false) ∈ rest := by
              rw [List.mem_cons, or_iff_right fun h => hname (congrArg Prod.fst h).symm]
            rw [if_neg hname, if_neg fun h => hrest ⟨hmem.mp h.1, h.2⟩]

theorem deleteUnlisted_cons (name : String) (listed : Bool) (rest : List (String × Bool)) :
    deleteUnlisted ((name, listed) :: rest) =
      if listed then deleteUnlisted rest
      else deleteUser name >>= fun _ => deleteUnlisted rest := rfl

theorem deleteUser_admin (service : Service AuthManager) :
    deleteUser "admin" service = .ok false service := rfl

theorem deleteUser_of_contains {name : String} (hadmin : name ≠ "admin")
    {service : Service AuthManager} (h : service.data.users.contains name = true) :
    deleteUser name service = .ok true
      { service with data := { service.data with users := service.data.users.erase name } } := by
  rw [deleteUser, if_neg hadmin, read_bind, if_pos h]
  rfl

theorem deleteUser_of_missing {name : String} (hadmin : name ≠ "admin")
    {service : Service AuthManager} (h : ¬service.data.users.contains name = true) :
    deleteUser name service = .error .undefined service := by
  rw [deleteUser, if_neg hadmin, read_bind, if_neg h]
  rfl

/-- Names that are all in the table are deleted one after the other. -/
theorem deleteUnlisted_of_known {marks : List (String × Bool)} (hnodup : (marks.map Prod.fst).Nodup)
    {service : Service AuthManager} (hknown : ∀ name, (name, false) ∈ marks → name ≠ "admin" →
      service.data.users.contains name = true) :
    deleteUnlisted marks service = .ok ()
      { service with
        data := { service.data with users := dropUnlisted marks service.data.users } } := by
  induction marks generalizing service with
  | nil => rfl
  | cons mark rest ih =>
      obtain ⟨name, listed⟩ := mark
      obtain ⟨hnew, hrest⟩ := List.nodup_cons.mp hnodup
      have hlater : ∀ other, (other, false) ∈ rest → other ≠ "admin" →
          service.data.users.contains other = true :=
        fun other hother => hknown other (List.mem_cons_of_mem _ hother)
      rw [deleteUnlisted_cons, dropUnlisted]
      cases listed with
      | true => exact ih hrest hlater
      | false =>
          rw [if_neg Bool.false_ne_true]
          by_cases hadmin : name = "admin"
          · subst hadmin
            rw [bind_ok (deleteUser_admin service), if_pos (Or.inr rfl)]
            exact ih hrest hlater
          · have hcontains := hknown name List.mem_cons_self hadmin
            rw [bind_ok (deleteUser_of_contains hadmin hcontains),
              if_neg (not_or.mpr ⟨Bool.false_ne_true, hadmin⟩)]
            apply ih hrest
            intro other hother hne
            refine (SortedMap.contains_erase _ _ _).mpr ⟨?_, hlater other hother hne⟩
            rintro rfl
            exact hnew (List.mem_map_of_mem (f := Prod.fst) hother)

/-- A name that is not in the table is looked up in vain. -/
theorem fault_deleteUnlisted_of_missing {marks : List (String × Bool)} {name : String}
    (hmark : (name, false) ∈ marks) (hadmin : name ≠ "admin") {service : Service AuthManager}
    (hmissing : ¬service.data.users.contains name = true) :
    (deleteUnlisted marks).fault service = some .undefined := by
  induction marks generalizing service with
  | nil => exact absurd hmark List.not_mem_nil
  | cons mark rest ih =>
      obtain ⟨first, listed⟩ := mark
      have hlater : first ≠ name ∨ listed = true → (name, false) ∈ rest := by
        intro hne
        rcases List.mem_cons.mp hmark with heq | hmem
        · obtain ⟨rfl, rfl⟩ := Prod.mk.inj heq
          exact absurd hne (by simp)
        · exact hmem
      rw [deleteUnlisted_cons]
      cases listed with
      | true => exact ih (hlater (Or.inr rfl)) hmissing
      | false =>
          rw [if_neg Bool.false_ne_true, fault]
          by_cases hfirst : first = "admin"
          · subst hfirst
            rw [bind_ok (deleteUser_admin service)]
            exact ih (hlater (Or.inl hadmin.symm)) hmissing
          · by_cases hcontains : service.data.users.contains first = true
            · rw [bind_ok (deleteUser_of_contains hfirst hcontains)]
              apply ih
              · apply hlater
                left
                rintro rfl
                exact hmissing hcontains
              · intro h
                exact hmissing ((SortedMap.contains_erase _ _ _).mp h).2
            · rw [bind_error (deleteUser_of_missing hfirst hcontains)]

/-- Nobody is deleted while only the administrator is unlisted. -/
theorem dropUnlisted_eq_self {marks : List (String × Bool)}
    (h : ∀ name, (name, false) ∈ marks → name = "admin") (users : SortedMap String User) :
    dropUnlisted marks users = users := by
  induction marks with
  | nil => rfl
  | cons mark rest ih =>
      obtain ⟨name, listed⟩ := mark
      have hkept : listed = true ∨ name = "admin" := by
        cases listed with
        | true => exact Or.inl rfl
        | false => exact Or.inr (h name List.mem_cons_self)
      rw [dropUnlisted, if_pos hkept]
      exact ih fun other hother => h other (List.mem_cons_of_mem _ hother)

/-! ## The loop -/

section Loop

variable {manager : AuthManager} (name status : String) (marks : SortedMap String Bool)
  (entries : List (String × String))

/-- The marks that the loop passes on after the entry. -/
def marksAfter (manager : AuthManager) (name status : String) (marks : SortedMap String Bool) :
    SortedMap String Bool :=
  markUnlisted (manager.enable name status).users (marks.insert name true)

theorem readUsers_cons (locked : Bool) :
    readUsers ((name, status) :: entries) marks ⟨locked, manager⟩ =
      (deleteUnlisted (manager.marksAfter name status marks).entries >>= fun _ =>
        readUsers entries (manager.marksAfter name status marks))
        ⟨locked, manager.enable name status⟩ := rfl

theorem find?_marksAfter (h : manager.Named) (other : String) :
    (manager.marksAfter name status marks).find? other =
      ((marks.insert name true).find? other).or
        (if manager.users.contains other then some false else none) := by
  rw [marksAfter, find?_markUnlisted (h.enable name status), contains_enable]

/-- Only the administrator is unlisted, now and in the marks. -/
structure Settled (manager : AuthManager) (marks : SortedMap String Bool) : Prop where
  listed : ∀ name, manager.users.contains name = true → name ≠ "admin" →
    marks.find? name = some true
  unlisted : ∀ name, marks.find? name = some false → name = "admin"

theorem Settled.insert {marks : SortedMap String Bool} (h : Settled manager marks) :
    Settled manager (marks.insert name true) := by
  constructor
  · intro other hcontains hadmin
    rw [SortedMap.find?_insert]
    split
    · rfl
    · exact h.listed other hcontains hadmin
  · intro other hother
    rw [SortedMap.find?_insert] at hother
    split at hother
    · exact absurd (Option.some.inj hother) (by decide)
    · exact h.unlisted other hother

theorem Settled.marksAfter {marks : SortedMap String Bool} (hnamed : manager.Named)
    (h : Settled manager (marks.insert name true)) :
    Settled (manager.enable name status) (manager.marksAfter name status marks) := by
  constructor
  · intro other hcontains hadmin
    rw [contains_enable] at hcontains
    rw [find?_marksAfter name status marks hnamed, h.listed other hcontains hadmin]
    rfl
  · intro other hother
    rw [find?_marksAfter name status marks hnamed] at hother
    cases hmark : (marks.insert name true).find? other with
    | some mark =>
        rw [hmark] at hother
        exact h.unlisted other (hmark.trans hother)
    | none =>
        rw [hmark, Option.none_or] at hother
        split at hother
        · rename_i hcontains
          by_contra hadmin
          have hlisted := h.listed other hcontains hadmin
          exact Option.some_ne_none true (hlisted.symm.trans hmark)
        · exact absurd hother.symm (Option.some_ne_none false)

theorem deleteUnlisted_of_settled {marks : SortedMap String Bool} (h : Settled manager marks)
    (locked : Bool) :
    deleteUnlisted marks.entries ⟨locked, manager⟩ = .ok () ⟨locked, manager⟩ := by
  have hadmin : ∀ name, (name, false) ∈ marks.entries → name = "admin" := by
    intro name hname
    exact h.unlisted name ((SortedMap.mem_entries_iff _ _ _).mp hname)
  rw [deleteUnlisted_of_known marks.nodup_keys fun name hname hne => absurd (hadmin name hname) hne,
    dropUnlisted_eq_self hadmin]

/-- The loop only sets statuses while the administrator alone is unlisted. -/
theorem readUsers_of_settled {marks : SortedMap String Bool} (hnamed : manager.Named)
    (h : Settled manager (marks.insert name true)) (locked : Bool) :
    readUsers ((name, status) :: entries) marks ⟨locked, manager⟩ =
      .ok () ⟨locked, manager.enableAll ((name, status) :: entries)⟩ := by
  induction entries generalizing manager name status marks with
  | nil =>
      rw [readUsers_cons,
        bind_ok (deleteUnlisted_of_settled (h.marksAfter name status hnamed) locked)]
      rfl
  | cons entry rest ih =>
      have hnext := h.marksAfter name status hnamed
      rw [readUsers_cons, bind_ok (deleteUnlisted_of_settled hnext locked)]
      exact ih entry.1 entry.2 (hnamed.enable name status) (hnext.insert entry.1)

/-- The first entry deletes everybody else but the administrator. -/
theorem firstEntry (hnamed : manager.Named) (locked : Bool) :
    ∃ after : AuthManager,
      deleteUnlisted (manager.marksAfter name status SortedMap.empty).entries
        ⟨locked, manager.enable name status⟩ = .ok () ⟨locked, after⟩ ∧
      ∀ other, after.users.find? other =
        if other = name ∨ other = "admin" then (manager.enable name status).users.find? other
        else none := by
  have hmarks : ∀ other, (other, false) ∈ (manager.marksAfter name status SortedMap.empty).entries ↔
      name ≠ other ∧ manager.users.contains other = true := by
    intro other
    rw [SortedMap.mem_entries_iff, find?_marksAfter name status SortedMap.empty hnamed,
      SortedMap.find?_insert]
    by_cases hname : name = other
    · simp [hname]
    · simp [hname]
  refine ⟨_, deleteUnlisted_of_known (SortedMap.nodup_keys _) ?_, ?_⟩
  · intro other hother _
    rw [contains_enable]
    exact ((hmarks other).mp hother).2
  · intro other
    simp only [find?_dropUnlisted, hmarks]
    by_cases hkept : other = name ∨ other = "admin"
    · rw [if_pos hkept, if_neg]
      rintro ⟨⟨hname, _⟩, hadmin⟩
      exact hkept.elim (fun h => hname h.symm) hadmin
    · obtain ⟨hname, hadmin⟩ := not_or.mp hkept
      rw [if_neg hkept]
      by_cases hcontains : manager.users.contains other = true
      · rw [if_pos ⟨⟨Ne.symm hname, hcontains⟩, hadmin⟩]
      · rw [if_neg fun h => hcontains h.1.2, find?_enable, if_neg (Ne.symm hname)]
        simpa [SortedMap.contains] using hcontains

/-- What every erasure keeps, the deletion of the unlisted users keeps. -/
theorem keeps_deleteUnlisted {I : AuthManager → Prop}
    (herase : ∀ other manager, I manager →
      I { manager with users := manager.users.erase other })
    (unlisted : List (String × Bool)) :
    Keeps (fun service => I service.data) (deleteUnlisted unlisted) := by
  induction unlisted with
  | nil => exact Keeps.pure ()
  | cons mark rest ih =>
      apply Keeps.ite
      · exact ih
      · apply Keeps.bind _ fun _ => ih
        apply Keeps.ite
        · exact Keeps.pure false
        · refine Keeps.bind Keeps.read fun manager => ?_
          apply Keeps.ite
          · refine Keeps.bind ?_ fun _ => Keeps.pure true
            exact Keeps.write fun service h => herase mark.1 service.data h
          · exact Keeps.raise _

/-- What every erasure and every enabling keep, the loop keeps. -/
theorem keeps_readUsers {I : AuthManager → Prop}
    (herase : ∀ other manager, I manager →
      I { manager with users := manager.users.erase other })
    (henable : ∀ other status manager, I manager → I (manager.enable other status)) :
    Keeps (fun service => I service.data) (readUsers entries marks) := by
  induction entries generalizing marks with
  | nil => exact Keeps.pure ()
  | cons entry rest ih =>
      apply Keeps.bind
      · exact Keeps.write fun service h => henable entry.1 entry.2 service.data h
      · intro _
        refine Keeps.bind Keeps.read fun manager => ?_
        exact (keeps_deleteUnlisted herase _).bind fun _ => ih _

/-- A user that is missing stays missing. -/
theorem keeps_missing_readUsers (other : String) :
    Keeps (fun service : Service AuthManager => service.data.users.contains other = false)
      (readUsers entries marks) := by
  apply keeps_readUsers (I := fun manager => manager.users.contains other = false) marks entries
  · intro erased manager hmissing
    rw [← Bool.not_eq_true, SortedMap.contains_erase, hmissing]
    simp
  · intro name status manager hmissing
    exact (contains_enable name status other manager).trans hmissing

/-- Where a second entry follows, whoever is neither the first nor the administrator is
gone for good or deleted twice. -/
theorem readUsers_of_other (hnamed : manager.Named) (second : String × String) {other : String}
    (hcontains : manager.users.contains other = true) (hname : other ≠ name)
    (hadmin : other ≠ "admin") (locked : Bool) :
    (other ≠ second.1 → (readUsers ((name, status) :: second :: entries)
        SortedMap.empty).fault ⟨locked, manager⟩ = some .undefined) ∧
      ((readUsers ((name, status) :: second :: entries) SortedMap.empty).final
        ⟨locked, manager⟩).data.users.contains other = false := by
  obtain ⟨after, hrun, hfind⟩ := firstEntry name status hnamed locked
  have hmissing : after.users.contains other = false := by
    rw [SortedMap.contains, hfind, if_neg (not_or.mpr ⟨hname, hadmin⟩)]
    rfl
  rw [fault, final, readUsers_cons, bind_ok hrun, ← fault, ← final]
  refine ⟨fun hsecond => ?_, keeps_missing_readUsers _ _ other _ hmissing⟩
  have hafter : after.Named := by
    intro found user hfound
    rw [hfind] at hfound
    split at hfound
    · exact hnamed.enable name status found user hfound
    · exact absurd hfound.symm (Option.some_ne_none user)
  have hmark : (manager.marksAfter name status SortedMap.empty).find? other = some false := by
    rw [find?_marksAfter name status SortedMap.empty hnamed,
      SortedMap.find?_insert_of_ne _ _ hname.symm, if_pos hcontains]
    rfl
  rw [fault, readUsers_cons, ← fault]
  apply fault_bind_of_fault
  apply fault_deleteUnlisted_of_missing _ hadmin
  · rw [contains_enable, hmissing]
    exact Bool.false_ne_true
  · rw [SortedMap.mem_entries_iff, find?_marksAfter _ _ _ hafter,
      SortedMap.find?_insert_of_ne _ _ hsecond.symm, hmark]
    rfl

end Loop

/-! ## The upload -/

variable (readJson : String → Option PTree) (params : List String) (body : String)
  (entries : List (String × String)) (manager : AuthManager)

/-- The users after the request. -/
def usersAfter : SortedMap String User :=
  ((execSet readJson params body).final ⟨false, manager⟩).data.users

/-- The table holds the listed users and the administrator, as far as they existed, with
their last status, and no name has been deleted that was not in the table. -/
structure Synchronised : Prop where
  known : (execSet readJson params body).fault ⟨false, manager⟩ ≠ some .undefined
  names : ∀ name, (manager.usersAfter readJson params body).contains name = true ↔
    manager.users.contains name = true ∧ (isListed entries name ∨ name = "admin")
  statuses : ∀ name user status,
    (manager.usersAfter readJson params body).find? name = some user →
      lastStatus entries name = some status → user.get "enable_status" = status

/-- Besides the administrator, an empty list meets no user, and a list of two or more
entries only the user of its first entry. -/
def FirstOnly : Prop :=
  match entries with
  | [] => ∀ name, manager.users.contains name = true → name = "admin"
  | [_] => True
  | first :: _ :: _ =>
      ∀ name, manager.users.contains name = true → name = first.1 ∨ name = "admin"

structure Uploadable : Prop where
  firstOnly : manager.FirstOnly entries
  takes : ∀ name user status, manager.users.find? name = some user →
    lastStatus entries name = some status →
      MParams.Takes "enable_status" status user.attributes

variable {readJson params body entries manager} {after : AuthManager}

theorem execAdd_of_other {page : String} (hpage : params[2]? = some page) (hother : page ≠ "Users")
    (res : MMessage) : execAdd readJson params body res = pure (res.add "body" "Not found") := by
  unfold execAdd
  split
  · exact absurd (Option.some.inj hpage).symm hother
  · rfl

variable (manager) in
/-- An upload ends as its loop does. -/
theorem execSet_upload (hpage : params[2]? = some "Users.json") (hbody : body ≠ "")
    (hentries : uploaded readJson body = some entries) :
    (execSet readJson params body).fault ⟨false, manager⟩ =
        (readUsers entries SortedMap.empty).fault ⟨true, manager⟩ ∧
      manager.usersAfter readJson params body =
        ((readUsers entries SortedMap.empty).final ⟨true, manager⟩).data.users := by
  rw [usersAfter, execSet, fault_underLock rfl, data_final_underLock rfl]
  simp only [hpage, execUpload, hbody, ne_eq, not_false_eq_true, and_self, if_true, uploadUsers,
    hentries, orRaise, pure_bind]
  rw [fault, fault, final, final]
  cases hrun : readUsers entries SortedMap.empty ⟨true, manager⟩ with
  | ok value after =>
      have hother : ∀ res, execAdd readJson params body res = pure (res.add "body" "Not found") :=
        execAdd_of_other hpage (by decide)
      simp only [bind_assoc, bind_ok hrun, read_bind, pure_bind, hother]
      exact ⟨rfl, rfl⟩
  | error raised after =>
      simp only [bind_assoc, bind_error hrun]
      exact ⟨trivial, trivial⟩

theorem isListed_of_lastStatus {name status : String} (h : lastStatus entries name = some status) :
    isListed entries name := by
  have hmem := List.mem_of_getLast? h
  obtain ⟨entry, hentry, _⟩ := List.mem_map.mp hmem
  obtain ⟨hentry, hname⟩ := List.mem_filter.mp hentry
  exact List.mem_map.mpr ⟨entry, hentry, by simpa using hname⟩

theorem users_eq_none {name : String} (h : ¬manager.users.contains name = true) :
    manager.users.find? name = none := by
  simpa [SortedMap.contains] using h

/-- The listed users and the administrator are left, with the listed statuses. -/
def Leaves (entries : List (String × String)) (manager after : AuthManager) : Prop :=
  ∀ name, (isListed entries name ∨ name = "admin" →
      after.users.find? name = (manager.enableAll entries).users.find? name) ∧
    (¬(isListed entries name ∨ name = "admin") → after.users.find? name = none)

theorem Leaves.contains_iff (hleaves : Leaves entries manager after) (name : String) :
    after.users.contains name = true ↔
      manager.users.contains name = true ∧ (isListed entries name ∨ name = "admin") := by
  by_cases hname : isListed entries name ∨ name = "admin"
  · rw [SortedMap.contains, (hleaves name).1 hname, ← SortedMap.contains, contains_enableAll,
      and_iff_left hname]
  · rw [SortedMap.contains, (hleaves name).2 hname]
    simp [hname]

/-- A listed user has the last of its statuses exactly when it takes it. -/
theorem Leaves.status_iff (hleaves : Leaves entries manager after) {name status : String}
    (hlast : lastStatus entries name = some status) :
    (∀ set : User, after.users.find? name = some set → set.get "enable_status" = status) ↔
      ∀ user, manager.users.find? name = some user →
        MParams.Takes "enable_status" status user.attributes := by
  rw [(hleaves name).1 (Or.inl (isListed_of_lastStatus hlast)), find?_enableAll]
  cases manager.users.find? name with
  | none => exact iff_of_true (by simp) (by simp)
  | some user =>
      simp only [Option.map_some, Option.some.injEq, forall_eq']
      exact get_foldl_set_iff _ hlast user

/-- The users that the loop leaves, where nobody but the first user and the
administrator is met by a longer list. -/
theorem readUsers_of_firstOnly (hnamed : manager.Named) (hfirst : manager.FirstOnly entries)
    (locked : Bool) :
    ∃ after : AuthManager,
      readUsers entries SortedMap.empty ⟨locked, manager⟩ = .ok () ⟨locked, after⟩ ∧
      Leaves entries manager after := by
  match entries, hfirst with
  | [], hfirst =>
      refine ⟨manager, rfl, fun name => ⟨fun _ => rfl, fun hname => ?_⟩⟩
      apply users_eq_none
      intro hcontains
      exact hname (Or.inr (hfirst name hcontains))
  | [(first, status)], _ =>
      obtain ⟨after, hrun, hfind⟩ := firstEntry first status hnamed locked
      refine ⟨after, ?_, fun name => ?_⟩
      · rw [readUsers_cons, bind_ok hrun]
        rfl
      · have hlisted : isListed [(first, status)] name ↔ name = first := List.mem_singleton
        rw [hlisted, hfind]
        exact ⟨fun h => if_pos h, fun h => if_neg h⟩
  | (first, status) :: second :: rest, hfirst =>
      have hsettled : Settled manager
          ((SortedMap.empty : SortedMap String Bool).insert first true) := by
        constructor
        · intro name hcontains hadmin
          have hname := (hfirst name hcontains).resolve_right hadmin
          rw [hname, SortedMap.find?_insert_self]
        · intro name hname
          rw [SortedMap.find?_insert] at hname
          split at hname
          · exact absurd (Option.some.inj hname) (by decide)
          · exact absurd hname.symm (Option.some_ne_none false)
      refine ⟨_, readUsers_of_settled first status (second :: rest) hnamed hsettled locked,
        fun name => ⟨fun _ => rfl, fun hname => ?_⟩⟩
      obtain ⟨hlisted, hadmin⟩ := not_or.mp hname
      apply users_eq_none
      rw [contains_enableAll]
      intro hcontains
      rcases hfirst name hcontains with rfl | h
      · exact hlisted (List.mem_cons_self)
      · exact hadmin h

theorem firstOnly_of_synchronised (hnamed : manager.Named)
    (hpage : params[2]? = some "Users.json") (hbody : body ≠ "")
    (hentries : uploaded readJson body = some entries)
    (h : manager.Synchronised readJson params body entries) : manager.FirstOnly entries := by
  obtain ⟨hfault, husers⟩ := execSet_upload manager hpage hbody hentries
  obtain ⟨hknown, hnames, _⟩ := h
  rw [hfault] at hknown
  rw [husers] at hnames
  match entries with
  | [] =>
      intro name hcontains
      have hkept := (hnames name).mp hcontains
      exact hkept.2.resolve_left List.not_mem_nil
  | [_] => trivial
  | first :: second :: rest =>
      intro name hcontains
      by_contra hname
      obtain ⟨hfirst, hadmin⟩ := not_or.mp hname
      obtain ⟨hundefined, hmissing⟩ :=
        readUsers_of_other first.1 first.2 rest hnamed second hcontains hfirst hadmin true
      by_cases hsecond : name = second.1
      · have hlisted : isListed (first :: second :: rest) name := by
          rw [hsecond]
          exact List.mem_cons_of_mem _ List.mem_cons_self
        have hkept := (hnames name).mpr ⟨hcontains, Or.inl hlisted⟩
        exact Bool.false_ne_true (hmissing.symm.trans hkept)
      · exact hknown (hundefined hsecond)

/-- An upload leaves the table as it should be exactly when its first entry names the
only user besides the administrator, or it has no other entry, and every listed user
takes its status. -/
theorem synchronised_iff (hnamed : manager.Named) (hpage : params[2]? = some "Users.json")
    (hbody : body ≠ "") (hentries : uploaded readJson body = some entries) :
    manager.Synchronised readJson params body entries ↔ manager.Uploadable entries := by
  suffices hiff : manager.FirstOnly entries →
      (manager.Synchronised readJson params body entries ↔
        ∀ name user status, manager.users.find? name = some user →
          lastStatus entries name = some status →
            MParams.Takes "enable_status" status user.attributes) by
    constructor
    · intro h
      have hfirst := firstOnly_of_synchronised hnamed hpage hbody hentries h
      exact ⟨hfirst, (hiff hfirst).mp h⟩
    · intro h
      exact (hiff h.firstOnly).mpr h.takes
  intro hfirst
  obtain ⟨hfault, husers⟩ := execSet_upload manager hpage hbody hentries
  obtain ⟨after, hrun, hleaves⟩ := readUsers_of_firstOnly hnamed hfirst true
  have husers : manager.usersAfter readJson params body = after.users := by
    rw [husers, final, hrun]
  constructor
  · intro h name user status huser hlast
    have hset : ∀ set : User, after.users.find? name = some set →
        set.get "enable_status" = status := by
      intro set hset
      exact h.statuses name set status (by rw [husers, hset]) hlast
    exact (hleaves.status_iff hlast).mp hset user huser
  · intro htakes
    constructor
    · rw [hfault, fault, hrun]
      exact (Option.some_ne_none _).symm
    · intro name
      rw [husers]
      exact hleaves.contains_iff name
    · intro name set status hset hlast
      rw [husers] at hset
      exact (hleaves.status_iff hlast).mpr
        (fun user huser => htakes name user status huser hlast) set hset

def member (name : String) : User :=
  ⟨name, [⟨"username", "generic", name⟩, ⟨"enable_status", "generic", "false"⟩],
    some (name ++ ".xml")⟩

def aliceAndBob : AuthManager where
  par := ⟨"authmanager", [], none, none⟩
  userTemplate := User.blank
  users := (SortedMap.empty.insert "alice" (member "alice")).insert "bob" (member "bob")
  home := SortedMap.empty
  config := none

def listed (name : String) : String :=
  "\x7b\"name\":\"" ++ name ++ "\",\"enable_status\":\"true\"\x7d"

def listedTree (name : String) : String × PTree :=
  ("", .node "" [("name", .node name []), ("enable_status", .node "true" [])])

def oneUser : String := "\x7b\"Users\":[" ++ listed "alice" ++ "]\x7d"

def bothUsers : String := "\x7b\"Users\":[" ++ listed "alice" ++ "," ++ listed "bob" ++ "]\x7d"

/-- What the reader makes of the two lists. -/
def readList (text : String) : Option PTree :=
  if text = oneUser then some (.node "" [("Users", .node "" [listedTree "alice"])])
  else if text = bothUsers then
    some (.node "" [("Users", .node "" [listedTree "alice", listedTree "bob"])])
  else none

theorem named_aliceAndBob : aliceAndBob.Named := by
  intro name user huser
  have hall : ∀ entry ∈ aliceAndBob.users.entries, entry.2.get "username" = entry.1 := by decide
  exact hall (name, user) ((SortedMap.mem_entries_iff _ _ _).mpr huser)

/-- A list with one entry deletes the other user. -/
theorem synchronised_oneUser :
    aliceAndBob.Synchronised readList ["horus-ws", "Authmanager", "Users.json"] oneUser
      [("alice", "true")] := by
  apply (synchronised_iff named_aliceAndBob rfl (by decide +kernel) (by decide +kernel)).mpr
  refine ⟨trivial, ?_⟩
  intro name user status huser hlast
  have hname : name = "alice" := List.mem_singleton.mp (isListed_of_lastStatus hlast)
  subst hname
  obtain rfl : "true" = status := Option.some.inj hlast
  obtain rfl : member "alice" = user := Option.some.inj huser
  apply (MParams.get_set_iff (member "alice").params _ _).mp
  exact MParams.get_set_self _ (by decide) (by decide)

/-- Both users are listed, and the second one is deleted. -/
theorem not_synchronised_bothUsers :
    aliceAndBob.Named ∧
      uploaded readList bothUsers = some [("alice", "true"), ("bob", "true")] ∧
      ¬aliceAndBob.Synchronised readList ["horus-ws", "Authmanager", "Users.json"] bothUsers
        [("alice", "true"), ("bob", "true")] := by
  have hentries : uploaded readList bothUsers = some [("alice", "true"), ("bob", "true")] := by
    decide +kernel
  refine ⟨named_aliceAndBob, hentries, fun h => ?_⟩
  have hfirst := firstOnly_of_synchronised named_aliceAndBob rfl (by decide +kernel) hentries h
  rcases hfirst "bob" (by decide) with hbob | hbob
  · exact absurd hbob (by decide)
  · exact absurd hbob (by decide)

end Hat.AuthManager
