import Hat.WSServer.AuthLocking
import Hat.WSServer.AuthUpload

/-!
# The users table over a run

A run starts with the users that are found on disk, and records which names have been
loaded, added and deleted since.  Only a read can put a further name into the table: the
handler of an addition never gets past its lock.  The table holds nothing but loaded and
added users exactly when every user has been saved under its own name and every read
names a user of the table.
-/

namespace Hat.AuthManager

open Hat.Guarded Hat.Guarded.Call

/-- There is a file from which a user of the name is loaded. -/
def OnDisk (home : UserDir) (config : Option UserDir) (name : String) : Prop :=
  name ∈ stems home ∨ ∃ dir, config = some dir ∧ name ∈ stems dir ∧ name ≠ "user_template"

theorem find?_foldl_insert {ν : Type*} (value : String → ν) (names : List String)
    (map : SortedMap String ν) (name : String) :
    (names.foldl (fun map name => map.insert name (value name)) map).find? name =
      if name ∈ names then some (value name) else map.find? name := by
  induction names generalizing map with
  | nil => simp
  | cons first rest ih =>
      rw [List.foldl_cons, ih, SortedMap.find?_insert]
      by_cases hrest : name ∈ rest
      · rw [if_pos hrest, if_pos (List.mem_cons_of_mem _ hrest)]
      · rw [if_neg hrest]
        by_cases hfirst : first = name
        · subst hfirst
          rw [if_pos rfl, if_pos List.mem_cons_self]
        · have hmem : ¬name ∈ first :: rest := by
            rw [List.mem_cons, not_or]
            exact ⟨Ne.symm hfirst, hrest⟩
          rw [if_neg hfirst, if_neg hmem]

theorem find?_loadConfigured (home : UserDir) (config : Option UserDir) (names : List String)
    (loaded : User × SortedMap String User) (name : String) :
    (loadConfigured home config names loaded).2.find? name =
      (loaded.2.find? name).or
        (if name ∈ names ∧ name ≠ "user_template" then some (User.new home config name)
          else none) := by
  induction names generalizing loaded with
  | nil => simp [loadConfigured]
  | cons first rest ih =>
      rw [loadConfigured]
      by_cases htemplate : first = "user_template"
      · have hmem : name ∈ first :: rest ∧ name ≠ "user_template" ↔
            name ∈ rest ∧ name ≠ "user_template" := by
          rw [htemplate, List.mem_cons, or_and_right]
          exact or_iff_right fun h => h.2 h.1
        rw [if_pos htemplate, ih]
        simp only [hmem]
      · rw [if_neg htemplate, ih, SortedMap.find?_insertNew]
        by_cases hfirst : first = name
        · subst hfirst
          cases hfound : loaded.2.find? first with
          | none => simp [SortedMap.contains, hfound, htemplate]
          | some user => simp [SortedMap.contains, hfound]
        · have hmem : name ∈ first :: rest ↔ name ∈ rest := by
            rw [List.mem_cons, or_iff_right fun h => hfirst h.symm]
          simp only [hfirst, false_and, if_false, hmem]

theorem users_foldl_saveUser (names : List String) (manager : AuthManager) :
    (names.foldl (fun manager name => manager.saveUser name) manager).users = manager.users := by
  induction names generalizing manager with
  | nil => rfl
  | cons name rest ih => exact (ih _).trans (users_saveUser name manager)

/-- The users after the start are those on disk, each loaded under the name of its file. -/
theorem find?_init (conf : MParams) (home : UserDir) (config : Option UserDir) (name : String)
    (user : User) : (init conf home config).users.find? name = some user ↔
      OnDisk home config name ∧ User.new home config name = user := by
  unfold init
  rw [users_foldl_saveUser]
  cases config with
  | none =>
      simp only [find?_foldl_insert, SortedMap.find?_empty, OnDisk]
      by_cases hname : name ∈ stems home
      · simp [hname]
      · simp [hname]
  | some dir =>
      simp only [find?_loadConfigured, find?_foldl_insert, SortedMap.find?_empty, OnDisk,
        Option.some.injEq, exists_eq_left', List.mem_append]
      by_cases hname : name ∈ stems home
      · simp [hname]
      · simp [hname]

theorem contains_init (conf : MParams) (home : UserDir) (config : Option UserDir)
    (name : String) :
    (init conf home config).users.contains name = true ↔ OnDisk home config name := by
  rw [SortedMap.contains_iff]
  simp only [find?_init]
  exact ⟨fun ⟨_, h, _⟩ => h, fun h => ⟨_, h, rfl⟩⟩

/-- The request reads the user of the name. -/
def Request.Reads (name : String) : Request → Prop
  | .get [_, _, _, value] => (NameList.init [] value '.').head? = some name
  | _ => False

variable (readJson : String → Option PTree)

theorem serve_of_locked {service : Service AuthManager} (hlocked : service.locked = true)
    (request : Request) : serve readJson service request = some service := by
  have hrun : handle readJson request service = .error .blocked service := by
    cases request <;> exact underLock_of_locked _ hlocked
  rw [serve, fault, final, hrun]
  rfl

/-- A read leaves the entry of the index operator behind. -/
theorem serve_of_reads {name : String} {request : Request} (hreads : request.Reads name)
    (manager : AuthManager) :
    serve readJson ⟨false, manager⟩ request = some ⟨false, manager.index name⟩ := by
  cases request with
  | set params body => exact hreads.elim
  | check params => exact hreads.elim
  | get params =>
      match params, hreads with
      | [first, second, third, value], hreads =>
          have hpiece : (NameList.init [] value '.').head? = some name := hreads
          have hrun : handle readJson (.get [first, second, third, value]) ⟨false, manager⟩ =
              .ok (res.add "body" (userAnswer ((manager.index name).userAt name)))
                ⟨false, manager.index name⟩ := by
            rw [handle, execGet, firstPiece, hpiece]
            rfl
          rw [serve, fault, final, hrun]
          rfl

/-- Every user of the second table is in the first one, under the same user name. -/
def Within (before after : AuthManager) : Prop :=
  ∀ name user, after.users.find? name = some user → ∃ old, before.users.find? name = some old ∧
    user.get "username" = old.get "username"

theorem Within.refl (manager : AuthManager) : manager.Within manager :=
  fun _ user huser => ⟨user, huser, rfl⟩

theorem Within.contains {before after : AuthManager} (h : before.Within after) {name : String}
    (hname : after.users.contains name = true) : before.users.contains name = true := by
  obtain ⟨user, huser⟩ := SortedMap.contains_iff.mp hname
  obtain ⟨old, hold, _⟩ := h name user huser
  exact SortedMap.contains_iff.mpr ⟨old, hold⟩

theorem Within.enable {before after : AuthManager} (h : before.Within after)
    (name status : String) : before.Within (after.enable name status) := by
  intro other user huser
  rw [find?_enable] at huser
  split at huser
  · obtain ⟨middle, hmiddle, rfl⟩ := Option.map_eq_some_iff.mp huser
    obtain ⟨old, hold, hname⟩ := h other middle hmiddle
    refine ⟨old, hold, Eq.trans ?_ hname⟩
    exact MParams.get_set_of_ne middle.params status (by decide)
  · exact h other user huser

theorem Within.erase {before after : AuthManager} (h : before.Within after) (name : String) :
    before.Within { after with users := after.users.erase name } := by
  intro other user huser
  rw [SortedMap.find?_erase] at huser
  split at huser
  · exact absurd huser.symm (Option.some_ne_none user)
  · exact h other user huser

theorem final_of_serve {service after : Service AuthManager} {request : Request}
    (hserve : serve readJson service request = some after) :
    after = (handle readJson request).final service := by
  rw [serve] at hserve
  split at hserve
  · exact absurd hserve.symm (Option.some_ne_none after)
  · exact (Option.some.inj hserve).symm

theorem keeps_execGet {I : AuthManager → Prop} {params : List String}
    (hindex : ∀ name manager, (Request.get params).Reads name → I manager →
      I (manager.index name)) :
    Keeps (fun service => I service.data) (execGet params) := by
  refine Keeps.underLock (fun _ _ h => h) ?_
  split
  · exact Keeps.bind Keeps.read fun _ => Keeps.pure _
  · rename_i first second third value
    cases hpiece : (NameList.init [] value '.').head? with
    | none =>
        rw [firstPiece, hpiece]
        exact Keeps.raise_bind _ _
    | some name =>
        rw [firstPiece, hpiece, orRaise, pure_bind]
        apply Keeps.bind
        · exact Keeps.write fun service h => hindex name service.data hpiece h
        · intro _
          exact Keeps.bind Keeps.read fun _ => Keeps.pure _
  · exact Keeps.pure _

/-- A list of the users, and a read that fails, change nothing. -/
theorem data_serve_get {params : List String} {service after : Service AuthManager}
    (hreads : ∀ name, ¬(Request.get params).Reads name)
    (hserve : serve readJson service (.get params) = some after) : after.data = service.data := by
  rw [final_of_serve readJson hserve]
  exact keeps_execGet (I := fun manager => manager = service.data)
    (fun name _ hread => absurd hread (hreads name)) service rfl

theorem keeps_uploadUsers {I : AuthManager → Prop}
    (herase : ∀ name manager, I manager → I { manager with users := manager.users.erase name })
    (henable : ∀ name status manager, I manager → I (manager.enable name status))
    (body : String) (res : MMessage) :
    Keeps (fun service => I service.data) (uploadUsers readJson body res) := by
  apply Keeps.bind
  · exact Keeps.orRaise _ _
  · intro treeParse
    apply Keeps.bind
    · exact keeps_readUsers _ _ herase henable
    · intro _
      exact Keeps.bind Keeps.read fun _ => Keeps.pure _

theorem keeps_execAdd {I : Service AuthManager → Prop} {params : List String} (body : String)
    (hadds : ¬(Request.set params body).Adds) (res : MMessage) :
    Keeps I (execAdd readJson params body res) := by
  unfold execAdd
  split
  · rename_i first second value
    have hvalue : value = "" := by
      by_contra hne
      exact hadds ⟨rfl, hne⟩
    rw [hvalue]
    exact Keeps.raise _
  · exact Keeps.pure _

theorem keeps_findUser {I : Service AuthManager → Prop} (capability : String) (passwd : NameList)
    (entries : List (String × User)) : Keeps I (findUser capability passwd entries) := by
  induction entries with
  | nil => exact Keeps.pure ""
  | cons entry rest ih =>
      apply Keeps.bind
      · exact Keeps.orRaise _ _
      · intro first
        exact Keeps.ite (Keeps.pure entry.1) ih

theorem keeps_execCheck {I : Service AuthManager → Prop}
    (hlock : ∀ service locked, I service → I { service with locked := locked })
    (params : List String) : Keeps I (execCheck params) := by
  refine Keeps.underLock hlock ?_
  split
  · apply Keeps.bind
    · exact Keeps.bind Keeps.read fun _ => keeps_findUser _ _ _
    · intro answer
      exact Keeps.bind Keeps.read fun _ => Keeps.pure _
  · exact Keeps.pure _

/-- The handler of an addition gets no further than the lock. -/
theorem keeps_execSet {I : AuthManager → Prop}
    (herase : ∀ name manager, I manager → I { manager with users := manager.users.erase name })
    (henable : ∀ name status manager, I manager → I (manager.enable name status))
    (params : List String) (body : String) :
    Keeps (fun service => I service.data) (execSet readJson params body) := by
  by_cases hadds : (Request.set params body).Adds
  · match params, hadds with
    | [first, second, _, value], ⟨rfl, hvalue⟩ =>
        rintro ⟨locked, manager⟩ h
        cases locked with
        | true => exact h
        | false =>
            rw [final, execSet_of_adds readJson first second hvalue]
            exact h
  · refine Keeps.underLock (fun _ _ h => h) ?_
    split
    · exact Keeps.pure _
    · apply Keeps.bind
      · apply Keeps.ite
        · exact keeps_uploadUsers readJson herase henable body res
        · exact Keeps.pure res
      · exact keeps_execAdd readJson body hadds

/-- A request changes the table by erasing, enabling and the index of the user it reads:
what these keep, it keeps. -/
theorem serve_induction {I : AuthManager → Prop} {request : Request}
    (herase : ∀ name manager, I manager → I { manager with users := manager.users.erase name })
    (henable : ∀ name status manager, I manager → I (manager.enable name status))
    (hindex : ∀ name manager, request.Reads name → I manager → I (manager.index name))
    {service after : Service AuthManager}
    (hserve : serve readJson service request = some after) (h : I service.data) :
    I after.data := by
  rw [final_of_serve readJson hserve]
  cases request with
  | set params body => exact keeps_execSet readJson herase henable params body service h
  | check params =>
      exact keeps_execCheck (I := fun found => I found.data) (fun _ _ h => h) params service h
  | get params => exact keeps_execGet hindex service h

/-- Every request but a read of a user keeps within the table it meets. -/
theorem within_serve {service after : Service AuthManager} {request : Request}
    (hreads : ∀ name, ¬request.Reads name)
    (hserve : serve readJson service request = some after) : service.data.Within after.data := by
  apply serve_induction (I := service.data.Within) readJson _ _ _ hserve (Within.refl _)
  · exact fun name manager h => h.erase name
  · exact fun name status manager h => h.enable name status
  · exact fun name manager hread => absurd hread (hreads name)

/-! ## Runs -/

/-- The service with the names that have been loaded at its start, and those that have
been added, or deleted and not added again, since. -/
structure AuthHistory where
  service : Service AuthManager
  loaded : List String
  added : List String
  deleted : List String

/-- The name of an addition that is completed. -/
def additions (service : Service AuthManager) : Request → List String
  | .set [first, second, "Users", value] body =>
      if (handle readJson (.set [first, second, "Users", value] body)).fault service = none then
        (NameList.init [] value '.').head?.toList.filter fun name =>
          !service.data.users.contains name
      else []
  | _ => []

namespace AuthHistory

def start (conf : MParams) (home : UserDir) (config : Option UserDir) : AuthHistory where
  service := ⟨false, init conf home config⟩
  loaded := (init conf home config).users.keys
  added := []
  deleted := []

/-- The names of the table that the request has erased. -/
def erased (history : AuthHistory) (after : Service AuthManager) : List String :=
  history.service.data.users.keys.filter fun name => !after.data.users.contains name

def serve (history : AuthHistory) (request : Request) : Option AuthHistory :=
  (AuthManager.serve readJson history.service request).map fun after =>
    let names := additions readJson history.service request
    { history with
      service := after
      added := history.added ++ names
      deleted := (history.deleted ++ history.erased after).filter fun name => name ∉ names }

/-- Every user has been loaded or added, and is kept under its own name. -/
def Accounted (history : AuthHistory) : Prop :=
  ∀ name user, history.service.data.users.find? name = some user →
    (name ∈ history.loaded ∨ name ∈ history.added) ∧ name ≠ "" ∧ user.get "username" = name

/-- A read leaves the table as it is. -/
def ReadsOnly (history : AuthHistory) (request : Request) : Prop :=
  ∀ params after, request = .get params →
    AuthManager.serve readJson history.service request = some after →
      after.data.users = history.service.data.users

/-- The request does not get at the table, or every name it reads is there. -/
def ReadsKnown (history : AuthHistory) (request : Request) : Prop :=
  history.service.locked = true ∨
    ∀ name, request.Reads name → history.service.data.users.contains name = true

theorem serve_eq_some {history next : AuthHistory} {request : Request}
    (hserve : history.serve readJson request = some next) :
    AuthManager.serve readJson history.service request = some next.service ∧
      next.loaded = history.loaded ∧ (∀ name ∈ history.added, name ∈ next.added) ∧
      ∀ name ∈ next.deleted,
        name ∈ history.deleted ∨ next.service.data.users.contains name = false := by
  obtain ⟨after, hafter, rfl⟩ := Option.map_eq_some_iff.mp hserve
  refine ⟨hafter, rfl, fun name hname => List.mem_append_left _ hname, fun name hname => ?_⟩
  obtain ⟨hname, _⟩ := List.mem_filter.mp hname
  apply (List.mem_append.mp hname).imp_right
  intro herased
  obtain ⟨_, hmissing⟩ := List.mem_filter.mp herased
  simpa using hmissing

theorem users_index_of_contains {manager : AuthManager} {name : String}
    (hname : manager.users.contains name = true) :
    (manager.index name).users = manager.users := if_pos hname

/-- One request keeps the table accounted for exactly when it reads known users. -/
theorem accounted_serve_iff {history : AuthHistory} (haccounted : history.Accounted)
    (request : Request) :
    (∀ next, history.serve readJson request = some next → next.Accounted) ↔
      history.ReadsKnown request := by
  constructor
  · intro h
    rw [ReadsKnown, or_iff_not_imp_left]
    intro hfree name hreads
    obtain ⟨⟨locked, manager⟩, loaded, added, deleted⟩ := history
    obtain rfl : locked = false := by simpa using hfree
    have hafter := serve_of_reads readJson hreads manager
    have hnext := h _ (by rw [serve, hafter]; rfl)
    by_contra hunknown
    have hentry : (manager.index name).users.find? name = some User.blank := by
      rw [index, SortedMap.find?_insertNew, if_pos ⟨rfl, by simpa using hunknown⟩]
    obtain ⟨_, hne, hname⟩ := hnext name User.blank hentry
    exact hne hname.symm
  · intro h next hnext name user huser
    obtain ⟨hserve, hloaded, hadded, _⟩ := serve_eq_some readJson hnext
    suffices hwithin : history.service.data.Within next.service.data by
      obtain ⟨old, hold, hname⟩ := hwithin name user huser
      obtain ⟨horigin, hne, husername⟩ := haccounted name old hold
      rw [hloaded, hname]
      exact ⟨horigin.imp_right (hadded name), hne, husername⟩
    by_cases hlocked : history.service.locked = true
    · rw [serve_of_locked readJson hlocked] at hserve
      rw [← Option.some.inj hserve]
      exact Within.refl _
    · have hknown := h.resolve_left hlocked
      by_cases hreads : ∃ read, request.Reads read
      · obtain ⟨read, hreads⟩ := hreads
        have hfree : history.service = ⟨false, history.service.data⟩ := by
          rw [← Bool.not_eq_true _ |>.mp hlocked]
        rw [hfree, serve_of_reads readJson hreads] at hserve
        rw [← Option.some.inj hserve]
        intro other found hfound
        rw [users_index_of_contains (hknown read hreads)] at hfound
        exact ⟨found, hfound, rfl⟩
      · exact within_serve readJson (not_exists.mp hreads) hserve

/-- Every file that is loaded at the start holds a user of its own name. -/
def OwnFiles (home : UserDir) (config : Option UserDir) : Prop :=
  ∀ name, OnDisk home config name →
    name ≠ "" ∧ (User.new home config name).get "username" = name

theorem accounted_start_iff (conf : MParams) (home : UserDir) (config : Option UserDir) :
    (start conf home config).Accounted ↔ OwnFiles home config := by
  constructor
  · intro h name hdisk
    exact (h name _ ((find?_init conf home config name _).mpr ⟨hdisk, rfl⟩)).2
  · intro h name user huser
    have hname : name ∈ (start conf home config).loaded := by
      apply (SortedMap.mem_keys_iff_contains _ _).mpr
      exact SortedMap.contains_iff.mpr ⟨user, huser⟩
    obtain ⟨hdisk, rfl⟩ := (find?_init conf home config name user).mp huser
    exact ⟨Or.inl hname, h name hdisk⟩

theorem readsOnly_of_readsKnown {history : AuthHistory} {request : Request}
    (h : history.ReadsKnown request) : history.ReadsOnly readJson request := by
  rintro params after rfl hserve
  by_cases hlocked : history.service.locked = true
  · rw [serve_of_locked readJson hlocked] at hserve
    rw [← Option.some.inj hserve]
  · have hknown := h.resolve_left hlocked
    have hfree : history.service = ⟨false, history.service.data⟩ := by
      rw [← Bool.not_eq_true _ |>.mp hlocked]
    by_cases hreads : ∃ read, (Request.get params).Reads read
    · obtain ⟨read, hreads⟩ := hreads
      rw [hfree, serve_of_reads readJson hreads] at hserve
      rw [← Option.some.inj hserve]
      exact users_index_of_contains (hknown read hreads)
    · rw [data_serve_get readJson (not_exists.mp hreads) hserve]

/-- Throughout a run the table is accounted for, and reads leave it alone, exactly when
every file on disk holds a user of its own name and every read names a user of the table. -/
theorem accounted_iff (conf : MParams) (home : UserDir) (config : Option UserDir)
    (requests : List Request) :
    (Machine.Always (serve readJson) Accounted (start conf home config) requests ∧
        Machine.Along (serve readJson) (ReadsOnly readJson) (start conf home config) requests) ↔
      OwnFiles home config ∧
        Machine.Along (serve readJson) ReadsKnown (start conf home config) requests := by
  have hiff : OwnFiles home config →
      (Machine.Always (serve readJson) Accounted (start conf home config) requests ↔
        Machine.Along (serve readJson) ReadsKnown (start conf home config) requests) := by
    intro hown
    apply Machine.always_iff_along (I := fun _ => True)
    · intros
      trivial
    · intro history request _ haccounted
      exact accounted_serve_iff readJson haccounted request
    · trivial
    · exact (accounted_start_iff conf home config).mpr hown
  constructor
  · rintro ⟨halways, _⟩
    have hstart : (start conf home config).Accounted := by
      cases requests with
      | nil => exact halways
      | cons _ _ => exact halways.1
    have hown := (accounted_start_iff conf home config).mp hstart
    exact ⟨hown, (hiff hown).mp halways⟩
  · rintro ⟨hown, hknown⟩
    refine ⟨(hiff hown).mpr hknown, ?_⟩
    exact hknown.mono fun history request h => readsOnly_of_readsKnown readJson h

/-- A user that nobody has added is read. -/
theorem not_accounted_unknownUser :
    ¬(Machine.Always (serve fun _ => none) Accounted
        (start ⟨"authmanager", [], none, none⟩ SortedMap.empty none)
        [.get ["horus-ws", "Authmanager", "Users", "bob.json"]] ∧
      Machine.Along (serve fun _ => none) (ReadsOnly fun _ => none)
        (start ⟨"authmanager", [], none, none⟩ SortedMap.empty none)
        [.get ["horus-ws", "Authmanager", "Users", "bob.json"]]) := by
  rintro ⟨⟨haccounted, halways⟩, _⟩
  have hknown := (accounted_serve_iff (fun _ => none) haccounted _).mp fun next hnext =>
    halways next hnext
  have hreads : (NameList.init [] "bob.json" '.').head? = some "bob" := by
    decide +kernel
  rcases hknown with hlocked | hknown
  · exact Bool.false_ne_true hlocked
  · have hbob := hknown "bob" hreads
    rw [start, contains_init] at hbob
    rcases hbob with hstem | ⟨dir, hdir, _⟩
    · exact absurd hstem List.not_mem_nil
    · exact absurd hdir.symm (Option.some_ne_none dir)

end AuthHistory

end Hat.AuthManager
