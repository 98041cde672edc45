import Hat.WSServer.AuthHistory

/-!
# Deletions and restarts

A deletion erases the user from the table and leaves its file on disk, from which the
next start loads it again.  A run in which deleted users stay away is one that restarts
only while no deleted user has a file and that reads no deleted user.
-/

namespace Hat.AuthManager

open Hat.Guarded Hat.Guarded.Call

inductive Event
  | request (request : Request)
  | restart

/-- The file of a user outlives its entry in the table. -/
theorem onDisk_insert {home : UserDir} {config : Option UserDir} {name : String}
    (h : OnDisk home config name) (file : String) (entry : String × List MAttribute) :
    OnDisk (home.insert file entry) config name := by
  apply h.imp_left
  intro hstem
  obtain ⟨other, hother, hname⟩ := List.mem_map.mp hstem
  obtain ⟨hkey, hhidden⟩ := List.mem_filter.mp hother
  refine List.mem_map.mpr ⟨other, List.mem_filter.mpr ⟨?_, hhidden⟩, hname⟩
  rw [SortedMap.mem_keys_iff_contains] at hkey ⊢
  exact (SortedMap.contains_insert home file other entry).mpr (Or.inr hkey)

theorem onDisk_saveUser {manager : AuthManager} {name : String}
    (h : OnDisk manager.home manager.config name) (saved : String) :
    OnDisk (manager.saveUser saved).home (manager.saveUser saved).config name := by
  unfold saveUser
  split
  · exact onDisk_insert h _ _
  · exact h

theorem onDisk_enable {manager : AuthManager} {name : String}
    (h : OnDisk manager.home manager.config name) (enabled status : String) :
    OnDisk (manager.enable enabled status).home (manager.enable enabled status).config name := by
  unfold enable
  split
  · apply onDisk_saveUser
    exact h
  · exact h

theorem onDisk_init (conf : MParams) {home : UserDir} {config : Option UserDir} {name : String}
    (h : OnDisk home config name) :
    OnDisk (init conf home config).home (init conf home config).config name := by
  have hsaved : ∀ (names : List String) (manager : AuthManager),
      OnDisk manager.home manager.config name →
        OnDisk (names.foldl (fun manager name => manager.saveUser name) manager).home
          (names.foldl (fun manager name => manager.saveUser name) manager).config name := by
    intro names
    induction names with
    | nil => exact fun _ h => h
    | cons first rest ih => exact fun manager h => ih _ (onDisk_saveUser h first)
  exact hsaved _ _ h

variable (readJson : String → Option PTree)

namespace AuthHistory

/-- The process is started again: the lock is free and the table is read from disk. -/
def restart (conf : MParams) (history : AuthHistory) : AuthHistory :=
  let manager := init conf history.service.data.home history.service.data.config
  { history with
    service := ⟨false, manager⟩
    loaded := history.loaded ++ manager.users.keys }

def step (conf : MParams) (history : AuthHistory) : Event → Option AuthHistory
  | .request request => history.serve readJson request
  | .restart => some (history.restart conf)

def StaysDeleted (history : AuthHistory) : Prop :=
  ∀ name ∈ history.deleted, history.service.data.users.contains name = false

/-- A request that gets at the table reads no deleted user, and at a restart no deleted
user has a file. -/
def Undisturbed (history : AuthHistory) : Event → Prop
  | .request request =>
      history.service.locked = true ∨ ∀ name ∈ history.deleted, ¬request.Reads name
  | .restart =>
      ∀ name ∈ history.deleted,
        ¬OnDisk history.service.data.home history.service.data.config name

theorem contains_of_serve {history next : AuthHistory} {request : Request}
    (hserve : history.serve readJson request = some next) {name : String}
    (hname : next.service.data.users.contains name = true) :
    history.service.data.users.contains name = true ∨
      history.service.locked = false ∧ request.Reads name := by
  obtain ⟨hserve, _⟩ := serve_eq_some readJson hserve
  by_cases hlocked : history.service.locked = true
  · rw [serve_of_locked readJson hlocked] at hserve
    rw [← Option.some.inj hserve] at hname
    exact Or.inl hname
  · refine serve_induction readJson (I := fun manager => manager.users.contains name = true →
      history.service.data.users.contains name = true ∨
        history.service.locked = false ∧ request.Reads name) ?_ ?_ ?_ hserve Or.inl hname
    · exact fun erased manager h hcontains =>
        h ((SortedMap.contains_erase _ _ _).mp hcontains).2
    · exact fun other status manager h hcontains =>
        h ((contains_enable other status name manager).symm.trans hcontains)
    · intro read manager hreads h hcontains
      rcases (SortedMap.contains_insertNew _ _ _ _).mp hcontains with rfl | hcontains
      · exact Or.inr ⟨by simpa using hlocked, hreads⟩
      · exact h hcontains

/-- A read keeps the record of deletions and puts its name into the table. -/
theorem serve_of_reads {history : AuthHistory} (hfree : history.service.locked = false)
    {request : Request} {name : String} (hreads : request.Reads name) :
    ∃ next, history.serve readJson request = some next ∧
      (∀ other ∈ history.deleted, other ∈ next.deleted) ∧
      next.service.data.users.contains name = true := by
  have hservice : history.service = ⟨false, history.service.data⟩ := by
    rw [← hfree]
  have hserve := AuthManager.serve_of_reads readJson hreads history.service.data
  rw [← hservice] at hserve
  refine ⟨_, by rw [serve, hserve]; rfl, ?_, ?_⟩
  · intro other hother
    have hnone : additions readJson history.service request = [] := by
      cases request with
      | set params body => exact hreads.elim
      | get params => rfl
      | check params => rfl
    rw [hnone]
    exact List.mem_filter.mpr ⟨List.mem_append_left _ hother, by simp⟩
  · exact (SortedMap.contains_insertNew _ _ _ _).mpr (Or.inl rfl)

/-- One event keeps the deleted users away exactly when it does not disturb them. -/
theorem staysDeleted_step_iff (conf : MParams) {history : AuthHistory}
    (hdeleted : history.StaysDeleted) (event : Event) :
    (∀ next, history.step readJson conf event = some next → next.StaysDeleted) ↔
      history.Undisturbed event := by
  cases event with
  | restart =>
      have hcontains : ∀ name, (history.restart conf).service.data.users.contains name = true ↔
          OnDisk history.service.data.home history.service.data.config name :=
        contains_init conf history.service.data.home history.service.data.config
      constructor
      · intro h name hname hdisk
        have hmissing := h _ rfl name hname
        exact Bool.false_ne_true (hmissing.symm.trans ((hcontains name).mpr hdisk))
      · rintro h next hnext name hname
        rw [← Option.some.inj hnext] at hname ⊢
        rw [← Bool.not_eq_true]
        intro hcontains'
        exact h name hname ((hcontains name).mp hcontains')
  | request request =>
      constructor
      · intro h
        rw [Undisturbed, or_iff_not_imp_left]
        intro hlocked name hname hreads
        obtain ⟨next, hnext, hkept, hcontains⟩ :=
          serve_of_reads readJson (by simpa using hlocked) hreads
        exact Bool.false_ne_true ((h next hnext name (hkept name hname)).symm.trans hcontains)
      · intro h next hnext name hname
        obtain ⟨_, _, _, horigin⟩ := serve_eq_some readJson hnext
        rcases horigin name hname with hname | hmissing
        · rw [← Bool.not_eq_true]
          intro hcontains
          rcases contains_of_serve readJson hnext hcontains with hbefore | ⟨hfree, hreads⟩
          · exact Bool.false_ne_true ((hdeleted name hname).symm.trans hbefore)
          · rcases h with hlocked | hunread
            · exact Bool.false_ne_true (hfree.symm.trans hlocked)
            · exact hunread name hname hreads
        · exact hmissing

/-- The deleted users stay away throughout a run of requests and restarts exactly when no
event of the run disturbs them. -/
theorem staysDeleted_iff (conf : MParams) (home : UserDir) (config : Option UserDir)
    (events : List Event) :
    Machine.Always (step readJson conf) StaysDeleted (start conf home config) events ↔
      Machine.Along (step readJson conf) Undisturbed (start conf home config) events := by
  apply Machine.always_iff_along (I := fun _ => True)
  · intros
    trivial
  · intro history event _ hdeleted
    exact staysDeleted_step_iff readJson conf hdeleted event
  · trivial
  · intro name hname
    exact absurd hname List.not_mem_nil

theorem onDisk_of_serve {history next : AuthHistory} {request : Request}
    (hserve : history.serve readJson request = some next) {name : String}
    (hdisk : OnDisk history.service.data.home history.service.data.config name) :
    OnDisk next.service.data.home next.service.data.config name := by
  obtain ⟨hserve, _⟩ := serve_eq_some readJson hserve
  apply serve_induction readJson (I := fun manager => OnDisk manager.home manager.config name)
    _ _ _ hserve hdisk
  · exact fun _ _ h => h
  · exact fun other status manager h => onDisk_enable h other status
  · exact fun _ _ _ h => h

/-- Whoever has been loaded once has a file for good: after a deletion every start loads
it again. -/
theorem onDisk_of_loaded (conf : MParams) (home : UserDir) (config : Option UserDir)
    {events : List Event} {history : AuthHistory}
    (hexec : Machine.exec (step readJson conf) (start conf home config) events = some history) :
    ∀ name ∈ history.loaded,
      OnDisk history.service.data.home history.service.data.config name := by
  have hinit : ∀ home config name, name ∈ (init conf home config).users.keys →
      OnDisk (init conf home config).home (init conf home config).config name := by
    intro home config name hname
    rw [SortedMap.mem_keys_iff_contains, contains_init] at hname
    exact onDisk_init conf hname
  apply Machine.exec_invariant (I := fun history => ∀ name ∈ history.loaded,
    OnDisk history.service.data.home history.service.data.config name) _ _ hexec
  · intro history event next hloaded hstep
    cases event with
    | request request =>
        obtain ⟨_, hsame, _⟩ := serve_eq_some readJson hstep
        intro name hname
        exact onDisk_of_serve readJson hstep (hloaded name (hsame ▸ hname))
    | restart =>
        obtain rfl := Option.some.inj hstep
        intro name hname
        rcases List.mem_append.mp hname with hname | hname
        · exact onDisk_init conf (hloaded name hname)
        · exact hinit _ _ name hname
  · exact hinit home config

/-- The files of alice and bob. -/
def twoFiles : UserDir :=
  (SortedMap.empty.insert "alice.xml" ("users", (member "alice").attributes)).insert "bob.xml"
    ("users", (member "bob").attributes)

/-- Bob is not in the list, is deleted, and is loaded again at the next start. -/
theorem not_staysDeleted_restart :
    ¬Machine.Always (step readList ⟨"authmanager", [], none, none⟩) StaysDeleted
      (start ⟨"authmanager", [], none, none⟩ twoFiles none)
      [.request (.set ["horus-ws", "Authmanager", "Users.json"] oneUser), .restart] := by
  intro h
  have hrun : ((Machine.exec (step readList ⟨"authmanager", [], none, none⟩)
      (start ⟨"authmanager", [], none, none⟩ twoFiles none)
      [.request (.set ["horus-ws", "Authmanager", "Users.json"] oneUser), .restart]).map
        fun history => (history.deleted, history.service.data.users.contains "bob")) =
      some (["bob"], true) := by
    decide +kernel
  obtain ⟨history, hexec, hbob⟩ := Option.map_eq_some_iff.mp hrun
  obtain ⟨hdeleted, hcontains⟩ := Prod.mk.inj hbob
  have hmissing := h.last hexec "bob" (by rw [hdeleted]; exact List.mem_singleton_self _)
  exact Bool.false_ne_true (hmissing.symm.trans hcontains)

end AuthHistory

end Hat.AuthManager
