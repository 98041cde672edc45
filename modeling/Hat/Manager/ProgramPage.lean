import Hat.Manager.ProgramRestart
import Mathlib.Data.List.Induction

/-!
# The status page of the program engine

The page with the program in force and its active list is made at the start, and again at a
`checkcycle` trigger if the last command or time update before it has notified a change.
-/

namespace Hat

open Hat.Hsrv

namespace ProgramEngine

def statusUrls : List String := ["/programstatus.xml", "/programstatus"]

/-- The registered pages show this program and this active list. -/
def PageShows (engine : ProgramEngine) (status : String × List String) : Prop :=
  ∀ url ∈ statusUrls, ∃ page, engine.urlindex.find? url = some page ∧
    page.getString "active_program" = status.1 ∧ page.getList "active_actions" = status.2

/-- The program in force and its active list. -/
def status (engine : ProgramEngine) : String × List String :=
  (engine.program.current, engine.active)

def IsCheckcycle (msg : MMessage) : Prop := msg.mtype = "trigger" ∧ msg.msubtype = "checkcycle"

end ProgramEngine

/-- The engine, and the status that it had when the page was made last. -/
structure PagedEngine where
  engine : ProgramEngine
  shown : String × List String

namespace PagedEngine

open ProgramEngine

def start (env : Env) (engine : ProgramEngine) : PagedEngine where
  engine := (engine.start env).1
  shown := (engine.start env).1.status

/-- A `checkcycle` trigger makes the page when `mod` is set. -/
def next (state : PagedEngine) (turn : Turn) : PagedEngine where
  engine := state.engine.next turn
  shown :=
    if (turn.2.mtype = "trigger" ∧ turn.2.msubtype = "checkcycle") ∧ state.engine.mod = true
    then state.engine.status else state.shown

/-- After a `checkcycle` trigger the page shows the status of the engine. -/
def ShowsStatus (state : PagedEngine) (turn : Turn) : Prop :=
  IsCheckcycle turn.2 → (state.next turn).engine.PageShows (state.next turn).engine.status

/-- A command or time update is met with something to notify. -/
def Notifies (engine : ProgramEngine) (turn : Turn) : Prop :=
  (IsPrgupdate turn.2 ∧ engine.refreshed turn.1 false ≠ none) ∨
    (IsSetprogram turn.2 ∧ (engine.setprogram turn.2).2.refreshed turn.1 true ≠ none)

/-- A message that is neither a command nor a time update. -/
def IsAside (msg : MMessage) : Prop := ¬ IsPrgupdate msg ∧ ¬ IsSetprogram msg

/-- Of the commands and time updates among these messages the last one is met with something to
notify. -/
def EndsNotified (engine : ProgramEngine) (turns : List Turn) : Prop :=
  ∃ earlier turn later, turns = earlier ++ turn :: later ∧
    Notifies (engine.run earlier) turn ∧ ∀ other ∈ later, IsAside other.2

/-- The messages that the engine has had end so, or they leave it with the program and the active
list that it had before them. -/
def Reflected (engine : ProgramEngine) (turns : List Turn) : Prop :=
  EndsNotified engine turns ∨ (engine.run turns).status = engine.status

/-- At every `checkcycle` trigger this holds of the messages since the one before it: `engine` is
the engine as that one has left it, and `since` what it has had since then. -/
def Follows (engine : ProgramEngine) (since : List Turn) : List Turn → Prop
  | [] => True
  | turn :: rest =>
      (IsCheckcycle turn.2 →
        Reflected engine since ∧ Follows (engine.run (since ++ [turn])) [] rest) ∧
      (¬ IsCheckcycle turn.2 → Follows engine (since ++ [turn]) rest)

/-- What is common to the two pages. -/
def statusBody (engine : ProgramEngine) : MMessage :=
  (((MMessage.mk2 "" "").add "active_program" engine.program.current).addList "active_actions"
    engine.active).addList "available_programs" (programNames engine.home)

theorem active_program_statusBody (engine : ProgramEngine) :
    (statusBody engine).getString "active_program" = engine.program.current := by
  rw [statusBody, MMessage.getString_addList_of_ne _ _ (by decide),
    MMessage.getString_addList_of_ne _ _ (by decide)]
  exact MMessage.getString_add_self _ _ _ fun items hitems => nomatch hitems

theorem active_actions_statusBody (engine : ProgramEngine) :
    (statusBody engine).getList "active_actions" = engine.active := by
  have hsame : (statusBody engine).getList "active_actions" = (((MMessage.mk2 "" "").add
      "active_program" engine.program.current).addList "active_actions" engine.active).getList
        "active_actions" := by
    rw [statusBody, MMessage.getList, MMessage.getList,
      MMessage.find?_addList_of_ne _ _ (by decide)]
  rw [hsame]
  refine MMessage.getList_addList_self _ ?_
  rw [MMessage.find?_add_of_ne _ _ (by decide)]
  rfl

/-- The page is read back as what it is made of. -/
theorem pageShows_makeStatusPage (engine : ProgramEngine) :
    engine.makeStatusPage.PageShows engine.status := by
  intro url hurl
  rw [makeStatusPage]
  dsimp only
  rcases List.mem_cons.mp hurl with rfl | hurl
  · refine ⟨(statusBody engine).add "language" "xml", ?_, ?_, ?_⟩
    · rw [SortedMap.find?_insert_of_ne _ _ (by decide), SortedMap.find?_insert_self]
      rfl
    · rw [MMessage.getString_add_of_ne _ _ (by decide)]
      exact active_program_statusBody engine
    · rw [MMessage.getList_add_of_ne _ _ (by decide)]
      exact active_actions_statusBody engine
  · rw [List.mem_singleton.mp hurl]
    refine ⟨((statusBody engine).add "language" "xml").add "language" "html", ?_, ?_, ?_⟩
    · rw [SortedMap.find?_insert_self]
      rfl
    · rw [MMessage.getString_add_of_ne _ _ (by decide),
        MMessage.getString_add_of_ne _ _ (by decide)]
      exact active_program_statusBody engine
    · rw [MMessage.getList_add_of_ne _ _ (by decide), MMessage.getList_add_of_ne _ _ (by decide)]
      exact active_actions_statusBody engine

theorem PageShows.unique {engine : ProgramEngine} {first second : String × List String}
    (hfirst : engine.PageShows first) : engine.PageShows second ↔ first = second := by
  constructor
  · intro hsecond
    have hurl : "/programstatus" ∈ statusUrls := by
      decide
    obtain ⟨page, hpage, hprogram, hactions⟩ := hfirst _ hurl
    obtain ⟨other, hother, hprogram', hactions'⟩ := hsecond _ hurl
    rw [hpage] at hother
    cases hother
    exact Prod.ext (hprogram.symm.trans hprogram') (hactions.symm.trans hactions')
  · rintro rfl
    exact hfirst

theorem urlindex_programNotify (env : Env) (change : Bool) (engine : ProgramEngine) :
    (engine.programNotify env change).2.1.urlindex = engine.urlindex := by
  rw [programNotify]
  split <;> rfl

theorem urlindex_setprogram (msg : MMessage) (engine : ProgramEngine) :
    (engine.setprogram msg).2.urlindex = engine.urlindex := by
  rcases setprogram_cases msg engine with ⟨hsame, -⟩ | ⟨prog, swapped, hchange, -⟩
  · rw [hsame]
  · rw [hchange]
    rfl

/-- Only `checkcycle` triggers touch the pages. -/
theorem urlindex_next {turn : Turn} (h : ¬ IsCheckcycle turn.2) (engine : ProgramEngine) :
    (engine.next turn).urlindex = engine.urlindex := by
  have hcheck : ¬ (turn.2.mtype = "trigger" ∧ turn.2.msubtype = "checkcycle") := h
  rw [ProgramEngine.next, doWork]
  split
  · exact urlindex_programNotify _ _ _
  · split
    · exact (urlindex_programNotify _ _ _).trans (urlindex_setprogram _ _)
    · rfl

theorem next_checkcycle {turn : Turn} (h : IsCheckcycle turn.2) (engine : ProgramEngine) :
    engine.next turn = if engine.mod then engine.makeStatusPage else engine := by
  have hupdate : ¬ (turn.2.mtype = "trigger" ∧ turn.2.msubtype = "prgupdate") := by
    rintro ⟨-, hsubtype⟩
    exact absurd (h.2.symm.trans hsubtype) (by decide)
  have hset : ¬ (turn.2.mtype = "cmd" ∧ turn.2.msubtype = "setprogram") := by
    rintro ⟨htype, -⟩
    exact absurd (h.1.symm.trans htype) (by decide)
  have hcheck : turn.2.mtype = "trigger" ∧ turn.2.msubtype = "checkcycle" := h
  rw [ProgramEngine.next, doWork, if_neg hupdate, if_neg hset, if_pos hcheck]

/-- The page shows the status with which it was made. -/
def Kept (state : PagedEngine) : Prop := state.engine.PageShows state.shown

theorem kept_next {state : PagedEngine} (h : state.Kept) (turn : Turn) :
    (state.next turn).Kept := by
  by_cases hcheck : IsCheckcycle turn.2
  · have hturn : turn.2.mtype = "trigger" ∧ turn.2.msubtype = "checkcycle" := hcheck
    rw [Kept, next]
    dsimp only
    rw [next_checkcycle hcheck]
    cases hmod : state.engine.mod with
    | true =>
        rw [if_pos rfl, if_pos ⟨hturn, rfl⟩]
        exact pageShows_makeStatusPage state.engine
    | false =>
        rw [if_neg Bool.false_ne_true, if_neg fun hboth => Bool.false_ne_true hboth.2]
        exact h
  · have hnot : ¬ ((turn.2.mtype = "trigger" ∧ turn.2.msubtype = "checkcycle") ∧
        state.engine.mod = true) := fun hboth => hcheck hboth.1
    rw [Kept, next, PageShows]
    dsimp only
    rw [urlindex_next hcheck, if_neg hnot]
    exact h

theorem kept_start (env : Env) (engine : ProgramEngine) : (start env engine).Kept :=
  pageShows_makeStatusPage (engine.programNotify env true).2.1

/-! ## The messages since a trigger -/

theorem run_concat (engine : ProgramEngine) (turns : List Turn) (turn : Turn) :
    engine.run (turns ++ [turn]) = (engine.run turns).next turn := by
  rw [run, List.foldl_append]
  rfl

/-- A command or time update leaves `mod` with whether it was met with something to notify. -/
theorem mod_next_iff {turn : Turn} (h : ¬ IsAside turn.2) (engine : ProgramEngine) :
    (engine.next turn).mod = true ↔ Notifies engine turn := by
  have hmod : ∀ (change : Bool) (engine : ProgramEngine),
      (engine.programNotify turn.1 change).1 = true ↔ engine.refreshed turn.1 change ≠ none := by
    intro change engine
    rw [programNotify]
    split
    · next hsome => simp [hsome]
    · next hnone => simp [hnone]
  by_cases hupdate : IsPrgupdate turn.2
  · have hset : ¬ IsSetprogram turn.2 := fun hset => not_isPrgupdate_of_isSetprogram hset hupdate
    have hturn : turn.2.mtype = "trigger" ∧ turn.2.msubtype = "prgupdate" := hupdate
    rw [Notifies, ProgramEngine.next, doWork, if_pos hturn]
    simp only [hupdate, hset, true_and, false_and, or_false]
    exact hmod false engine
  · have hset : IsSetprogram turn.2 := not_not.mp fun hset => h ⟨hupdate, hset⟩
    have hturn : turn.2.mtype = "cmd" ∧ turn.2.msubtype = "setprogram" := hset
    have hother : ¬ (turn.2.mtype = "trigger" ∧ turn.2.msubtype = "prgupdate") := hupdate
    rw [Notifies, ProgramEngine.next, doWork, if_neg hother, if_pos hturn]
    simp only [hupdate, hset, true_and, false_and, false_or]
    exact hmod true (engine.setprogram turn.2).2

theorem mod_next_of_isAside {turn : Turn} (h : IsAside turn.2) (engine : ProgramEngine) :
    (engine.next turn).mod = engine.mod := by
  have hupdate : ¬ (turn.2.mtype = "trigger" ∧ turn.2.msubtype = "prgupdate") := h.1
  have hset : ¬ (turn.2.mtype = "cmd" ∧ turn.2.msubtype = "setprogram") := h.2
  rw [ProgramEngine.next, doWork, if_neg hupdate, if_neg hset]
  split
  · dsimp only
    split <;> rfl
  · rfl

theorem status_next_of_isAside {turn : Turn} (h : IsAside turn.2) (engine : ProgramEngine) :
    (engine.next turn).status = engine.status := by
  have hcore := (notified_of_other h.1 h.2 engine).2
  rw [core, core, Prod.mk.injEq, Prod.mk.injEq] at hcore
  rw [status, status, hcore.1, hcore.2.2]

theorem endsNotified_concat_iff {turn : Turn} (h : ¬ IsAside turn.2) (engine : ProgramEngine)
    (turns : List Turn) :
    EndsNotified engine (turns ++ [turn]) ↔ Notifies (engine.run turns) turn := by
  constructor
  · rintro ⟨earlier, last, later, hsplit, hnotifies, haside⟩
    rcases List.eq_nil_or_concat later with rfl | ⟨later, final, rfl⟩
    · obtain ⟨rfl, hlast⟩ := List.append_inj' hsplit rfl
      rw [List.cons.injEq] at hlast
      exact hlast.1 ▸ hnotifies
    · have hfinal : turns ++ [turn] = (earlier ++ last :: later) ++ [final] := by
        rw [hsplit, List.concat_eq_append, List.append_assoc, List.cons_append]
      obtain ⟨-, hsame⟩ := List.append_inj' hfinal rfl
      rw [List.cons.injEq] at hsame
      exact absurd (haside final (by simp)) (hsame.1 ▸ h)
  · intro hnotifies
    exact ⟨turns, turn, [], rfl, hnotifies, fun other hother => nomatch hother⟩

theorem endsNotified_concat_aside_iff {turn : Turn} (h : IsAside turn.2)
    (engine : ProgramEngine) (turns : List Turn) :
    EndsNotified engine (turns ++ [turn]) ↔ EndsNotified engine turns := by
  constructor
  · rintro ⟨earlier, last, later, hsplit, hnotifies, haside⟩
    rcases List.eq_nil_or_concat later with rfl | ⟨later, final, rfl⟩
    · obtain ⟨-, hlast⟩ := List.append_inj' hsplit rfl
      rw [List.cons.injEq] at hlast
      rw [← hlast.1] at hnotifies
      exact hnotifies.elim (fun hboth => absurd hboth.1 h.1) fun hboth => absurd hboth.1 h.2
    · have hfinal : turns ++ [turn] = (earlier ++ last :: later) ++ [final] := by
        rw [hsplit, List.concat_eq_append, List.append_assoc, List.cons_append]
      obtain ⟨hturns, -⟩ := List.append_inj' hfinal rfl
      exact ⟨earlier, last, later, hturns, hnotifies, fun other hother =>
        haside other (by simp [hother])⟩
  · rintro ⟨earlier, last, later, hsplit, hnotifies, haside⟩
    refine ⟨earlier, last, later ++ [turn], ?_, hnotifies, fun other hother => ?_⟩
    · rw [hsplit, List.append_assoc, List.cons_append]
    · rcases List.mem_append.mp hother with hlater | hturn
      · exact haside other hlater
      · exact List.mem_singleton.mp hturn ▸ h

/-- What the messages leave behind: `mod` says whether the last command or time update was met
with something to notify, and without any of them the status is the one before. -/
theorem mod_or_status_run (engine : ProgramEngine) (turns : List Turn) :
    ((engine.run turns).mod = true ↔ EndsNotified engine turns) ∨
      (engine.run turns).status = engine.status := by
  induction turns using List.reverseRecOn with
  | nil => exact .inr rfl
  | append_singleton turns turn ih =>
      rw [run_concat]
      by_cases haside : IsAside turn.2
      · rw [mod_next_of_isAside haside, status_next_of_isAside haside,
          endsNotified_concat_aside_iff haside]
        exact ih
      · rw [mod_next_iff haside, endsNotified_concat_iff haside]
        exact .inl Iff.rfl

theorem mod_or_same_iff_reflected (engine : ProgramEngine) (turns : List Turn) :
    ((engine.run turns).mod = true ∨ engine.status = (engine.run turns).status) ↔
      Reflected engine turns := by
  rw [Reflected, @eq_comm _ engine.status]
  rcases mod_or_status_run engine turns with hmod | hsame
  · rw [hmod]
  · exact iff_of_true (.inr hsame) (.inr hsame)

/-- When the page was made at the last trigger with the status of then, a trigger leaves it with
the status of the engine exactly when the messages since then are reflected. -/
theorem showsStatus_iff_reflected {state : PagedEngine} (h : state.Kept) {engine : ProgramEngine}
    {since : List Turn} (hengine : state.engine = engine.run since)
    (hshown : state.shown = engine.status) {turn : Turn} (hcheck : IsCheckcycle turn.2) :
    state.ShowsStatus turn ↔ Reflected engine since := by
  rw [← mod_or_same_iff_reflected, ← hengine, ← hshown, ShowsStatus]
  simp only [hcheck, true_imp_iff]
  change (state.engine.next turn).PageShows (state.engine.next turn).status ↔ _
  rw [next_checkcycle hcheck]
  cases hmod : state.engine.mod with
  | true =>
      rw [if_pos rfl]
      exact iff_of_true (pageShows_makeStatusPage state.engine) (.inl rfl)
  | false =>
      rw [if_neg Bool.false_ne_true, PageShows.unique h]
      simp

/-- A trigger after which the page shows the status has made it, or had it made, with that one. -/
theorem shown_next {state : PagedEngine} (h : state.Kept) {turn : Turn}
    (hcheck : IsCheckcycle turn.2) (hshows : state.ShowsStatus turn) :
    (state.next turn).shown = (state.next turn).engine.status :=
  (PageShows.unique (kept_next h turn)).mp (hshows hcheck)

theorem shown_next_of_not {turn : Turn} (hcheck : ¬ IsCheckcycle turn.2) (state : PagedEngine) :
    (state.next turn).shown = state.shown :=
  if_neg fun hboth => hcheck hboth.1

/-- The run lemma: `engine` is as the last trigger has left it, and `since` has come since. -/
theorem showsStatus_along_iff_follows (turns : List Turn) :
    ∀ {state : PagedEngine} {engine : ProgramEngine} {since : List Turn}, state.Kept →
      state.engine = engine.run since → state.shown = engine.status →
        (Machine.Along (Machine.total next) ShowsStatus state turns ↔
          Follows engine since turns) := by
  induction turns with
  | nil => exact fun _ _ _ => Iff.rfl
  | cons turn rest ih =>
      intro state engine since hkept hengine hshown
      have hnext : (state.next turn).engine = engine.run (since ++ [turn]) := by
        rw [run_concat, ← hengine]
        rfl
      have hrest : Machine.Along (Machine.total next) ShowsStatus state (turn :: rest) ↔
          state.ShowsStatus turn ∧
            Machine.Along (Machine.total next) ShowsStatus (state.next turn) rest := by
        refine and_congr_right' ⟨fun h => h _ rfl, fun h after hafter => ?_⟩
        cases hafter
        exact h
      rw [hrest, Follows]
      by_cases hcheck : IsCheckcycle turn.2
      · simp only [hcheck, true_imp_iff, not_true, false_imp_iff, and_true]
        rw [showsStatus_iff_reflected hkept hengine hshown hcheck]
        refine and_congr_right fun hreflected => ih (kept_next hkept turn) hnext ?_
        have hshows := (showsStatus_iff_reflected hkept hengine hshown hcheck).mpr hreflected
        rw [shown_next hkept hcheck hshows, hnext]
      · have hshows : state.ShowsStatus turn := fun h => absurd h hcheck
        simp only [hcheck, hshows, true_and, false_imp_iff, not_false_eq_true, true_imp_iff]
        exact ih (kept_next hkept turn) hnext ((shown_next_of_not hcheck state).trans hshown)

/-- From the start of the engine on, the page shows the status after every `checkcycle` trigger
exactly when at every one the messages since the one before are reflected. -/
theorem showsStatus_along_iff (startprg : String) (home : HomeDir) (env : Env)
    (turns : List Turn) :
    Machine.Along (Machine.total next) ShowsStatus (start env (new startprg home)) turns ↔
      Follows ((new startprg home).start env).1 [] turns :=
  showsStatus_along_iff_follows turns (kept_start env (new startprg home)) rfl rfl

def checkcycle : MMessage := MMessage.mk2 "trigger" "checkcycle"

/-- The program is switched off, a time update finds nothing new, and the page still shows the
program before. -/
theorem not_showsStatus_off :
    ¬ Machine.Along (Machine.total next) ShowsStatus (start noonHalf (new "AUTO" emptyHome))
      [(noonHalf, selectProgram "OFF"), (noonHalf, prgupdate), (noonHalf, checkcycle)] := by
  intro hrun
  have hlast := ((hrun.2 _ rfl).2 _ rfl).1 ⟨rfl, rfl⟩
  obtain ⟨page, hpage, hprogram, -⟩ := hlast "/programstatus" (by decide)
  have hshown : (((((start noonHalf (new "AUTO" emptyHome)).next (noonHalf,
      selectProgram "OFF")).next (noonHalf, prgupdate)).next (noonHalf, checkcycle)).engine.urlindex
        |>.find? "/programstatus").map (fun page => page.getString "active_program") =
          some "AUTO" := by
    decide +kernel
  rw [hpage, Option.map_some, hprogram] at hshown
  exact absurd hshown (by decide +kernel)

end PagedEngine

end Hat
