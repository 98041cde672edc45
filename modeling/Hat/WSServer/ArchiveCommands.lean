import Hat.Core.Machine
import Hat.Minilibs.ArchiveDays
import Hat.WSServer.ArchiveThread

/-!
# Archive commands and the day of the thread

An archive command is appended to the data file of its class and feature when the date of its
`timeofday` is the day of the thread.  That day is read from the clock at the start and at
`archiveupd` triggers only, so a command that follows midnight before the next trigger is
compared with the day before.
-/

namespace Hat

open Hsrv ArchiveManager

namespace ArchiveThread

structure Conf where
  homedir : String
  behaviour : String
  trace : MParams
  disaggregate : MParams

/-- The clock in local dates, the files that can be opened for appending, and what the purge of
the archive makes of the files. -/
structure Surroundings where
  date : ℤ → ArchiveDay
  opens : String → Bool
  purge : (String → String) → String → String

/-- The thread, its files and the messages it has sent.  The clock of the last update is kept
for comparison. -/
structure State where
  now : ℤ
  day : String
  files : String → String
  sent : List MMessage
  refreshed : ℤ

inductive Event
  | tick (seconds : ℕ)
  | receive (msg : MMessage)

variable (conf : Conf) (env : Surroundings)

def isToTrace (feature : String) : Bool :=
  conf.trace.get "all" = "yes" || conf.trace.get feature = "yes"

def isToDisaggregate (cl : String) : Bool :=
  conf.disaggregate.get "all" = "yes" || conf.disaggregate.get cl = "yes"

/-- `none` is the exception of `substr` on a text that is too short. -/
def isInCurrentDay (day daytime : String) : Option Bool :=
  if daytime = "" then some true
  else (substrAt daytime 0 2).bind fun yy => (substrAt daytime 2 2).bind fun mm =>
    (substrAt daytime 4 2).map fun dd => decide (day = "20" ++ yy ++ "_" ++ mm ++ "_" ++ dd)

def dataFile (msg : MMessage) : String :=
  let lfile := conf.homedir ++ "/" ++ msg.getString "class" ++ "/" ++ msg.getString "feature"
  (if isToDisaggregate conf (msg.getString "class") then lfile ++ "/" ++ msg.getString "agent"
    else lfile) ++ "/data"

def mkItem (msg : MMessage) : String :=
  "\x7b" ++ ",".intercalate ((logged msg).map fun entry => entry.1 ++ ":" ++ entry.2) ++ "\x7d"

namespace State

def install (now : ℤ) (files : String → String) : State where
  now := now
  day := (env.date now).text
  files := files
  sent := []
  refreshed := now

/-- The day is stored again, and the archive is purged when it was the day of 900 seconds ago. -/
def update (state : State) : State :=
  let currentday := (env.date state.now).text
  let yesterday := (env.date (state.now - 900)).text
  if currentday = state.day then { state with refreshed := state.now }
  else if yesterday ≠ state.day then { state with day := currentday, refreshed := state.now }
  else { state with
    day := currentday
    files := env.purge state.files
    refreshed := state.now }

/-- Nothing is written when the file cannot be opened. -/
def append (path line : String) (state : State) : State :=
  if env.opens path then
    { state with files := Function.update state.files path (state.files path ++ line) }
  else state

/-- The copy for the clients of the server. -/
def serversend (msg : MMessage) (state : State) : State :=
  let url := state.day ++ "/" ++ msg.getString "class" ++ "/" ++ msg.getString "feature"
  { state with sent := state.sent ++
      [((MMessage.mk2 "rscmd" "serversend").add "url" url).add "item" (mkItem msg)] }

/-- A command for a traced feature, of the current day or not. -/
def archived (msg : MMessage) (current : Bool) (state : State) : State :=
  let written := if current then state.append env (dataFile conf msg) (writelog msg) else state
  if conf.behaviour = "active" then written.serversend msg else written

def archive (msg : MMessage) (state : State) : Option State :=
  if isToTrace conf (msg.getString "feature") then
    (isInCurrentDay state.day (msg.getString "timeofday")).map fun current =>
      state.archived conf env msg current
  else some state

def do_work (state : State) (msg : MMessage) : Option State :=
  if msg.mtype = "trigger" ∧ msg.msubtype = "archiveupd" then some (state.update env)
  else if msg.mtype = "logcmd" ∧ msg.msubtype = "archive" then state.archive conf env msg
  else some state

def step (state : State) : Event → Option State
  | .tick seconds => some { state with now := state.now + seconds }
  | .receive msg => state.do_work conf env msg

/-- The first six characters are the digits of the date. -/
def Carries (today : ArchiveDay) (daytime : String) : Prop :=
  substr daytime.toList 0 6 = digits [today.year % 100, today.mon, today.mday]

instance (today : ArchiveDay) (daytime : String) : Decidable (Carries today daytime) :=
  inferInstanceAs (Decidable (_ = _))

/-- A command for a traced feature, of the date at which it is processed. -/
def Due (state : State) (msg : MMessage) : Prop :=
  msg.mtype = "logcmd" ∧ msg.msubtype = "archive" ∧
    isToTrace conf (msg.getString "feature") = true ∧
      Carries (env.date state.now) (msg.getString "timeofday")

/-- A due command is appended to its file. -/
def Written (state : State) : Event → Prop
  | .receive msg => state.Due conf env msg → ∃ next, state.do_work conf env msg = some next ∧
      next.files (dataFile conf msg) = state.files (dataFile conf msg) ++ writelog msg
  | .tick _ => True

/-- The date of the last update has the digits of today's, in the century that the thread puts
before the year. -/
def UpToDate (state : State) : Prop :=
  (env.date state.refreshed).numbers = 20 :: [(env.date state.now).year % 100,
    (env.date state.now).mon, (env.date state.now).mday]

instance (state : State) : Decidable (state.UpToDate env) := inferInstanceAs (Decidable (_ = _))

def InTime (state : State) : Event → Prop
  | .receive msg => state.Due conf env msg →
      state.UpToDate env ∧ env.opens (dataFile conf msg) = true
  | .tick _ => True

end State

theorem underscored_inj {a b c d a' b' c' d' : ℕ} (h : ∀ n ∈ [a, b, c, d], n < 100)
    (h' : ∀ n ∈ [a', b', c', d'], n < 100) :
    String.ofList (digits [a, b] ++ '_' :: (digits [c] ++ '_' :: digits [d])) =
        String.ofList (digits [a', b'] ++ '_' :: (digits [c'] ++ '_' :: digits [d'])) ↔
      [a, b, c, d] = [a', b', c', d'] := by
  constructor
  · intro htext
    have hchars := String.ofList_injective htext
    obtain ⟨hyear, hrest⟩ := List.append_inj hchars (by simp)
    obtain ⟨hmon, hday⟩ := List.append_inj (List.cons.inj hrest).2 (by simp)
    refine digits_inj h h' ?_
    change digits [a, b] ++ (digits [c] ++ digits [d]) =
      digits [a', b'] ++ (digits [c'] ++ digits [d'])
    rw [hyear, hmon, (List.cons.inj hday).2]
  · intro hnumbers
    simp only [List.cons.injEq, and_true] at hnumbers
    obtain ⟨rfl, rfl, rfl, rfl⟩ := hnumbers
    rfl

/-- A text that carries a date is compared with that date in the years from 2000. -/
theorem isInCurrentDay_of_carries {today : ArchiveDay} {daytime : String}
    (h : State.Carries today daytime) (day : String) :
    isInCurrentDay day daytime = some (decide (day = String.ofList
      (digits [20, today.year % 100] ++
        '_' :: (digits [today.mon] ++ '_' :: digits [today.mday])))) := by
  obtain ⟨rest, hrest⟩ : ∃ rest, daytime.toList =
      digits [today.year % 100, today.mon, today.mday] ++ rest := by
    refine ⟨daytime.toList.drop 6, ?_⟩
    rw [← h]
    exact (List.take_append_drop 6 daytime.toList).symm
  have hlength : 6 ≤ daytime.length := by
    rw [← String.length_toList, hrest, List.length_append, length_digits]
    exact Nat.le_add_right 6 rest.length
  have hne : daytime ≠ "" := by
    rintro rfl
    exact absurd hlength (by decide)
  rw [isInCurrentDay, if_neg hne, substrAt, if_pos (by omega), Option.bind_some, substrAt,
    if_pos (by omega), Option.bind_some, substrAt, if_pos (by omega), Option.map_some, hrest]
  have hdday : "20" ++ String.ofList (substr (digits [today.year % 100, today.mon, today.mday] ++
      rest) 0 2) ++ "_" ++ String.ofList (substr (digits [today.year % 100, today.mon,
        today.mday] ++ rest) 2 2) ++ "_" ++ String.ofList (substr (digits [today.year % 100,
          today.mon, today.mday] ++ rest) 4 2) = String.ofList (digits [20, today.year % 100] ++
      '_' :: (digits [today.mon] ++ '_' :: digits [today.mday])) := by
    refine String.toList_inj.mp ?_
    simp only [String.toList_append, String.toList_ofList]
    rfl
  rw [hdday]

/-! ## Runs -/

namespace State

variable {conf env}

/-- The day is the date of the last update. -/
def DayRead (env : Surroundings) (state : State) : Prop :=
  state.day = (env.date state.refreshed).text

theorem dayRead_update (state : State) : (state.update env).DayRead env := by
  rw [DayRead, update]
  split
  · rename_i hsame
    exact hsame.symm
  · split <;> rfl

@[simp]
theorem day_append (path line : String) (state : State) :
    (state.append env path line).day = state.day := by
  rw [append]
  split <;> rfl

@[simp]
theorem refreshed_append (path line : String) (state : State) :
    (state.append env path line).refreshed = state.refreshed := by
  rw [append]
  split <;> rfl

theorem files_append (path line : String) (state : State) :
    (state.append env path line).files path =
      if env.opens path then state.files path ++ line else state.files path := by
  rw [append]
  split
  · exact Function.update_self path _ _
  · rfl

variable (conf env) in
theorem day_archived (msg : MMessage) (current : Bool) (state : State) :
    (state.archived conf env msg current).day = state.day ∧
      (state.archived conf env msg current).refreshed = state.refreshed := by
  cases current <;> rw [archived] <;> split <;> simp [serversend]

theorem files_archived (msg : MMessage) (current : Bool) (state : State) :
    (state.archived conf env msg current).files (dataFile conf msg) =
      if current ∧ env.opens (dataFile conf msg) then
        state.files (dataFile conf msg) ++ writelog msg
      else state.files (dataFile conf msg) := by
  have hwritten : ((if current = true then state.append env (dataFile conf msg) (writelog msg)
      else state).files (dataFile conf msg)) = if current ∧ env.opens (dataFile conf msg) then
        state.files (dataFile conf msg) ++ writelog msg else state.files (dataFile conf msg) := by
    cases current with
    | false => rfl
    | true =>
        rw [if_pos rfl, files_append]
        simp only [true_and]
  rw [archived]
  split <;> exact hwritten

theorem dayRead_archive {state next : State} {msg : MMessage} (h : state.DayRead env)
    (harchive : state.archive conf env msg = some next) : next.DayRead env := by
  rw [archive] at harchive
  split at harchive
  · obtain ⟨current, -, rfl⟩ := Option.map_eq_some_iff.mp harchive
    obtain ⟨hday, hrefreshed⟩ := day_archived conf env msg current state
    rw [DayRead, hday, hrefreshed]
    exact h
  · cases harchive
    exact h

theorem dayRead_step {state next : State} {event : Event} (h : state.DayRead env)
    (hstep : state.step conf env event = some next) : next.DayRead env := by
  cases event with
  | tick seconds =>
      cases hstep
      exact h
  | receive msg =>
      change state.do_work conf env msg = some next at hstep
      rw [do_work] at hstep
      split at hstep
      · cases hstep
        exact dayRead_update state
      · split at hstep
        · exact dayRead_archive h hstep
        · cases hstep
          exact h

theorem do_work_of_due {state : State} {msg : MMessage} (h : state.Due conf env msg) :
    state.do_work conf env msg = some (state.archived conf env msg
      (decide (state.day = String.ofList (digits [20, (env.date state.now).year % 100] ++
        '_' :: (digits [(env.date state.now).mon] ++
          '_' :: digits [(env.date state.now).mday]))))) := by
  obtain ⟨hmtype, hmsubtype, htrace, hcarries⟩ := h
  have hne : ¬ (msg.mtype = "trigger" ∧ msg.msubtype = "archiveupd") := by
    rw [hmtype]
    exact fun htrigger => absurd htrigger.1 (by decide)
  rw [do_work, if_neg hne, if_pos ⟨hmtype, hmsubtype⟩, archive, if_pos htrace,
    isInCurrentDay_of_carries hcarries, Option.map_some]

theorem append_writelog_ne (content : String) (msg : MMessage) :
    content ++ writelog msg ≠ content := by
  intro h
  have hchars := congrArg String.toList h
  rw [writelog, String.toList_append, String.toList_append] at hchars
  exact absurd (List.append_eq_nil_iff.mp (List.append_right_eq_self.mp hchars)).2 (by decide)

/-- A due command is written exactly when it is in time. -/
theorem written_iff_inTime {state : State} (h : state.DayRead env) (event : Event) :
    state.Written conf env event ↔ state.InTime conf env event := by
  cases event with
  | tick seconds => exact Iff.rfl
  | receive msg =>
      refine forall_congr' fun hdue => ?_
      have hupToDate : state.day = String.ofList (digits [20, (env.date state.now).year % 100] ++
          '_' :: (digits [(env.date state.now).mon] ++
            '_' :: digits [(env.date state.now).mday])) ↔ state.UpToDate env := by
        have hnumbers := (env.date state.now).numbers_lt
        have hstored := (env.date state.refreshed).numbers_lt
        rw [ArchiveDay.numbers] at hnumbers hstored
        rw [h, UpToDate, ArchiveDay.numbers, ArchiveDay.text]
        refine underscored_inj hstored ?_
        rw [List.forall_mem_cons]
        exact ⟨by decide, (List.forall_mem_cons.mp hnumbers).2⟩
      rw [do_work_of_due hdue, ← hupToDate]
      simp only [Option.some.injEq, exists_eq_left', files_archived]
      split
      · rename_i hboth
        exact iff_of_true rfl (hboth.imp_left of_decide_eq_true)
      · rename_i hnot
        refine iff_of_false (append_writelog_ne _ msg).symm fun hboth => hnot ?_
        exact hboth.imp_left decide_eq_true

variable (conf env) in
/-- Every due command of a run is written exactly when every one is in time. -/
theorem written_along_iff (now : ℤ) (files : String → String) (events : List Event) :
    Machine.Along (step conf env) (Written conf env) (install env now files) events ↔
      Machine.Along (step conf env) (InTime conf env) (install env now files) events := by
  refine Machine.along_iff_of_guarded (I := DayRead env)
    (fun state event h => written_iff_inTime h event) ?_ events rfl
  exact fun state event next h _ hstep => dayRead_step h hstep

/-- Everything is traced. -/
def tracing : Conf where
  homedir := "/home/hat"
  behaviour := "*"
  trace := ⟨"params", [⟨"all", "generic", "yes"⟩], none, none⟩
  disaggregate := ⟨"params", [], none, none⟩

/-- A clock that counts the seconds from a midnight in June. -/
def june : Surroundings where
  date time :=
    if time < 0 then ⟨2025, 6, 8, by decide, by decide, by decide⟩
    else ⟨2025, 6, 9, by decide, by decide, by decide⟩
  opens _ := true
  purge files := files

def meterReading : MMessage :=
  ((((MMessage.mk2 "logcmd" "archive").add "class" "power").add "feature" "meter_event").add
    "timeofday" "250609000100").add "value" "250"

/-- One minute after midnight, before the first trigger of the day: the command of the new day
is not written. -/
theorem not_written_after_midnight :
    ¬ Machine.Along (step tracing june) (Written tracing june)
      (install june (-60) fun _ => "") [.tick 120, .receive meterReading] := by
  rintro ⟨-, hrest⟩
  let later : State := { install june (-60) fun _ => "" with now := -60 + (120 : ℕ) }
  have hread : later.DayRead june := rfl
  have hintime := (written_iff_inTime hread (.receive meterReading)).mp (hrest later rfl).1
  have hdue : later.Due tracing june meterReading :=
    ⟨rfl, rfl, by decide +kernel, by decide +kernel⟩
  exact absurd (hintime hdue).1 (by decide +kernel)

end State

end ArchiveThread

end Hat
