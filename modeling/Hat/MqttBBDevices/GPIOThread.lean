import Hat.Core.Debounce
import Hat.Minilibs.AgentInfo
import Hat.Minilibs.MParams
import Mathlib.Data.Fin.VecNotation
import Mathlib.Data.Fintype.Basic

/-!
# The inputs of the gpio thread

The thread waits for edges of its inputs, reads the level of each input that had one, and
takes it if the time `w` since the last level it has taken for the input is over.  It then
publishes the level and notifies it, except for the first one.
-/

namespace Hat

open Hat.Hsrv

structure Gpio where
  name : String
  gpioname : String
  waitUntil : ℚ
  w : ℚ
  currentValue : String
  deriving DecidableEq

/-- An edge of an input: when it was noticed, and what was read from the file of the value. -/
structure GpioReading where
  env : Env
  buffer : Option (List Char)

/-- What a level that is taken makes known. -/
structure GpioReply where
  notified : Option MMessage
  published : String
  deriving DecidableEq

def getCurrentValue : Option (List Char) → ℤ
  | some buffer => atoi buffer
  | none => -1

def GpioReading.asciivalue (reading : GpioReading) : String :=
  int2a (getCurrentValue reading.buffer)

namespace Gpio

def new (env : Env) (params : MParams) : Gpio :=
  let params := params.load
  let waitfor := params.get "waitfor"
  let currentValue := params.get "currentValue"
  { name := params.get "capename"
    gpioname := params.get "gpioname"
    waitUntil := 0
    w := if waitfor = "" then 1 else a2double env waitfor
    currentValue := if currentValue = "" then params.get "default_value" else currentValue }

def outMess (reading : GpioReading) (gpio : Gpio) : MMessage :=
  ((({ MMessage.blank with mtype := "local_event", msubtype := "update" }.add "gpio"
    gpio.gpioname).add "name" gpio.name).add "value" reading.asciivalue).add "time"
      (double2a reading.env.gettime)

/-- One turn of the loop over the inputs, for an input that had an edge. -/
def serve (reading : GpioReading) (gpio : Gpio) : Gpio × Option GpioReply :=
  let tt := reading.env.gettime
  if gpio.waitUntil ≤ tt ∧ reading.asciivalue ≠ gpio.currentValue then
    ({ gpio with currentValue := reading.asciivalue, waitUntil := tt + gpio.w },
      some ⟨if 0 < gpio.waitUntil then some (gpio.outMess reading) else none, reading.asciivalue⟩)
  else (gpio, none)

def debouncer (gpio : Gpio) : Debouncer ℚ String := ⟨gpio.currentValue, gpio.waitUntil⟩

end Gpio

/-- A level with its time, as it is compared and published. -/
def GpioReading.entry (reading : GpioReading) : ℚ × String :=
  (reading.env.gettime, reading.asciivalue)

/-- The thread with the index of published values, and with what it has notified: the input,
the time and the message. -/
structure GPIOThread (n : ℕ) where
  input : Fin n → Gpio
  page : String → String
  notified : List (Fin n × ℚ × MMessage)

namespace GPIOThread

open Function

variable {n : ℕ}

def serve (thread : GPIOThread n) (turn : Fin n × GpioReading) : GPIOThread n :=
  let served := (thread.input turn.1).serve turn.2
  { input := update thread.input turn.1 served.1
    page := match served.2 with
      | some reply => update thread.page (thread.input turn.1).name reply.published
      | none => thread.page
    notified := thread.notified ++ (served.2.bind GpioReply.notified).toList.map
      fun m => (turn.1, turn.2.env.gettime, m) }

/-- A return of `poll`: the inputs whose `revents` are set, with what is read of them, are
served in their order. -/
def round (thread : GPIOThread n) (ready : Fin n → Option GpioReading) : GPIOThread n :=
  (List.finRange n).foldl
    (fun thread i => match ready i with
      | some reading => thread.serve (i, reading)
      | none => thread) thread

def run (thread : GPIOThread n) (rounds : List (Fin n → Option GpioReading)) : GPIOThread n :=
  rounds.foldl round thread

/-- What `do_work` does before the loop: the level of every input is read and published. -/
def start (gpio : Fin n → Gpio) (buffers : Fin n → Option (List Char)) (page : String → String) :
    GPIOThread n where
  input i := { gpio i with currentValue := int2a (getCurrentValue (buffers i)) }
  page := (List.finRange n).foldl
    (fun page i => update page (gpio i).name (int2a (getCurrentValue (buffers i)))) page
  notified := []

/-- The edges of one input. -/
def readings (rounds : List (Fin n → Option GpioReading)) (i : Fin n) : List GpioReading :=
  rounds.filterMap fun ready => ready i

/-- The turns of the loop in one return of `poll`. -/
def turns (ready : Fin n → Option GpioReading) : List (Fin n × GpioReading) :=
  (List.finRange n).filterMap fun i => (ready i).map fun reading => (i, reading)

def turnsOf (i : Fin n) (all : List (Fin n × GpioReading)) : List GpioReading :=
  all.filterMap fun turn => if turn.1 = i then some turn.2 else none

theorem round_eq (thread : GPIOThread n) (ready : Fin n → Option GpioReading) :
    thread.round ready = (turns ready).foldl serve thread := by
  rw [round, turns]
  induction List.finRange n generalizing thread with
  | nil => rfl
  | cons i rest ih =>
      rw [List.foldl_cons, List.filterMap_cons]
      cases hready : ready i with
      | none => exact ih thread
      | some reading => exact ih (thread.serve (i, reading))

theorem run_eq (thread : GPIOThread n) (rounds : List (Fin n → Option GpioReading)) :
    thread.run rounds = (rounds.flatMap turns).foldl serve thread := by
  induction rounds generalizing thread with
  | nil => rfl
  | cons ready rest ih =>
      rw [run, List.foldl_cons, round_eq, List.flatMap_cons, List.foldl_append]
      exact ih _

/-- Of all inputs, one is asked for once. -/
theorem filterMap_ite_eq (ready : Fin n → Option GpioReading) {i : Fin n} {all : List (Fin n)}
    (hnodup : all.Nodup) : all.filterMap (fun j => if j = i then ready j else none) =
      if i ∈ all then (ready i).toList else [] := by
  induction all with
  | nil => rfl
  | cons j rest ih =>
      obtain ⟨hj, hrest⟩ := List.nodup_cons.mp hnodup
      rw [List.filterMap_cons, ih hrest]
      by_cases hji : j = i
      · subst hji
        rw [if_pos rfl, if_neg hj, if_pos List.mem_cons_self]
        cases ready j <;> rfl
      · rw [if_neg hji]
        exact if_congr (by rw [List.mem_cons, or_iff_right (Ne.symm hji)]) rfl rfl

theorem turnsOf_turns (ready : Fin n → Option GpioReading) (i : Fin n) :
    turnsOf i (turns ready) = (ready i).toList := by
  have hstep : ∀ j, ((ready j).map fun reading => (j, reading)).bind
      (fun turn : Fin n × GpioReading => if turn.1 = i then some turn.2 else none) =
        if j = i then ready j else none := by
    intro j
    cases ready j with
    | none => exact (ite_self none).symm
    | some reading => rfl
  rw [turnsOf, turns, List.filterMap_filterMap]
  simp only [hstep]
  rw [filterMap_ite_eq ready (List.nodup_finRange n), if_pos (List.mem_finRange i)]

theorem turnsOf_flatMap_turns (rounds : List (Fin n → Option GpioReading)) (i : Fin n) :
    turnsOf i (rounds.flatMap turns) = readings rounds i := by
  induction rounds with
  | nil => rfl
  | cons ready rest ih =>
      have happend : turnsOf i (turns ready ++ rest.flatMap turns) =
          turnsOf i (turns ready) ++ turnsOf i (rest.flatMap turns) := List.filterMap_append
      rw [List.flatMap_cons, happend, turnsOf_turns, ih, readings, readings, List.filterMap_cons]
      cases ready i <;> rfl

theorem serve_of_takes {gpio : Gpio} {reading : GpioReading}
    (htakes : gpio.debouncer.Takes reading.entry) :
    gpio.serve reading =
      ({ gpio with
          currentValue := reading.asciivalue
          waitUntil := reading.env.gettime + gpio.w },
        some ⟨if 0 < gpio.waitUntil then some (gpio.outMess reading) else none,
          reading.asciivalue⟩) :=
  if_pos htakes

theorem serve_of_not_takes {gpio : Gpio} {reading : GpioReading}
    (htakes : ¬gpio.debouncer.Takes reading.entry) : gpio.serve reading = (gpio, none) :=
  if_neg htakes

theorem debouncer_serve (reading : GpioReading) (gpio : Gpio) :
    (gpio.serve reading).1.debouncer = gpio.debouncer.read gpio.w reading.entry := by
  rw [Debouncer.read]
  by_cases htakes : gpio.debouncer.Takes reading.entry
  · rw [if_pos htakes, serve_of_takes htakes]
    rfl
  · rw [if_neg htakes, serve_of_not_takes htakes]

theorem name_serve (reading : GpioReading) (gpio : Gpio) :
    (gpio.serve reading).1.name = gpio.name := by
  rw [Gpio.serve]
  split_ifs <;> rfl

theorem w_serve (reading : GpioReading) (gpio : Gpio) : (gpio.serve reading).1.w = gpio.w := by
  rw [Gpio.serve]
  split_ifs <;> rfl

theorem name_input_serve (thread : GPIOThread n) (turn : Fin n × GpioReading) (i : Fin n) :
    ((thread.serve turn).input i).name = (thread.input i).name := by
  by_cases hi : i = turn.1
  · subst hi
    simp only [serve, update_self]
    exact name_serve turn.2 _
  · simp only [serve, update_of_ne hi]

theorem w_input_serve (thread : GPIOThread n) (turn : Fin n × GpioReading) (i : Fin n) :
    ((thread.serve turn).input i).w = (thread.input i).w := by
  by_cases hi : i = turn.1
  · subst hi
    simp only [serve, update_self]
    exact w_serve turn.2 _
  · simp only [serve, update_of_ne hi]

/-! ## Runs -/

variable {thread : GPIOThread n}

theorem turnsOf_cons_self (turn : Fin n × GpioReading) (rest : List (Fin n × GpioReading)) :
    turnsOf turn.1 (turn :: rest) = turn.2 :: turnsOf turn.1 rest := by
  rw [turnsOf, List.filterMap_cons, if_pos rfl]
  rfl

theorem turnsOf_cons_of_ne {turn : Fin n × GpioReading} {i : Fin n} (hi : turn.1 ≠ i)
    (rest : List (Fin n × GpioReading)) : turnsOf i (turn :: rest) = turnsOf i rest := by
  rw [turnsOf, List.filterMap_cons, if_neg hi]
  rfl

theorem debouncer_foldl (all : List (Fin n × GpioReading)) (i : Fin n) :
    ((all.foldl serve thread).input i).debouncer =
      (thread.input i).debouncer.run (thread.input i).w
        ((turnsOf i all).map GpioReading.entry) := by
  induction all generalizing thread with
  | nil => rfl
  | cons turn rest ih =>
      rw [List.foldl_cons, ih, w_input_serve]
      by_cases hi : turn.1 = i
      · subst hi
        simp only [serve, update_self, debouncer_serve, turnsOf_cons_self]
        rfl
      · simp only [serve, update_of_ne (Ne.symm hi), turnsOf_cons_of_ne hi]

/-- Every input has its value on the index. -/
structure Shown (thread : GPIOThread n) : Prop where
  injective : Injective fun i => (thread.input i).name
  page : ∀ i, thread.page (thread.input i).name = (thread.input i).currentValue

theorem Shown.serve (h : Shown thread) (turn : Fin n × GpioReading) :
    Shown (thread.serve turn) := by
  refine ⟨?_, fun i => ?_⟩
  · simp only [name_input_serve]
    exact h.injective
  · rw [name_input_serve]
    by_cases htakes : (thread.input turn.1).debouncer.Takes turn.2.entry
    · simp only [GPIOThread.serve, serve_of_takes htakes]
      by_cases hi : i = turn.1
      · subst hi
        rw [update_self, update_self]
      · rw [update_of_ne hi, update_of_ne fun hname => hi (h.injective hname)]
        exact h.page i
    · simp only [GPIOThread.serve, serve_of_not_takes htakes, update_eq_self]
      exact h.page i

theorem Shown.foldl (h : Shown thread) (all : List (Fin n × GpioReading)) :
    Shown (all.foldl GPIOThread.serve thread) := by
  induction all generalizing thread with
  | nil => exact h
  | cons turn rest ih => exact ih (h.serve turn)

theorem name_input_foldl (all : List (Fin n × GpioReading)) (i : Fin n) :
    ((all.foldl serve thread).input i).name = (thread.input i).name := by
  induction all generalizing thread with
  | nil => rfl
  | cons turn rest ih => rw [List.foldl_cons, ih, name_input_serve]

theorem w_input_foldl (all : List (Fin n × GpioReading)) (i : Fin n) :
    ((all.foldl serve thread).input i).w = (thread.input i).w := by
  induction all generalizing thread with
  | nil => rfl
  | cons turn rest ih => rw [List.foldl_cons, ih, w_input_serve]

/-- The times at which local events of an input were notified. -/
def eventTimes (thread : GPIOThread n) (i : Fin n) : List ℚ :=
  thread.notified.filterMap fun event => if event.1 = i then some event.2.1 else none

theorem eventTimes_serve (turn : Fin n × GpioReading) (i : Fin n) :
    (thread.serve turn).eventTimes i = thread.eventTimes i ++
      if turn.1 = i then (((thread.input turn.1).serve turn.2).2.bind GpioReply.notified).toList.map
        fun _ => turn.2.env.gettime else [] := by
  rw [eventTimes, serve, List.filterMap_append]
  refine congrArg (thread.eventTimes i ++ ·) ?_
  cases ((thread.input turn.1).serve turn.2).2.bind GpioReply.notified with
  | none => simp
  | some m => by_cases hi : turn.1 = i <;> simp [hi]

/-- Local events are notified at some of the times at which the value changes. -/
theorem eventTimes_foldl (all : List (Fin n × GpioReading)) (i : Fin n) :
    ∃ sent, (all.foldl serve thread).eventTimes i = thread.eventTimes i ++ sent ∧
      sent.Sublist (Debouncer.times (thread.input i).w (thread.input i).debouncer
        ((turnsOf i all).map GpioReading.entry)) := by
  induction all generalizing thread with
  | nil => exact ⟨[], (List.append_nil _).symm, List.Sublist.refl []⟩
  | cons turn rest ih =>
      obtain ⟨sent, hsent, hsublist⟩ := @ih (thread.serve turn)
      rw [w_input_serve] at hsublist
      rw [List.foldl_cons, hsent, eventTimes_serve, List.append_assoc]
      by_cases hi : turn.1 = i
      · subst hi
        refine ⟨_, rfl, ?_⟩
        rw [if_pos rfl, turnsOf_cons_self, List.map_cons, Debouncer.times]
        simp only [serve, update_self, debouncer_serve] at hsublist
        by_cases htakes : (thread.input turn.1).debouncer.Takes turn.2.entry
        · rw [if_pos htakes, serve_of_takes htakes]
          have hnotified : ∀ event : Option MMessage,
              (event.toList.map fun _ => turn.2.env.gettime).Sublist [turn.2.env.gettime] := by
            intro event
            cases event with
            | none => exact List.nil_sublist _
            | some m => exact List.Sublist.refl _
          exact (hnotified _).append hsublist
        · rw [if_neg htakes, serve_of_not_takes htakes]
          rw [Debouncer.read, if_neg htakes] at hsublist
          exact hsublist
      · refine ⟨sent, by rw [if_neg hi, List.nil_append], ?_⟩
        simp only [serve, update_of_ne (Ne.symm hi)] at hsublist
        rw [turnsOf_cons_of_ne hi]
        exact hsublist

/-- The edges of an input, with their levels as they are written. -/
def edges (rounds : List (Fin n → Option GpioReading)) (i : Fin n) : List (ℚ × String) :=
  (readings rounds i).map GpioReading.entry

/-- The input has the level and shows it on the index, and any two of its local events are at
least its debounce time apart. -/
structure Converged (thread : GPIOThread n) (i : Fin n) (level : String) : Prop where
  value : (thread.input i).currentValue = level
  page : thread.page (thread.input i).name = level
  rate : (thread.eventTimes i).Pairwise fun earlier later =>
    (thread.input i).w ≤ |later - earlier|

theorem shown_start (gpio : Fin n → Gpio) (hnames : Injective fun i => (gpio i).name)
    (buffers : Fin n → Option (List Char)) (page : String → String) :
    Shown (start gpio buffers page) := by
  refine ⟨hnames, fun i => ?_⟩
  have hloop : ∀ (all : List (Fin n)) (page : String → String), i ∈ all →
      all.foldl (fun page j => update page (gpio j).name (int2a (getCurrentValue (buffers j)))) page
        (gpio i).name = int2a (getCurrentValue (buffers i)) := by
    intro all
    induction all using List.reverseRecOn with
    | nil => exact fun _ hi => absurd hi List.not_mem_nil
    | append_singleton before j ih =>
        intro page hi
        rw [List.foldl_append, List.foldl_cons, List.foldl_nil]
        by_cases hj : i = j
        · subst hj
          rw [update_self]
        · rw [update_of_ne fun hname => hj (hnames hname)]
          refine ih page ((List.mem_append.mp hi).resolve_right fun hlast => hj ?_)
          exact List.mem_singleton.mp hlast
  exact hloop _ page (List.mem_finRange i)

/-- Whatever the edges of the inputs, the thread ends with the physical level of all of them
exactly if the edges of each input are clean: they fall into windows of its debounce time, the
last of which ends at the level that has opened it. -/
theorem converged_iff (gpio : Fin n → Gpio) (hnames : Injective fun i => (gpio i).name)
    (buffers : Fin n → Option (List Char)) (page : String → String)
    (rounds : List (Fin n → Option GpioReading)) :
    (∀ i, ((start gpio buffers page).run rounds).Converged i
        (Debouncer.level (int2a (getCurrentValue (buffers i))) (edges rounds i))) ↔
      ∀ i, Debouncer.Clean (gpio i).w ⟨int2a (getCurrentValue (buffers i)), (gpio i).waitUntil⟩
        (edges rounds i) := by
  refine forall_congr' fun i => ?_
  have hdebouncer := @debouncer_foldl n (start gpio buffers page) (rounds.flatMap turns) i
  obtain ⟨sent, hsent, hsublist⟩ :=
    @eventTimes_foldl n (start gpio buffers page) (rounds.flatMap turns) i
  have hname := @name_input_foldl n (start gpio buffers page) (rounds.flatMap turns) i
  have hshown := (shown_start gpio hnames buffers page).foldl (rounds.flatMap turns)
  rw [← run_eq, turnsOf_flatMap_turns] at hdebouncer
  rw [← run_eq] at hsent hname hshown
  rw [turnsOf_flatMap_turns] at hsublist
  have hvalue : (((start gpio buffers page).run rounds).input i).currentValue =
      (Debouncer.run (gpio i).w ⟨int2a (getCurrentValue (buffers i)), (gpio i).waitUntil⟩
        (edges rounds i)).value := congrArg Debouncer.value hdebouncer
  rw [← Debouncer.value_run_iff, ← hvalue]
  refine ⟨Converged.value, fun hlevel => ⟨hlevel, (hshown.page i).trans hlevel, ?_⟩⟩
  have hw : (((start gpio buffers page).run rounds).input i).w = (gpio i).w := by
    rw [run_eq]
    exact w_input_foldl _ i
  rw [hsent, hw]
  exact (Debouncer.pairwise_times _ _ _).sublist hsublist

/-- Two buttons that are debounced for one second. -/
def buttons : Fin 2 → Gpio :=
  ![⟨"P8_07", "gpio66", 0, 1, ""⟩, ⟨"P8_08", "gpio67", 0, 1, ""⟩]

/-- An edge after some quarters of a second. -/
def edgeAt (quarters : ℕ) (level : String) : GpioReading where
  env := { firstNight with
    gettime := quarters / 4
    gettime_nonneg := div_nonneg (Nat.cast_nonneg quarters) (by decide +kernel) }
  buffer := some level.toList

/-- The first button is pressed, and released two seconds later. -/
def pressed : List (Fin 2 → Option GpioReading) :=
  [![some (edgeAt 40 "1"), none], ![some (edgeAt 48 "0"), none]]

theorem converged_iff_pressed :
    (∀ i, ((start buttons (fun _ => some ['0']) fun _ => "").run pressed).Converged i
        (Debouncer.level (int2a (getCurrentValue (some ['0']))) (edges pressed i))) ↔
      ∀ i, Debouncer.Clean (buttons i).w
        ⟨int2a (getCurrentValue (some ['0'])), (buttons i).waitUntil⟩ (edges pressed i) :=
  converged_iff buttons (by decide +kernel) (fun _ => some ['0']) (fun _ => "") pressed

/-- The first button is touched for half a second. -/
def touched : List (Fin 2 → Option GpioReading) :=
  [![some (edgeAt 40 "1"), none], ![some (edgeAt 42 "0"), none]]

/-- The button stays pressed for the thread. -/
theorem not_converged_touched :
    ¬((start buttons (fun _ => some ['0']) fun _ => "").run touched).Converged 0
      (Debouncer.level (int2a (getCurrentValue (some ['0']))) (edges touched 0)) := by
  intro h
  exact absurd h.value (by decide +kernel)

end GPIOThread

end Hat
