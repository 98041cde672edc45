import Hat.Manager.ProgramRestart

/-!
# Switching off and on again

The first `_SWITCH` writes the program in force to the swap file and makes OFF the current one;
the second, or `_ON`, brings the program of the swap file back.  What is written there is what
`readFile` makes of the file that names the current program.
-/

namespace Hat

open Hat.Hsrv FileManager

namespace ProgramEngine

/-- The command names no program and is none of the two commands by itself. -/
def IsUnknown (home : HomeDir) (turn : Turn) : Prop :=
  IsSetprogram turn.2 ∧ requested turn.2 ≠ "_SWITCH" ∧ requested turn.2 ≠ "_ON" ∧
    (requested turn.2 = "" ∨ requested turn.2 ∉ fileList home.programs)

/-- The program with its days and the text that names it are the same. -/
def SameProgram (engine after : ProgramEngine) : Prop :=
  after.program = engine.program ∧ after.home.currentp = engine.home.currentp

/-- One `_SWITCH`, unknown programs and the command `back` leave the program as it was. -/
def Restores (engine : ProgramEngine) (back : String) : Prop :=
  ∀ (first last : Turn) (between : List Turn),
    IsSetprogram first.2 → requested first.2 = "_SWITCH" →
      (∀ turn ∈ between, IsUnknown engine.home turn) →
        IsSetprogram last.2 → requested last.2 = back →
          engine.SameProgram (engine.run (first :: between ++ [last]))

/-- The name of the program in force has no white space and is no spelling of off, and the text
that names it is the one that the engine writes. -/
structure Plain (engine : ProgramEngine) : Prop where
  currentp : engine.home.currentp = some (saveFile engine.program.current)
  blankless : Blankless engine.program.current
  ne_empty : engine.program.current ≠ ""
  not_off : isOffName engine.program.current = false

theorem readCurrent_replaceCurrent {prog : String} (hprog : Blankless prog)
    (swapped : Option String) (home : HomeDir) :
    readCurrent (replaceCurrent prog swapped home) = prog :=
  (readFile_saveFile_iff prog).mpr hprog

theorem setprogram_switch_of_on {msg : MMessage} (hswitch : requested msg = "_SWITCH")
    {engine : ProgramEngine} (hon : isOffName (readCurrent engine.home) = false) :
    (engine.setprogram msg).2 =
      engine.change "OFF" (some (saveFile (readCurrent engine.home))) := by
  simp only [setprogram, hswitch, if_true, hon, Bool.not_false]

theorem setprogram_switch_of_off {msg : MMessage} (hswitch : requested msg = "_SWITCH")
    {engine : ProgramEngine} (hoff : isOffName (readCurrent engine.home) = true) :
    (engine.setprogram msg).2 = engine.change (restored engine.home) none := by
  simp only [setprogram, hswitch, if_true, hoff, Bool.not_true, Bool.false_eq_true, if_false]

theorem setprogram_on_of_off {msg : MMessage} (hon : requested msg = "_ON")
    {engine : ProgramEngine} (hoff : isOffName (readCurrent engine.home) = true) :
    (engine.setprogram msg).2 = engine.change (restored engine.home) none := by
  have hne : "_ON" ≠ "_SWITCH" := by
    decide
  simp only [setprogram, hon, if_neg hne, hoff, and_self, if_true]

/-- Without a program of that name a command changes nothing. -/
theorem next_of_unknown {engine : ProgramEngine} {turn : Turn}
    (h : IsUnknown engine.home turn) :
    (engine.next turn).home = engine.home ∧ (engine.next turn).program = engine.program := by
  obtain ⟨hset, hswitch, hon, hnone⟩ := h
  obtain ⟨hhome, hprogram⟩ := next_of_setprogram hset engine
  have hfile : ¬ (requested turn.2 ≠ "" ∧ requested turn.2 ∈ fileList engine.home.programs) := by
    tauto
  have hsame : (engine.setprogram turn.2).2 = engine := by
    simp only [setprogram, if_neg hswitch, hon, false_and, if_false, if_neg hfile]
  rw [hhome, hprogram, hsame]
  exact ⟨rfl, rfl⟩

theorem run_unknown {engine : ProgramEngine} {between : List Turn}
    (h : ∀ turn ∈ between, IsUnknown engine.home turn) :
    (engine.run between).home = engine.home ∧ (engine.run between).program = engine.program := by
  induction between generalizing engine with
  | nil => exact ⟨rfl, rfl⟩
  | cons turn rest ih =>
      obtain ⟨hturn, hrest⟩ := List.forall_mem_cons.mp h
      obtain ⟨hhome, hprogram⟩ := next_of_unknown hturn
      have hnext : ∀ other ∈ rest, IsUnknown (engine.next turn).home other := hhome.symm ▸ hrest
      obtain ⟨hhome', hprogram'⟩ := ih hnext
      exact ⟨hhome'.trans hhome, hprogram'.trans hprogram⟩

/-- The program is what its file makes it. -/
def Loaded (engine : ProgramEngine) : Prop :=
  engine.program = Program.load engine.home engine.program.current

theorem loaded_next {engine : ProgramEngine} (h : engine.Loaded) (turn : Turn) :
    (engine.next turn).Loaded := by
  by_cases hset : IsSetprogram turn.2
  · obtain ⟨hhome, hprogram⟩ := next_of_setprogram hset engine
    rw [Loaded, hhome, hprogram]
    rcases setprogram_cases turn.2 engine with ⟨hsame, -⟩ | ⟨prog, swapped, hchange, -⟩
    · rw [hsame]
      exact h
    · rw [hchange]
      rfl
  · obtain ⟨hhome, hprogram⟩ := next_of_not_setprogram hset engine
    rw [Loaded, hhome, hprogram]
    exact h

theorem loaded_run {engine : ProgramEngine} (h : engine.Loaded) (turns : List Turn) :
    (engine.run turns).Loaded := by
  induction turns generalizing engine with
  | nil => exact h
  | cons turn rest ih => exact ih (loaded_next h turn)

theorem loaded_start (startprg : String) (home : HomeDir) (env : Env) :
    ((new startprg home).start env).1.Loaded := by
  rw [Loaded, home_start, program_start]
  rfl

/-! ## There and back -/

theorem restored_of_swapped {home : HomeDir} {name : String} (hname : Blankless name)
    (hswapped : home.swappedout = some (saveFile name)) :
    restored home = if name ≠ "" ∧ isOffName name = false then name else "MANUAL" := by
  have hread : readSwapped home = name := by
    rw [readSwapped, hswapped]
    exact (readFile_saveFile_iff name).mpr hname
  rw [restored, hread]
  simp only [Bool.not_eq_true']

theorem not_off_restored (home : HomeDir) : isOffName (restored home) = false := by
  rw [restored]
  split
  · rename_i hswapped
    simpa using hswapped.2
  · decide

section ThereAndBack

variable {engine : ProgramEngine} {first : Turn} {between : List Turn}

/-- The files once a `_SWITCH` has led to OFF, whatever unknown names were asked for since. -/
theorem home_away (hon : isOffName (readCurrent engine.home) = false)
    (hfirst : IsSetprogram first.2) (hswitch : requested first.2 = "_SWITCH")
    (hbetween : ∀ turn ∈ between, IsUnknown engine.home turn) :
    ((engine.next first).run between).home =
      replaceCurrent "OFF" (some (saveFile (readCurrent engine.home))) engine.home := by
  obtain ⟨hhome, -⟩ := next_of_setprogram hfirst engine
  rw [setprogram_switch_of_on hswitch hon] at hhome
  have hunknown : ∀ turn ∈ between, IsUnknown (engine.next first).home turn := by
    rw [hhome]
    exact hbetween
  exact (run_unknown hunknown).1.trans hhome

theorem isOffName_away (name : String) (home : HomeDir) :
    isOffName (readCurrent (replaceCurrent "OFF" (some (saveFile name)) home)) = true := by
  rw [readCurrent_replaceCurrent (by decide)]
  rfl

theorem restored_away (hon : isOffName (readCurrent engine.home) = false) :
    restored (replaceCurrent "OFF" (some (saveFile (readCurrent engine.home))) engine.home) =
      if readCurrent engine.home ≠ "" then readCurrent engine.home else "MANUAL" := by
  rw [restored_of_swapped (blankless_getD_readFile engine.home.currentp) rfl]
  change (if readCurrent engine.home ≠ "" ∧ isOffName (readCurrent engine.home) = false
    then readCurrent engine.home else "MANUAL") = _
  simp only [hon, and_true]

/-- What the way there and back makes the current program, when the text did not name a spelling
of off. -/
theorem back_of_on (hon : isOffName (readCurrent engine.home) = false) {last : Turn}
    (hfirst : IsSetprogram first.2) (hswitch : requested first.2 = "_SWITCH")
    (hbetween : ∀ turn ∈ between, IsUnknown engine.home turn) (hlast : IsSetprogram last.2)
    (hback : requested last.2 = "_SWITCH" ∨ requested last.2 = "_ON") :
    ∃ name, name = (if readCurrent engine.home ≠ "" then readCurrent engine.home else "MANUAL") ∧
      (engine.run (first :: between ++ [last])).program = Program.load engine.home name ∧
        (engine.run (first :: between ++ [last])).home.currentp = some (saveFile name) := by
  have haway := home_away hon hfirst hswitch hbetween
  have hoff : isOffName (readCurrent ((engine.next first).run between).home) = true := by
    rw [haway]
    exact isOffName_away _ _
  have hchange : (((engine.next first).run between).setprogram last.2).2 =
      ((engine.next first).run between).change
        (restored ((engine.next first).run between).home) none := by
    rcases hback with hback | hback
    · exact setprogram_switch_of_off hback hoff
    · exact setprogram_on_of_off hback hoff
  have hrun : engine.run (first :: between ++ [last]) =
      ((engine.next first).run between).next last := by
    rw [run, List.cons_append, List.foldl_cons, List.foldl_append]
    rfl
  obtain ⟨hfinal, hprogram⟩ := next_of_setprogram hlast ((engine.next first).run between)
  rw [hchange, haway, restored_away hon] at hfinal hprogram
  refine ⟨_, rfl, ?_, ?_⟩
  · rw [hrun, hprogram]
    refine Program.load_congr ?_ _
    change ((engine.next first).run between).home.programs = engine.home.programs
    rw [haway]
    rfl
  · rw [hrun, hfinal]
    rfl

end ThereAndBack

theorem Plain.readCurrent {engine : ProgramEngine} (h : engine.Plain) :
    readCurrent engine.home = engine.program.current := by
  rw [ProgramEngine.readCurrent, h.currentp]
  exact (readFile_saveFile_iff _).mpr h.blankless

theorem restores_of_plain {engine : ProgramEngine} (hloaded : engine.Loaded)
    (h : engine.Plain) {back : String} (hback : back = "_SWITCH" ∨ back = "_ON") :
    engine.Restores back := by
  intro first last between hfirst hswitch hbetween hlast hlastback
  have hread := h.readCurrent
  have hon : isOffName (ProgramEngine.readCurrent engine.home) = false := by
    rw [hread]
    exact h.not_off
  obtain ⟨name, hname, hprogram, hcurrentp⟩ :=
    back_of_on hon hfirst hswitch hbetween hlast (hlastback ▸ hback)
  rw [hread, if_pos h.ne_empty] at hname
  subst hname
  exact ⟨hprogram.trans hloaded.symm, hcurrentp.trans h.currentp.symm⟩

theorem requested_switch : requested (selectProgram "_SWITCH") = "_SWITCH" := by
  decide +kernel

/-- From a text that names a spelling of off the second `_SWITCH` leads to OFF. -/
theorem current_of_off {engine : ProgramEngine}
    (hoff : isOffName (readCurrent engine.home) = true) {turn : Turn}
    (hset : IsSetprogram turn.2) (hswitch : requested turn.2 = "_SWITCH") :
    (engine.run [turn, turn]).program.current = "OFF" := by
  obtain ⟨hhome, -⟩ := next_of_setprogram hset engine
  rw [setprogram_switch_of_off hswitch hoff] at hhome
  have hon : isOffName (readCurrent (engine.next turn).home) = false := by
    rw [hhome]
    change isOffName (readCurrent (replaceCurrent (restored engine.home) none engine.home)) = false
    rw [readCurrent_replaceCurrent (blankless_restored engine.home)]
    exact not_off_restored engine.home
  obtain ⟨-, hprogram⟩ := next_of_setprogram hset (engine.next turn)
  change ((engine.next turn).next turn).program.current = "OFF"
  rw [hprogram, setprogram_switch_of_on hswitch hon]
  rfl

/-- A `_SWITCH` that can be taken back starts from a text that names no spelling of off. -/
theorem on_of_restores {engine : ProgramEngine} (hcurrent : engine.program.current ≠ "OFF")
    (env : Env) (h : engine.Restores "_SWITCH") : isOffName (readCurrent engine.home) = false := by
  let switch : Turn := (env, selectProgram "_SWITCH")
  have hset : IsSetprogram switch.2 := ⟨rfl, rfl⟩
  have hbetween : ∀ turn ∈ ([] : List Turn), IsUnknown engine.home turn :=
    fun turn hturn => absurd hturn List.not_mem_nil
  obtain ⟨hprogram, -⟩ := h switch switch [] hset requested_switch hbetween hset requested_switch
  by_contra hoff
  have hfinal := current_of_off (eq_true_of_ne_false hoff) hset requested_switch
  change (engine.run [switch, switch]).program = engine.program at hprogram
  rw [hprogram] at hfinal
  exact hcurrent hfinal

theorem plain_of_restores {engine : ProgramEngine} (hcurrent : engine.program.current ≠ "OFF")
    (env : Env) (h : engine.Restores "_SWITCH") : engine.Plain := by
  let switch : Turn := (env, selectProgram "_SWITCH")
  have hset : IsSetprogram switch.2 := ⟨rfl, rfl⟩
  have hbetween : ∀ turn ∈ ([] : List Turn), IsUnknown engine.home turn :=
    fun turn hturn => absurd hturn List.not_mem_nil
  obtain ⟨hprogram, hcurrentp⟩ :=
    h switch switch [] hset requested_switch hbetween hset requested_switch
  have hon := on_of_restores hcurrent env h
  obtain ⟨name, hname, hload, htext⟩ :=
    back_of_on hon hset requested_switch hbetween hset (.inl requested_switch)
  rw [hload] at hprogram
  rw [htext] at hcurrentp
  have hfull : readCurrent engine.home ≠ "" := by
    intro hempty
    rw [hempty] at hname
    rw [readCurrent, ← hcurrentp, hname] at hempty
    exact absurd hempty (by decide +kernel)
  rw [if_pos hfull] at hname
  have hname' : engine.program.current = name := by
    rw [← hprogram]
    rfl
  have hblankless : Blankless name := by
    rw [hname]
    exact blankless_getD_readFile engine.home.currentp
  refine ⟨?_, ?_, ?_, ?_⟩
  · rw [hname']
    exact hcurrentp.symm
  · rw [hname']
    exact hblankless
  · rw [hname', hname]
    exact hfull
  · rw [hname', hname]
    exact hon

/-- In every state that a run from the start reaches, with a program other than OFF: two
`_SWITCH` restore the program, and so does `_ON` after one, exactly when its name is plain. -/
theorem restores_iff_plain (startprg : String) (home : HomeDir) (env : Env) (turns : List Turn)
    (hcurrent : (((new startprg home).start env).1.run turns).program.current ≠ "OFF") :
    ((((new startprg home).start env).1.run turns).Restores "_SWITCH" ∧
      (((new startprg home).start env).1.run turns).Restores "_ON") ↔
        (((new startprg home).start env).1.run turns).Plain := by
  have hloaded := loaded_run (loaded_start startprg home env) turns
  constructor
  · rintro ⟨hswitch, -⟩
    exact plain_of_restores hcurrent env hswitch
  · intro hplain
    exact ⟨restores_of_plain hloaded hplain (.inl rfl), restores_of_plain hloaded hplain (.inr rfl)⟩

/-- After the first start with the program AUTO. -/
theorem restores_auto :
    (((new "AUTO" emptyHome).start noonHalf).1.run []).Restores "_SWITCH" ∧
      (((new "AUTO" emptyHome).start noonHalf).1.run []).Restores "_ON" := by
  have hcurrent : (((new "AUTO" emptyHome).start noonHalf).1.run []).program.current ≠ "OFF" := by
    decide +kernel
  have hplain : (((new "AUTO" emptyHome).start noonHalf).1.run []).Plain :=
    ⟨by decide +kernel, by decide +kernel, by decide +kernel, by decide +kernel⟩
  exact (restores_iff_plain "AUTO" emptyHome noonHalf [] hcurrent).mpr hplain

/-- A program with a blank in its name comes back without it: there is no such program. -/
theorem not_restores_night :
    (((new "OFF" nightHome).start noonHalf).1.run
        [(noonHalf, selectProgram "Night mode")]).program.current = "Night mode" ∧
      ¬ (((new "OFF" nightHome).start noonHalf).1.run
        [(noonHalf, selectProgram "Night mode")]).Restores "_SWITCH" := by
  have hcurrent : (((new "OFF" nightHome).start noonHalf).1.run
      [(noonHalf, selectProgram "Night mode")]).program.current = "Night mode" := by
    decide +kernel
  refine ⟨hcurrent, fun hrestores => ?_⟩
  have hoff : (((new "OFF" nightHome).start noonHalf).1.run
      [(noonHalf, selectProgram "Night mode")]).program.current ≠ "OFF" := by
    rw [hcurrent]
    decide
  have hblankless := (plain_of_restores hoff noonHalf hrestores).blankless
  rw [hcurrent] at hblankless
  exact absurd hblankless (by decide +kernel)

end ProgramEngine

end Hat
