import Hat.Core.Machine
import Hat.Core.Pathname
import Hat.Manager.InstalledProgram

/-!
# The program across a restart

The name of the current program is kept in a text file.  The engine reads that file as the
words of it without the blanks, and a restart reads its first word, so the file stands for the
program in force as long as the name is one word.
-/

namespace Hat

open Hat.Hsrv

namespace FileManager

/-- No character of the name is white space. -/
def Blankless (name : String) : Prop := ∀ c ∈ name.toList, isSpace c = false

instance (name : String) : Decidable (Blankless name) :=
  decidable_of_iff ((name.toList.all fun c => !isSpace c) = true) (by simp [Blankless])

/-- What the extraction operator reads first. -/
def firstWord (text : String) : String := String.ofList ((words text).headD [])

/-- The words that end before the text does: those that `readFile` does not forget. -/
def completeWords (text : String) : List (List Char) :=
  match text.toList.getLast? with
  | some c => if isSpace c then words text else (words text).dropLast
  | none => words text

/-- The text has one complete word, or no word at all. -/
def OneWord (text : String) : Prop := (completeWords text).length = 1 ∨ words text = []

instance (text : String) : Decidable (OneWord text) := inferInstanceAs (Decidable (_ ∨ _))

theorem mem_words {text : String} {word : List Char} (hmem : word ∈ words text) :
    word ≠ [] ∧ ∀ c ∈ word, isSpace c = false := by
  obtain ⟨hpiece, hne⟩ := List.mem_filter.mp hmem
  exact ⟨of_decide_eq_true hne, Pathname.eq_false_of_mem_splitOnP word hpiece⟩

theorem readFile_eq (text : String) :
    readFile text = String.ofList (completeWords text).flatten := by
  rw [readFile, completeWords]
  cases text.toList.getLast? with
  | none => rfl
  | some c => cases hspace : isSpace c <;> simp [hspace]

theorem completeWords_isPrefixOf (text : String) : completeWords text <+: words text := by
  rw [completeWords]
  split
  · split
    · exact List.prefix_refl _
    · exact List.dropLast_prefix _
  · exact List.prefix_refl _

/-- What is read back holds no white space. -/
theorem blankless_readFile (text : String) : Blankless (readFile text) := by
  intro c hc
  rw [readFile_eq, String.toList_ofList] at hc
  obtain ⟨word, hword, hmem⟩ := List.mem_flatten.mp hc
  exact (mem_words ((completeWords_isPrefixOf text).subset hword)).2 c hmem

/-- What is read of a file that may be missing. -/
theorem blankless_getD_readFile (text : Option String) :
    Blankless ((text.map readFile).getD "") := by
  cases text with
  | none => exact fun c hc => absurd hc List.not_mem_nil
  | some text => exact blankless_readFile text

/-- The two readers agree exactly on texts of one word. -/
theorem readFile_eq_firstWord_iff (text : String) :
    readFile text = firstWord text ↔ OneWord text := by
  rw [readFile_eq, firstWord, String.ofList_inj, OneWord]
  obtain ⟨rest, hrest⟩ := completeWords_isPrefixOf text
  cases hwords : words text with
  | nil =>
      rw [hwords] at hrest
      rw [(List.append_eq_nil_iff.mp hrest).1]
      simp
  | cons first others =>
      have hfirst : first ≠ [] := (mem_words (hwords ▸ List.mem_cons_self)).1
      rw [hwords] at hrest
      cases hcomplete : completeWords text with
      | nil => simpa using hfirst.symm
      | cons word more =>
          rw [hcomplete, List.cons_append, List.cons.injEq] at hrest
          obtain ⟨rfl, hmore⟩ := hrest
          cases more with
          | nil => simp
          | cons second more =>
              have hsecond : second ≠ [] := by
                have hmem : second ∈ words text := by
                  rw [hwords, ← hmore]
                  simp
                exact (mem_words hmem).1
              simp [hsecond]

theorem words_saveFile {name : String} (hname : Blankless name) :
    words (saveFile name) = if name = "" then [] else [name.toList] := by
  have hchars : (saveFile name).toList = name.toList ++ '\n' :: [] := by
    rw [saveFile, String.toList_append]
    rfl
  rw [words, hchars, List.splitOnP_append_cons_of_forall_mem hname '\n' (by decide)]
  by_cases hempty : name = ""
  · subst hempty
    rfl
  · have hne : name.toList ≠ [] := fun h => hempty (String.toList_eq_nil_iff.mp h)
    simp [hempty, hne]

theorem firstWord_saveFile {name : String} (hname : Blankless name) :
    firstWord (saveFile name) = name := by
  rw [firstWord, words_saveFile hname]
  split
  · rename_i hempty
    rw [hempty]
    rfl
  · exact String.ofList_toList

theorem oneWord_saveFile {name : String} (hname : Blankless name) : OneWord (saveFile name) := by
  have hlast : (saveFile name).toList.getLast? = some '\n' := by
    rw [saveFile, String.toList_append]
    exact List.getLast?_concat
  have hcomplete : completeWords (saveFile name) = words (saveFile name) := by
    rw [completeWords, hlast]
    rfl
  rw [OneWord, hcomplete, words_saveFile hname]
  split
  · exact .inr rfl
  · exact .inl rfl

/-- A name is read back exactly when it has no white space. -/
theorem readFile_saveFile_iff (name : String) :
    readFile (saveFile name) = name ↔ Blankless name := by
  constructor
  · intro hread
    rw [← hread]
    exact blankless_readFile _
  · intro hname
    rw [(readFile_eq_firstWord_iff _).mpr (oneWord_saveFile hname), firstWord_saveFile hname]

end FileManager

open FileManager

namespace Program

theorem loadCurrent_eq {home : HomeDir} {text : String} (h : home.currentp = some text) :
    loadCurrent home = load home (firstWord text) := by
  rw [loadCurrent, h]
  rfl

/-- A program is loaded from the program directory alone. -/
theorem load_congr {home other : HomeDir} (h : home.programs = other.programs) (fname : String) :
    load home fname = load other fname := by
  rw [load, load, h]

/-- The text that names the current program after the installation. -/
def startText (prg : String) (home : HomeDir) : String :=
  home.currentp.getD (saveFile (if prg = "" then "OFF" else prg))

theorem currentp_addFile (name : String) (file : ProgramFile) (home : HomeDir) :
    (addFile name file home).currentp = home.currentp := by
  rw [addFile]
  split <;> rfl

theorem currentp_install (prg : String) (home : HomeDir) :
    (install prg home).currentp = some (startText prg home) := by
  rw [install, startText]
  split
  · rename_i hsome
    simp only [currentp_addFile] at hsome ⊢
    obtain ⟨text, htext⟩ := Option.isSome_iff_exists.mp hsome
    rw [htext]
    rfl
  · rename_i hnone
    simp only [currentp_addFile, Option.not_isSome_iff_eq_none] at hnone
    rw [hnone]
    rfl

end Program

namespace ProgramEngine

/-- The file that names the current program is read as the program in force, and a restart
loads that program with its days. -/
def Restartable (engine : ProgramEngine) : Prop :=
  readCurrent engine.home = engine.program.current ∧
    Program.loadCurrent engine.home = engine.program

/-- A command that names a file of the program directory names one without white space. -/
def NamesOneWord (engine : ProgramEngine) (turn : Turn) : Prop :=
  IsSetprogram turn.2 → requested turn.2 ∈ fileList engine.home.programs →
    Blankless (requested turn.2)

instance (engine : ProgramEngine) (turn : Turn) : Decidable (engine.NamesOneWord turn) :=
  inferInstanceAs (Decidable (_ ∧ _ → _ → _))

/-! ## What a turn does to the program and its files -/

theorem home_programNotify (env : Env) (change : Bool) (engine : ProgramEngine) :
    (engine.programNotify env change).2.1.home = engine.home := by
  rw [programNotify]
  split <;> rfl

theorem home_start (env : Env) (engine : ProgramEngine) :
    (engine.start env).1.home = engine.home :=
  home_programNotify env true engine

theorem program_start (env : Env) (engine : ProgramEngine) :
    (engine.start env).1.program = engine.program :=
  program_programNotify env true engine

/-- Only commands touch the program and its files. -/
theorem next_of_not_setprogram {turn : Turn} (h : ¬ IsSetprogram turn.2)
    (engine : ProgramEngine) :
    (engine.next turn).home = engine.home ∧ (engine.next turn).program = engine.program := by
  have hset : ¬ (turn.2.mtype = "cmd" ∧ turn.2.msubtype = "setprogram") := h
  by_cases hupdate : turn.2.mtype = "trigger" ∧ turn.2.msubtype = "prgupdate"
  · rw [next, doWork, if_pos hupdate]
    exact ⟨home_programNotify _ _ _, program_programNotify _ _ _⟩
  · rw [next, doWork, if_neg hupdate, if_neg hset]
    split
    · split <;> exact ⟨rfl, rfl⟩
    · exact ⟨rfl, rfl⟩

theorem next_of_setprogram {turn : Turn} (h : IsSetprogram turn.2) (engine : ProgramEngine) :
    (engine.next turn).home = (engine.setprogram turn.2).2.home ∧
      (engine.next turn).program = (engine.setprogram turn.2).2.program := by
  have hother : ¬ (turn.2.mtype = "trigger" ∧ turn.2.msubtype = "prgupdate") :=
    not_isPrgupdate_of_isSetprogram h
  have hset : turn.2.mtype = "cmd" ∧ turn.2.msubtype = "setprogram" := h
  rw [next, doWork, if_neg hother, if_pos hset]
  exact ⟨home_programNotify _ _ _, program_programNotify _ _ _⟩

theorem blankless_restored (home : HomeDir) : Blankless (restored home) := by
  rw [restored]
  split
  · exact blankless_getD_readFile home.swappedout
  · decide

/-- A command changes nothing, or makes a program the current one: OFF, the one that is swapped
in, or the file that it names. -/
theorem setprogram_cases (msg : MMessage) (engine : ProgramEngine) :
    ((engine.setprogram msg).2 = engine ∧ (requested msg ∈ fileList engine.home.programs →
        requested msg = "")) ∨
      ∃ prog swapped, (engine.setprogram msg).2 = engine.change prog swapped ∧
        (Blankless prog ∧ Blankless (requested msg) ∨
          prog = requested msg ∧ prog ∈ fileList engine.home.programs) := by
  simp only [setprogram]
  split
  · rename_i hswitch
    have hrequested : Blankless (requested msg) := by
      rw [hswitch]
      decide
    split
    · exact .inr ⟨_, _, rfl, .inl ⟨by decide, hrequested⟩⟩
    · exact .inr ⟨_, _, rfl, .inl ⟨blankless_restored _, hrequested⟩⟩
  · split
    · rename_i hon
      have hrequested : Blankless (requested msg) := by
        rw [hon.1]
        decide
      exact .inr ⟨_, _, rfl, .inl ⟨blankless_restored _, hrequested⟩⟩
    · split
      · rename_i hfile
        exact .inr ⟨_, _, rfl, .inr ⟨rfl, hfile.2⟩⟩
      · rename_i hnone
        refine .inl ⟨rfl, fun hmem => ?_⟩
        by_contra hne
        exact hnone ⟨hne, hmem⟩

theorem restartable_change_iff (prog : String) (swapped : Option String)
    (engine : ProgramEngine) : (engine.change prog swapped).Restartable ↔ Blankless prog := by
  have hcurrentp : (replaceCurrent prog swapped engine.home).currentp = some (saveFile prog) := rfl
  rw [Restartable, ← readFile_saveFile_iff, change]
  dsimp only
  rw [Program.loadCurrent_eq hcurrentp, readCurrent, hcurrentp]
  refine and_iff_left_of_imp fun hread => ?_
  rw [firstWord_saveFile ((readFile_saveFile_iff prog).mp hread)]

theorem restartable_congr {engine other : ProgramEngine} (hhome : other.home = engine.home)
    (hprogram : other.program = engine.program) : other.Restartable ↔ engine.Restartable := by
  rw [Restartable, Restartable, hhome, hprogram]

/-- A turn keeps the program and its file together exactly when it names one word. -/
theorem restartable_next_iff {engine : ProgramEngine} (h : engine.Restartable) (turn : Turn) :
    (engine.next turn).Restartable ↔ engine.NamesOneWord turn := by
  by_cases hset : IsSetprogram turn.2
  · obtain ⟨hhome, hprogram⟩ := next_of_setprogram hset engine
    rw [restartable_congr hhome hprogram]
    rcases setprogram_cases turn.2 engine with ⟨hsame, hempty⟩ | ⟨prog, swapped, hchange, hprog⟩
    · rw [hsame]
      refine iff_of_true h fun _ hmem => ?_
      rw [hempty hmem]
      exact fun c hc => absurd hc List.not_mem_nil
    · rw [hchange, restartable_change_iff]
      rcases hprog with ⟨hprog, hrequested⟩ | ⟨rfl, hmem⟩
      · exact iff_of_true hprog fun _ _ => hrequested
      · exact ⟨fun hblankless _ _ => hblankless, fun hnames => hnames hset hmem⟩
  · obtain ⟨hhome, hprogram⟩ := next_of_not_setprogram hset engine
    rw [restartable_congr hhome hprogram]
    exact iff_of_true h fun hcommand => absurd hcommand hset

theorem restartable_start_iff (startprg : String) (home : HomeDir) (env : Env) :
    ((new startprg home).start env).1.Restartable ↔ OneWord (Program.startText startprg home) := by
  have hcurrentp := Program.currentp_install startprg home
  have hhome := home_start env (new startprg home)
  have hprogram := program_start env (new startprg home)
  rw [restartable_congr hhome hprogram, Restartable, ← readFile_eq_firstWord_iff, new]
  dsimp only
  rw [and_iff_left rfl, Program.loadCurrent_eq hcurrentp, readCurrent, hcurrentp]
  rfl

/-- In a run from the start of the engine the file of the current program stands for it in every
state exactly when the text at the start has one word and every program that is named is one. -/
theorem restartable_iff_namesOneWord (startprg : String) (home : HomeDir) (env : Env)
    (turns : List Turn) :
    Machine.Always (Machine.total next) Restartable ((new startprg home).start env).1 turns ↔
      OneWord (Program.startText startprg home) ∧
        Machine.Along (Machine.total next) NamesOneWord ((new startprg home).start env).1
          turns := by
  rw [← restartable_start_iff startprg home env]
  have hsteps : ∀ engine turn, True → engine.Restartable →
      ((∀ after, Machine.total next engine turn = some after → after.Restartable) ↔
        engine.NamesOneWord turn) := by
    intro engine turn _ hengine
    rw [← restartable_next_iff hengine turn]
    simp [Machine.total]
  have hiff : ∀ engine : ProgramEngine, engine.Restartable →
      (Machine.Always (Machine.total next) Restartable engine turns ↔
        Machine.Along (Machine.total next) NamesOneWord engine turns) := by
    intro engine hengine
    exact Machine.always_iff_along (I := fun _ => True) (fun _ _ _ _ _ => trivial) hsteps turns
      trivial hengine
  constructor
  · intro halways
    have hstart := ((Machine.always_iff_along_next _ _).mp halways).1
    exact ⟨hstart, (hiff _ hstart).mp halways⟩
  · rintro ⟨hstart, hnames⟩
    exact (hiff _ hstart).mpr hnames

/-- A home directory with a program whose name has a blank. -/
def nightHome : HomeDir := ⟨[("Night mode", Program.installedFile ["LIGHTS"])], none, none, none⟩

def selectProgram (name : String) : MMessage :=
  (MMessage.mk2 "cmd" "setprogram").add "program" name

/-- After its selection a restart would look for a program Night. -/
theorem not_restartable_night :
    ¬ Machine.Always (Machine.total next) Restartable
      ((new "OFF" nightHome).start noonHalf).1 [(noonHalf, selectProgram "Night mode")] := by
  rintro ⟨hstart, hrest⟩
  have hnext := hrest _ rfl
  have hnames := (restartable_next_iff hstart (noonHalf, selectProgram "Night mode")).mp hnext
  have hmem : requested (selectProgram "Night mode") ∈
      fileList ((new "OFF" nightHome).start noonHalf).1.home.programs := by
    decide +kernel
  have hcommand : IsSetprogram (selectProgram "Night mode") := ⟨rfl, rfl⟩
  have hblankless := hnames hcommand hmem
  exact absurd hblankless (by decide +kernel)

end ProgramEngine

end Hat
