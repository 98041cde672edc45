import Hat.Minilibs.ArchiveConfined
import Hat.Minilibs.ArchiveDays

/-!
# The latest line of the archive

`getLast` should answer with the last line of the latest file of a directory, which is today's
file or else the one with the latest date.  The earlier files are sorted from the oldest to the
newest and the first is taken, and the lines are read up to the first empty one.
-/

namespace Hat

open Hsrv ArchiveManager NameList

/-- The name of today's file, or of the file of an earlier day. -/
def dayFileName : Option ArchiveDay → String
  | none => "data"
  | some day => "data." ++ day.text

/-- Today comes after the days that have a date. -/
def NotAfter : Option ArchiveDay → Option ArchiveDay → Prop
  | _, none => True
  | none, some _ => False
  | some left, some right => left.fields ≤ right.fields

structure IsLatest (files : FileSystem) (dir : String) (day : Option ArchiveDay) : Prop where
  stored : dayFileName day ∈ files.fileList dir
  last : ∀ other, dayFileName other ∈ files.fileList dir → NotAfter other day

/-- A name that the search for earlier days keeps. -/
def HasDataDot (name : String) : Prop := "data.".toList <:+: name.toList

instance : DecidablePred HasDataDot := fun name =>
  inferInstanceAs (Decidable ("data.".toList <:+: name.toList))

theorem hasDataDot_dayFileName (day : ArchiveDay) : HasDataDot (dayFileName (some day)) := by
  have hprefix : "data.".toList <+: (dayFileName (some day)).toList := by
    rw [dayFileName, String.toList_append]
    exact List.prefix_append _ _
  exact hprefix.isInfix

theorem not_hasDataDot_data : ¬HasDataDot "data" := by
  decide

theorem dayFileName_eq_data_iff (day : Option ArchiveDay) :
    dayFileName day = "data" ↔ day = none := by
  cases day with
  | none => exact iff_of_true rfl rfl
  | some day =>
      refine iff_of_false (fun h => ?_) (Option.some_ne_none day)
      exact not_hasDataDot_data (h ▸ hasDataDot_dayFileName day)

/-- The front of a sorted list is its least item. -/
theorem head?_mergeSort_eq_some_iff (names : List String) (name : String) :
    (names.mergeSort fun left right => left ≤ right).head? = some name ↔
      name ∈ names ∧ ∀ other ∈ names, name ≤ other := by
  have hsorted : (names.mergeSort fun left right => left ≤ right).Pairwise (· ≤ ·) :=
    List.pairwise_mergeSort' (· ≤ ·) names
  have hmem : ∀ other, other ∈ (names.mergeSort fun left right => left ≤ right) ↔
      other ∈ names := fun other => List.mem_mergeSort
  cases hsort : names.mergeSort fun left right => left ≤ right with
  | nil =>
      rw [hsort] at hmem
      refine iff_of_false (fun h => Option.some_ne_none name h.symm) fun h => ?_
      exact List.not_mem_nil ((hmem name).mpr h.1)
  | cons first rest =>
      rw [hsort] at hsorted hmem
      have hfirst : first ∈ names := (hmem first).mp List.mem_cons_self
      have hle : ∀ other ∈ names, first ≤ other := by
        intro other hother
        rcases List.mem_cons.mp ((hmem other).mpr hother) with rfl | hrest
        · exact le_refl _
        · exact List.rel_of_pairwise_cons hsorted hrest
      rw [List.head?_cons, Option.some.injEq]
      constructor
      · rintro rfl
        exact ⟨hfirst, hle⟩
      · exact fun h => le_antisymm (hle name h.1) (h.2 first hfirst)

/-- A text of a day tells the day. -/
theorem ArchiveDay.fields_eq_of_text_eq {left right : ArchiveDay} (h : left.text = right.text) :
    left.fields = right.fields := by
  have hlists := (init_dayText left).symm.trans (h ▸ init_dayText right)
  have hleft := left.numbers_lt
  have hright := right.numbers_lt
  simp only [ArchiveDay.numbers, List.forall_mem_cons] at hleft hright
  simp only [List.cons.injEq, String.ofList_inj, and_true] at hlists
  obtain ⟨hyear, hmon, hmday⟩ := hlists
  have hyear := digits_inj (by simp [hleft]) (by simp [hright]) hyear
  have hmon := digits_inj (by simp [hleft]) (by simp [hright]) hmon
  have hmday := digits_inj (by simp [hleft]) (by simp [hright]) hmday
  simp only [List.cons.injEq, and_true] at hyear hmon hmday
  rw [ArchiveDay.fields, ArchiveDay.fields, hmon, hmday]
  congr 1
  omega

namespace ArchiveManager

section Search

variable {files : FileSystem} {dir : String}

/-- The search takes today's file exactly when it can be opened, and else the first name. -/
theorem latestName_eq_some_iff {day : Option ArchiveDay}
    (hstored : dayFileName day ∈ files.fileList dir) :
    latestName files dir = some (dayFileName day) ↔
      (files.isFile (dir ++ "/" ++ "data") = true ↔ day = none) ∧
        (day ≠ none → ∀ other ∈ files.fileList dir, HasDataDot other →
          dayFileName day ≤ other) := by
  rw [latestName]
  split_ifs with hfile
  · rw [Option.some.injEq, eq_comm, dayFileName_eq_data_iff]
    constructor
    · exact fun hnone => ⟨iff_of_true hfile hnone, fun h => absurd hnone h⟩
    · exact fun h => h.1.mp hfile
  · rw [head?_mergeSort_eq_some_iff]
    simp only [List.mem_filter, decide_eq_true_eq]
    cases day with
    | none =>
        refine iff_of_false (fun h => not_hasDataDot_data h.1.2) fun h => ?_
        exact hfile (h.1.mpr rfl)
    | some day =>
        constructor
        · intro h
          refine ⟨iff_of_false hfile (Option.some_ne_none day), fun _ other hother hdot => ?_⟩
          exact h.2 other ⟨hother, hdot⟩
        · intro h
          refine ⟨⟨hstored, hasDataDot_dayFileName day⟩, fun other hother => ?_⟩
          exact h.2 (Option.some_ne_none day) other hother.1 hother.2

theorem slash_mem_join (dir name : String) : '/' ∈ (dir ++ "/" ++ name).toList := by
  simp

theorem getLatestData_eq_iff (name : String) :
    getLatestData files dir = dir ++ "/" ++ name ↔ latestName files dir = some name := by
  rw [getLatestData]
  cases latestName files dir with
  | none =>
      refine iff_of_false (fun h => ?_) fun h => Option.some_ne_none name h.symm
      have hslash := slash_mem_join dir name
      rw [← h] at hslash
      have hnone : '/' ∉ "Not Found".toList := by
        decide
      exact absurd hslash hnone
  | some found =>
      change dir ++ "/" ++ found = dir ++ "/" ++ name ↔ _
      rw [String.append_right_inj, Option.some.injEq]

end Search

/-- The lines that are not empty. -/
def fullLines (content : String) : List String := (lines content).filter fun line => line ≠ ""

/-- The lines in front of the first empty one. -/
def frontLines (content : String) : List String := (lines content).takeWhile fun line => line ≠ ""

/-- The lines behind the first empty one that are not empty. -/
def hiddenLines (content : String) : List String :=
  ((lines content).dropWhile fun line => line ≠ "").filter fun line => line ≠ ""

def lastFullLine (content : String) : String := (fullLines content).getLastD ""

theorem fullLines_eq (content : String) :
    fullLines content = frontLines content ++ hiddenLines content := by
  have htaken : ∀ line ∈ frontLines content, decide (line ≠ "") = true :=
    fun line hline => List.mem_takeWhile_imp (p := fun line => decide (line ≠ "")) hline
  have hsplit : frontLines content ++ (lines content).dropWhile (fun line => line ≠ "") =
      lines content := List.takeWhile_append_dropWhile
  rw [fullLines, ← hsplit, List.filter_append, List.filter_eq_self.mpr htaken, hiddenLines]

theorem ne_empty_of_mem_hiddenLines {content line : String} (h : line ∈ hiddenLines content) :
    line ≠ "" := of_decide_eq_true (List.mem_filter.mp h).2

/-- The loop finds the last line when none is hidden, or the last hidden one is the one it
finds in front. -/
theorem lastLine_eq_lastFullLine_iff (content : String) :
    lastLine content = lastFullLine content ↔
      ∀ last ∈ (hiddenLines content).getLast?, last ∈ (frontLines content).getLast? := by
  have hfront : lastLine content = (frontLines content).getLast?.getD "" :=
    List.getLastD_eq_getLast?
  rw [hfront, lastFullLine, List.getLastD_eq_getLast?, fullLines_eq, List.getLast?_append]
  cases hlast : (hiddenLines content).getLast? with
  | none =>
      rw [Option.none_or]
      exact iff_of_true rfl fun last h => absurd h.symm (Option.some_ne_none last)
  | some last =>
      have hne := ne_empty_of_mem_hiddenLines (List.mem_of_getLast? hlast)
      rw [Option.some_or, Option.getD_some]
      cases hfound : (frontLines content).getLast? with
      | none =>
          refine iff_of_false (fun h => hne h.symm) fun h => ?_
          exact Option.some_ne_none last (h last rfl).symm
      | some found =>
          rw [Option.getD_some]
          constructor
          · rintro rfl other hother
            exact hother
          · exact fun h => Option.some.inj (h last rfl)

/-- No line of a file comes after its last one. -/
theorem rel_lastFullLine {content line : String} {time : String → ℕ}
    (hsorted : (fullLines content).Pairwise fun earlier later => time earlier ≤ time later)
    (hline : line ∈ fullLines content) : time line ≤ time (lastFullLine content) := by
  obtain ⟨front, last, hfull⟩ := (List.eq_nil_or_concat _).resolve_left (List.ne_nil_of_mem hline)
  have hlast : lastFullLine content = last := by
    rw [lastFullLine, hfull, List.concat_eq_append, List.getLastD_concat]
  rw [hfull, List.concat_eq_append] at hsorted hline
  rw [hlast]
  rcases List.mem_append.mp hline with hfront | hsame
  · exact (List.pairwise_append.mp hsorted).2.2 line hfront last (List.mem_singleton_self last)
  · rw [List.mem_singleton.mp hsame]

/-! ## Answers -/

section Answers

variable (files : FileSystem) (dir : String)

def StoredLine (day : Option ArchiveDay) (line : String) : Prop :=
  dayFileName day ∈ files.fileList dir ∧ ∃ content,
    files.content (dir ++ "/" ++ dayFileName day) = some content ∧ line ∈ fullLines content

/-- Lines are appended in the order of their times, to the files of their days. -/
structure Chronological (time : String → ℕ) : Prop where
  appended : ∀ day content, files.content (dir ++ "/" ++ dayFileName day) = some content →
    (fullLines content).Pairwise fun earlier later => time earlier ≤ time later
  days : ∀ day day' line line', StoredLine files dir day line → StoredLine files dir day' line' →
    day ≠ day' → NotAfter day day' → time line ≤ time line'

/-- Requests to the directory are answered with the last line of the file of the day, and with
none that is older than a stored one.  A line of a video stands for the video. -/
structure AnswersLatest (day : Option ArchiveDay) : Prop where
  file : getLatestData files dir = dir ++ "/" ++ dayFileName day
  line : ∀ content, files.content (dir ++ "/" ++ dayFileName day) = some content →
    ∀ parse archive url, getExec archive url = some dir →
      getLast files parse archive url =
        describe files parse archive (lastFullLine content) (dir ++ "/" ++ dayFileName day)
  newest : ∀ time, Chronological files dir time →
    ∀ parse archive url, getExec archive url = some dir →
      (∀ line path, describe files parse archive line path = some ⟨line, "", [path]⟩) →
      ∀ reply, getLast files parse archive url = some reply →
        files.content (dir ++ "/" ++ dayFileName day) ≠ none → reply.answer ≠ "" →
        ∀ other line, StoredLine files dir other line → time line ≤ time reply.answer

end Answers

section Requests

variable {files : FileSystem} {dir : String} {archive : ArchiveManager} {url : String}

theorem getLast_of_latestName (parse : String → List XmlNode)
    (hexec : getExec archive url = some dir) {name content : String}
    (hname : latestName files dir = some name)
    (hcontent : files.content (dir ++ "/" ++ name) = some content) :
    getLast files parse archive url =
      describe files parse archive (lastLine content) (dir ++ "/" ++ name) := by
  rw [getLast, hexec, Option.bind_some, (getLatestData_eq_iff name).mpr hname]
  simp only [isRefusal_join, if_neg Bool.false_ne_true, withFile, hcontent]

/-- A url of one segment asks for a file of the home. -/
theorem getExec_home (dir : String) : getExec ⟨dir, SortedMap.empty⟩ "x" = some dir := by
  have hsegments : segments "x" = ["x"] := by
    decide
  have hgranted : Granted ⟨dir, SortedMap.empty⟩ "x" := by
    rw [Granted, hsegments]
    exact trivial
  have hhome : dirPath (dir ++ "/" ++ "x") = dir := by
    have hchars : (dir ++ "/" ++ "x").toList = dir.toList ++ '/' :: "x".toList := by
      simp
    rw [dirPath, hchars, FileManager.beforeLast_append dir.toList (by decide),
      String.ofList_toList]
  rw [getExec_of_granted _ hsegments hgranted]
  exact congrArg some hhome

/-- The latest file is the one that is found, and no line of it is hidden. -/
structure FindsLatest (files : FileSystem) (dir : String) (day : Option ArchiveDay) : Prop where
  today : files.isFile (dir ++ "/" ++ "data") = true ↔ day = none
  first : day ≠ none → ∀ other ∈ files.fileList dir, HasDataDot other → dayFileName day ≤ other
  shown : ∀ content, files.content (dir ++ "/" ++ dayFileName day) = some content →
    ∀ last ∈ (hiddenLines content).getLast?, last ∈ (frontLines content).getLast?

variable {day : Option ArchiveDay}

theorem FindsLatest.latestName (h : FindsLatest files dir day)
    (hstored : dayFileName day ∈ files.fileList dir) :
    latestName files dir = some (dayFileName day) :=
  (latestName_eq_some_iff hstored).mpr ⟨h.today, h.first⟩

/-- The last line of the latest file is the newest of the directory. -/
theorem time_le_lastFullLine (hlatest : IsLatest files dir day) {time : String → ℕ}
    (htime : Chronological files dir time) {content : String}
    (hcontent : files.content (dir ++ "/" ++ dayFileName day) = some content)
    (hne : lastFullLine content ≠ "") {other : Option ArchiveDay} {line : String}
    (hline : StoredLine files dir other line) : time line ≤ time (lastFullLine content) := by
  by_cases hsame : other = day
  · obtain ⟨-, found, hfound, hmem⟩ := hline
    rw [hsame, hcontent] at hfound
    cases hfound
    exact rel_lastFullLine (htime.appended day content hcontent) hmem
  · have hmem : lastFullLine content ∈ fullLines content := by
      rcases List.mem_cons.mp (List.getLastD_mem_cons (l := fullLines content) (a := "")) with h | h
      · exact absurd h hne
      · exact h
    exact htime.days other day line _ hline ⟨hlatest.stored, content, hcontent, hmem⟩ hsame
      (hlatest.last other hline.1)

theorem FindsLatest.answers (hlatest : IsLatest files dir day) (h : FindsLatest files dir day) :
    AnswersLatest files dir day := by
  have hname := h.latestName hlatest.stored
  have hline : ∀ content, files.content (dir ++ "/" ++ dayFileName day) = some content →
      ∀ parse archive url, getExec archive url = some dir →
        getLast files parse archive url =
          describe files parse archive (lastFullLine content)
            (dir ++ "/" ++ dayFileName day) := by
    intro content hcontent parse archive url hexec
    rw [getLast_of_latestName parse hexec hname hcontent,
      (lastLine_eq_lastFullLine_iff content).mpr (h.shown content hcontent)]
  refine ⟨(getLatestData_eq_iff _).mpr hname, hline, ?_⟩
  intro time htime parse archive url hexec hself reply hreply hsome hne other line hstored
  obtain ⟨content, hcontent⟩ := Option.ne_none_iff_exists'.mp hsome
  rw [hline content hcontent parse archive url hexec, hself] at hreply
  cases hreply
  exact time_le_lastFullLine hlatest htime hcontent hne hstored

theorem AnswersLatest.finds (hlatest : IsLatest files dir day) (h : AnswersLatest files dir day) :
    FindsLatest files dir day := by
  have hname := (getLatestData_eq_iff _).mp h.file
  obtain ⟨htoday, hfirst⟩ := (latestName_eq_some_iff hlatest.stored).mp hname
  refine ⟨htoday, hfirst, fun content hcontent => ?_⟩
  -- A reader that finds nothing behind the declaration shows the line itself.
  have hline := h.line content hcontent (fun _ => [.other]) _ _ (getExec_home dir)
  rw [getLast_of_latestName _ (getExec_home dir) hname hcontent] at hline
  have hreply := Option.some.inj hline
  exact (lastLine_eq_lastFullLine_iff content).mp (congrArg Reply.answer hreply)

end Requests

/-- The requests to a directory are answered from its latest file and with its last line
exactly when that file is found and hides no later line. -/
theorem answersLatest_iff (files : FileSystem) (dir : String) :
    (∀ day, IsLatest files dir day → AnswersLatest files dir day) ↔
      ∀ day, IsLatest files dir day → FindsLatest files dir day := by
  constructor
  · exact fun h day hlatest => (h day hlatest).finds hlatest
  · exact fun h day hlatest => (h day hlatest).answers hlatest

section Counterexample

/-- Two earlier days, and nothing of today. -/
def twoDays : FileSystem where
  content path :=
    if path = "cam/data.2024_01_01" then some "old\n"
    else if path = "cam/data.2024_01_02" then some "new\n"
    else none
  isFile _ := false
  entries _ := [⟨"data.2024_01_01", false, by decide⟩, ⟨"data.2024_01_02", false, by decide⟩]

/-- The line of the older file is the answer. -/
theorem not_answersLatest_twoDays :
    ¬∀ (files : FileSystem) (dir : String) (day : Option ArchiveDay),
      IsLatest files dir day → AnswersLatest files dir day := by
  intro h
  let first : ArchiveDay := ⟨2024, 1, 1, by decide, by decide, by decide⟩
  let second : ArchiveDay := ⟨2024, 1, 2, by decide, by decide, by decide⟩
  have hnames : twoDays.fileList "cam" = [dayFileName (some first), dayFileName (some second)] := by
    decide
  have hstored : dayFileName (some second) ∈ twoDays.fileList "cam" := by
    rw [hnames]
    exact List.mem_cons_of_mem _ List.mem_cons_self
  have hlatest : IsLatest twoDays "cam" (some second) := by
    refine ⟨hstored, fun other hother => ?_⟩
    rw [hnames, List.mem_pair] at hother
    cases other with
    | none => exact absurd hother (by decide)
    | some day =>
        rw [dayFileName, dayFileName, dayFileName, String.append_right_inj,
          String.append_right_inj] at hother
        rcases hother with hday | hday
        · rw [NotAfter, ArchiveDay.fields_eq_of_text_eq hday]
          decide
        · rw [NotAfter, ArchiveDay.fields_eq_of_text_eq hday]
  have hname := (getLatestData_eq_iff _).mp (h twoDays "cam" (some second) hlatest).file
  have hle := ((latestName_eq_some_iff hstored).mp hname).2 (Option.some_ne_none second)
    (dayFileName (some first)) (hnames ▸ List.mem_cons_self) (hasDataDot_dayFileName first)
  exact absurd hle (by decide)

end Counterexample

end ArchiveManager

end Hat
