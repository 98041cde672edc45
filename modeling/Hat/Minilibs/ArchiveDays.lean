import Hat.Minilibs.ArchiveQueries
import Mathlib.Data.List.Lex

/-!
# Days, minutes and files of days

Days, minutes and timestamps are texts of digits, which compare as their numbers do.  The name
of a file tells its day, and a query opens the files of the days in its window.
-/

namespace Hat

open Hat.Hsrv ArchiveManager

/-- A day with four digits for its year. -/
structure ArchiveDay where
  year : ℕ
  mon : ℕ
  mday : ℕ
  year_lt : year < 10000
  mon_le : mon ≤ 12
  mday_le : mday ≤ 31

namespace ArchiveDay

def fields (day : ArchiveDay) : List ℕ := [day.year, day.mon, day.mday]

def numbers (day : ArchiveDay) : List ℕ := [day.year / 100, day.year % 100, day.mon, day.mday]

/-- `YYYY_MM_DD`, as `getday` writes it. -/
def text (day : ArchiveDay) : String :=
  String.ofList (digits [day.year / 100, day.year % 100] ++
    '_' :: (digits [day.mon] ++ '_' :: digits [day.mday]))

end ArchiveDay

structure ArchiveMinute extends ArchiveDay where
  hour : ℕ
  min : ℕ
  hour_lt : hour < 24
  min_lt : min < 60

namespace ArchiveMinute

def fields (minute : ArchiveMinute) : List ℕ :=
  [minute.year, minute.mon, minute.mday, minute.hour, minute.min]

def numbers (minute : ArchiveMinute) : List ℕ :=
  [minute.year / 100, minute.year % 100, minute.mon, minute.mday, minute.hour, minute.min]

/-- `YYYYMMDDhhmm`. -/
def text (minute : ArchiveMinute) : String := String.ofList (digits minute.numbers)

/-- `DDMMYYYY`, as a request gives it. -/
def dateText (minute : ArchiveMinute) : String :=
  String.ofList (digits [minute.mday, minute.mon, minute.year / 100, minute.year % 100])

/-- `hh:mm`, as a request gives it. -/
def timeText (minute : ArchiveMinute) : String :=
  String.ofList (digits [minute.hour] ++ ':' :: digits [minute.min])

theorem numbers_lt (minute : ArchiveMinute) : ∀ n ∈ minute.numbers, n < 100 := by
  have hyear := minute.year_lt
  have hmon := minute.mon_le
  have hmday := minute.mday_le
  have hhour := minute.hour_lt
  have hmin := minute.min_lt
  intro n hn
  simp only [numbers, List.mem_cons, List.not_mem_nil, or_false] at hn
  omega

end ArchiveMinute

theorem ArchiveDay.numbers_lt (day : ArchiveDay) : ∀ n ∈ day.numbers, n < 100 := by
  have hyear := day.year_lt
  have hmon := day.mon_le
  have hmday := day.mday_le
  intro n hn
  simp only [numbers, List.mem_cons, List.not_mem_nil, or_false] at hn
  omega

/-- Texts of digits are the same only for the same numbers. -/
theorem digits_inj {left right : List ℕ} (hleft : ∀ a ∈ left, a < 100)
    (hright : ∀ b ∈ right, b < 100) (h : digits left = digits right) : left = right := by
  have hlength : left.length = right.length := by
    have hdigits := congrArg List.length h
    rw [length_digits, length_digits] at hdigits
    omega
  rcases lt_trichotomy left right with hlt | heq | hgt
  · exact absurd h ((digits_lt_digits hleft hright hlength).mpr hlt).ne
  · exact heq
  · exact absurd h.symm ((digits_lt_digits hright hleft hlength.symm).mpr hgt).ne

/-- A century in front, as two numbers or as one. -/
theorem year_cons_lt_iff (year year' : ℕ) (rest rest' : List ℕ) :
    year / 100 :: year % 100 :: rest < year' / 100 :: year' % 100 :: rest' ↔
      year :: rest < year' :: rest' := by
  simp only [List.cons_lt_cons_iff]
  by_cases hrest : rest < rest'
  · simp only [hrest, and_true]
    omega
  · simp only [hrest, and_false, or_false]
    omega

namespace Stamp

/-- The month in the place of the year, and so on. -/
def misreadMinutes (stamp : Stamp) : List ℕ :=
  [2000 + stamp.instant.mon, stamp.instant.mday, stamp.instant.hour, stamp.instant.min,
    stamp.instant.sec]

/-- The minute that a comparison takes the stamp for. -/
def readMinutes (stamp : Stamp) : List ℕ :=
  if stamp.Misread then stamp.misreadMinutes else stamp.instant.minutes

/-- The numbers of the text. -/
def textNumbers (stamp : Stamp) : List ℕ :=
  (if stamp.full then [20] else []) ++
    [stamp.instant.year % 100, stamp.instant.mon, stamp.instant.mday, stamp.instant.hour,
      stamp.instant.min, stamp.instant.sec]

end Stamp

namespace ArchiveManager

theorem exists_readMinutes (stamp : Stamp) :
    ∃ year rest, stamp.readMinutes = year :: rest ∧
      20 :: stamp.readNumbers = year / 100 :: year % 100 :: rest := by
  have hyear := stamp.instant.year_ge
  have hle := stamp.instant.year_le
  have hmon := stamp.instant.mon_le
  rw [Stamp.readMinutes, Stamp.readNumbers]
  by_cases hmisread : stamp.Misread
  · refine ⟨_, _, if_pos hmisread, ?_⟩
    rw [if_pos hmisread, Instant.fromMonth, show (2000 + stamp.instant.mon) / 100 = 20 by omega,
      show (2000 + stamp.instant.mon) % 100 = stamp.instant.mon by omega]
  · refine ⟨_, _, if_neg hmisread, ?_⟩
    rw [if_neg hmisread, Instant.shortMinutes, show stamp.instant.year / 100 = 20 by omega]

theorem twenty_lt (stamp : Stamp) : ∀ n ∈ 20 :: stamp.readNumbers, n < 100 :=
  List.forall_mem_cons.mpr ⟨by decide, readNumbers_lt stamp⟩

theorem length_twenty (stamp : Stamp) : (20 :: stamp.readNumbers).length = 6 := by
  rw [List.length_cons, length_readNumbers]

theorem normalize_lt_text_iff (stamp : Stamp) (minute : ArchiveMinute) :
    normalizeDateTime stamp.text < minute.text ↔ stamp.readMinutes < minute.fields := by
  obtain ⟨year, rest, hminutes, hnumbers⟩ := exists_readMinutes stamp
  rw [normalizeDateTime_stamp, ArchiveMinute.text, String.lt_iff_toList_lt, String.toList_ofList,
    String.toList_ofList, digits_lt_digits (twenty_lt stamp) minute.numbers_lt
      (length_twenty stamp), hnumbers, hminutes, ArchiveMinute.numbers, ArchiveMinute.fields,
    year_cons_lt_iff]

theorem text_lt_normalize_iff (stamp : Stamp) (minute : ArchiveMinute) :
    minute.text < normalizeDateTime stamp.text ↔ minute.fields < stamp.readMinutes := by
  obtain ⟨year, rest, hminutes, hnumbers⟩ := exists_readMinutes stamp
  rw [normalizeDateTime_stamp, ArchiveMinute.text, String.lt_iff_toList_lt, String.toList_ofList,
    String.toList_ofList, digits_lt_digits minute.numbers_lt (twenty_lt stamp)
      (length_twenty stamp).symm, hnumbers, hminutes, ArchiveMinute.numbers, ArchiveMinute.fields,
    year_cons_lt_iff]

theorem normalizeDateTime_ne_empty (stamp : Stamp) : normalizeDateTime stamp.text ≠ "" := by
  intro h
  have hlength := congrArg String.length h
  rw [normalizeDateTime_stamp, String.length_ofList, length_digits] at hlength
  exact absurd hlength (by simp)

theorem textNumbers_lt (stamp : Stamp) : ∀ n ∈ stamp.textNumbers, n < 100 := by
  have hmon := stamp.instant.mon_le
  have hmday := stamp.instant.mday_le
  have hhour := stamp.instant.hour_lt
  have hmin := stamp.instant.min_lt
  have hsec := stamp.instant.sec_le
  intro n hn
  rw [Stamp.textNumbers] at hn
  split at hn <;>
    simp only [List.cons_append, List.nil_append, List.mem_cons, List.not_mem_nil,
      or_false] at hn <;>
    omega

theorem text_eq_digits (stamp : Stamp) : stamp.text = String.ofList (digits stamp.textNumbers) := by
  obtain ⟨instant, full⟩ := stamp
  cases full with
  | true => exact twenty_append _
  | false => exact String.empty_append

/-- A text of a timestamp tells its minute. -/
theorem minutes_eq_of_text_eq {stamp other : Stamp} (h : stamp.text = other.text) :
    stamp.instant.minutes = other.instant.minutes := by
  rw [text_eq_digits, text_eq_digits, String.ofList_inj] at h
  have hnumbers := digits_inj (textNumbers_lt stamp) (textNumbers_lt other) h
  have hyear := stamp.instant.year_ge
  have hle := stamp.instant.year_le
  have hotherYear := other.instant.year_ge
  have hotherLe := other.instant.year_le
  rw [Stamp.textNumbers, Stamp.textNumbers] at hnumbers
  have hfields := (List.append_inj' hnumbers rfl).2
  simp only [List.cons.injEq, and_true] at hfields
  obtain ⟨hcentury, hmon, hmday, hhour, hmin, -⟩ := hfields
  rw [Instant.minutes, Instant.minutes, hmon, hmday, hhour, hmin]
  have hsame : stamp.instant.year = other.instant.year := by omega
  rw [hsame]

end ArchiveManager

structure ArchiveWindow where
  start : ArchiveMinute
  stop : ArchiveMinute

namespace ArchiveWindow

/-- The minute is in the window, both ends included. -/
def Within (window : ArchiveWindow) (minutes : List ℕ) : Prop :=
  window.start.fields ≤ minutes ∧ minutes ≤ window.stop.fields

/-- Some minute of the day is in the window. -/
def Covers (window : ArchiveWindow) (day : ArchiveDay) : Prop :=
  window.start.toArchiveDay.fields ≤ day.fields ∧ day.fields ≤ window.stop.toArchiveDay.fields

instance (window : ArchiveWindow) (minutes : List ℕ) : Decidable (window.Within minutes) :=
  inferInstanceAs (Decidable (_ ∧ _))

instance (window : ArchiveWindow) (day : ArchiveDay) : Decidable (window.Covers day) :=
  inferInstanceAs (Decidable (_ ∧ _))

end ArchiveWindow

/-! ## Files by their names -/

/-- A file of lines: today's, or the one of an earlier day. -/
structure DataFile (α : Type) where
  day : Option ArchiveDay
  lines : List α

namespace DataFile

variable {α : Type}

def name (file : DataFile α) : String :=
  match file.day with
  | none => "data"
  | some day => "data." ++ day.text

def content (text : α → String) (file : DataFile α) : String :=
  String.join (file.lines.map fun line => text line ++ "\n")

end DataFile

namespace ArchiveManager

theorem digitChar_ne {c : Char} (hc : ∀ n < 10, Nat.digitChar n ≠ c) {numbers : List ℕ}
    (hnumbers : ∀ n ∈ numbers, n < 100) : c ∉ digits numbers := by
  intro hmem
  obtain ⟨n, hn, hdigit⟩ := List.mem_flatMap.mp hmem
  have hlt := hnumbers n hn
  rcases List.mem_pair.mp hdigit with h | h
  · exact hc (n / 10) (by omega) h.symm
  · exact hc (n % 10) (by omega) h.symm

theorem init_dayText (day : ArchiveDay) :
    NameList.init [] day.text '_' =
      [String.ofList (digits [day.year / 100, day.year % 100]), String.ofList (digits [day.mon]),
        String.ofList (digits [day.mday])] := by
  have hline : ∀ n < 10, Nat.digitChar n ≠ '_' := by
    decide
  have hyear := day.year_lt
  have hmon := day.mon_le
  have hmday := day.mday_le
  have hsplit : (digits [day.year / 100, day.year % 100] ++
      '_' :: (digits [day.mon] ++ '_' :: digits [day.mday])).splitOn '_' =
        [digits [day.year / 100, day.year % 100], digits [day.mon], digits [day.mday]] := by
    rw [List.splitOn_append_cons_self_of_not_mem (digitChar_ne hline _),
      List.splitOn_append_cons_self_of_not_mem (digitChar_ne hline _),
      List.splitOn_eq_singleton (digitChar_ne hline _)] <;>
      intro n hn <;> simp only [List.mem_cons, List.not_mem_nil, or_false] at hn <;> omega
  have hne : day.text ≠ "" := by
    intro h
    have hchars := congrArg String.toList h
    rw [ArchiveDay.text, String.toList_ofList] at hchars
    cases hchars
  rw [NameList.init, if_neg hne, ArchiveDay.text, String.toList_ofList, hsplit]
  rfl

/-- Texts of days compare as the days do. -/
theorem dayText_le_iff (left right : ArchiveDay) :
    String.ofList (digits left.numbers) ≤ String.ofList (digits right.numbers) ↔
      left.fields ≤ right.fields := by
  rw [← not_lt, ← not_lt, String.lt_iff_toList_lt, String.toList_ofList, String.toList_ofList,
    digits_lt_digits right.numbers_lt left.numbers_lt rfl, ArchiveDay.numbers, ArchiveDay.numbers,
    year_cons_lt_iff]
  rfl

/-- The day of a file is compared with the days of the window. -/
theorem evalDescriptor_name (window : ArchiveWindow) {α : Type} {file : DataFile α}
    {day : ArchiveDay} (hday : file.day = some day) :
    evalDescriptor window.start.text window.stop.text file.name =
      some (decide (window.Covers day)) := by
  have hname : file.name = "data." ++ day.text := by
    rw [DataFile.name, hday]
  have hchars : file.name.toList = 'd' :: 'a' :: 't' :: 'a' :: '.' :: day.text.toList := by
    rw [hname, String.toList_append]
    rfl
  have hafter : (file.name.toList.dropWhile fun c => c ≠ '.').drop 1 = day.text.toList := by
    rw [hchars]
    rfl
  have hday : String.ofList (digits [day.year / 100, day.year % 100]) ++
      String.ofList (digits [day.mon]) ++ String.ofList (digits [day.mday]) =
        String.ofList (digits day.numbers) := by
    rw [← String.ofList_append, ← String.ofList_append]
    rfl
  have hends : ∀ minute : ArchiveMinute, String.ofList (substr minute.text.toList 0 8) =
      String.ofList (digits minute.toArchiveDay.numbers) := by
    intro minute
    rw [ArchiveMinute.text, String.toList_ofList]
    rfl
  have hdot : '.' ∈ file.name.toList := by
    rw [hchars]
    simp
  rw [evalDescriptor, if_pos hdot, hafter, String.ofList_toList]
  simp only [init_dayText, List.getElem?_cons_zero, List.getElem?_cons_succ, Option.bind_some,
    Option.map_some, hday, hends]
  exact congrArg some (decide_eq_decide.mpr
    (and_congr (dayText_le_iff _ _) (dayText_le_iff _ _)))

theorem dayText_notMem (day : ArchiveDay) {c : Char} (hdigit : ∀ n < 10, Nat.digitChar n ≠ c)
    (hline : c ≠ '_') : c ∉ day.text.toList := by
  have hnumbers := day.numbers_lt
  rw [ArchiveDay.numbers] at hnumbers
  have hdigits := digitChar_ne hdigit hnumbers
  rw [ArchiveDay.text, String.toList_ofList]
  simp only [digits, List.flatMap_cons, List.flatMap_nil, List.append_nil, List.mem_append,
    List.mem_cons, not_or] at hdigits ⊢
  tauto

/-- A name that is or begins as the name of a file of lines. -/
def isDataName (name : String) : Bool := name = "data" || "data.".toList.isPrefixOf name.toList

theorem isDataName_of_dot {name : String} {rest : List Char}
    (h : name.toList = "data".toList ++ '.' :: rest) : isDataName name = true := by
  have hprefix : "data.".toList <+: name.toList := by
    rw [h]
    exact ⟨rest, rfl⟩
  rw [isDataName, Bool.or_eq_true]
  exact Or.inr (List.isPrefixOf_iff_prefix.mpr hprefix)

theorem isDataName_of_subSetPrefix {name : String} (h : subSetPrefix name = "data") :
    isDataName name = true := by
  rw [subSetPrefix] at h
  split at h
  · rename_i hdot
    have hfront := congrArg String.toList h
    rw [String.toList_ofList] at hfront
    obtain ⟨rest, -, hchars⟩ := FileManager.exists_dropWhile_eq_cons hdot
    rw [hfront] at hchars
    exact isDataName_of_dot hchars.symm
  · exact absurd h (by decide)

theorem isDataName_of_getStem {name : String} (hname : '/' ∉ name.toList)
    (h : FileManager.getStem name = "data") : isDataName name = true := by
  rw [FileManager.getStem_of_notMem hname] at h
  have hfront := congrArg String.toList h
  rw [String.toList_ofList] at hfront
  by_cases hdot : '.' ∈ name.toList
  · have hchars := FileManager.beforeLast_append_afterLast hdot
    rw [hfront] at hchars
    exact isDataName_of_dot hchars.symm
  · rw [FileManager.beforeLast, if_neg hdot] at h
    rw [isDataName, ← h, String.ofList_toList]
    simp

/-- `getSubSet` takes the files of earlier days by their prefix, and not today's. -/
theorem subSetPrefix_name {α : Type} (file : DataFile α) :
    subSetPrefix file.name = "data" ↔ file.day.isSome := by
  rw [DataFile.name]
  cases file.day with
  | none => exact iff_of_false (by decide) Bool.false_ne_true
  | some day =>
      refine iff_of_true ?_ rfl
      rw [subSetPrefix, String.toList_append, if_pos (List.mem_append_left _ (by decide))]
      rfl

/-- `getSubLog` takes all. -/
theorem getStem_name {α : Type} {file : DataFile α} (hname : '/' ∉ file.name.toList) :
    FileManager.getStem file.name = "data" := by
  rw [FileManager.getStem_of_notMem hname, DataFile.name]
  cases file.day with
  | none => decide
  | some day =>
      have hdot : '.' ∉ day.text.toList := dayText_notMem day (by decide) (by decide)
      have hchars : ("data." ++ day.text).toList = "data".toList ++ '.' :: day.text.toList := by
        rw [String.toList_append]
        rfl
      change String.ofList (FileManager.beforeLast '.' ("data." ++ day.text).toList) = "data"
      rw [hchars, FileManager.beforeLast_append _ hdot, String.ofList_toList]

end ArchiveManager

/-- The files of lines in a directory, in its order.  No other file has the name of one. -/
structure DataDirectory (files : FileSystem) (dir : String) {α : Type} (text : α → String) where
  dataFiles : List (DataFile α)
  names : (files.fileList dir).filter isDataName = dataFiles.map DataFile.name
  content : ∀ file ∈ dataFiles, files.content (dir ++ "/" ++ file.name) = some (file.content text)

namespace DataDirectory

variable {files : FileSystem} {dir : String} {α : Type} {text : α → String}

/-- Every line with the file it is in. -/
def items (directory : DataDirectory files dir text) : List (DataFile α × α) :=
  directory.dataFiles.flatMap fun file => file.lines.map fun line => (file, line)

theorem noSlash_of_mem_fileList {name : String} (h : name ∈ files.fileList dir) :
    '/' ∉ name.toList := by
  rw [FileSystem.fileList, List.mem_map] at h
  obtain ⟨entry, -, rfl⟩ := h
  exact entry.name_noSlash

theorem noSlash_name (directory : DataDirectory files dir text) {file : DataFile α}
    (hfile : file ∈ directory.dataFiles) : '/' ∉ file.name.toList := by
  have hmem : file.name ∈ (files.fileList dir).filter isDataName := by
    rw [directory.names]
    exact List.mem_map_of_mem hfile
  exact noSlash_of_mem_fileList (List.mem_filter.mp hmem).1

end DataDirectory

namespace ArchiveManager

theorem lines_content {α : Type} {text : α → String} (htext : ∀ line, '\n' ∉ (text line).toList)
    (file : DataFile α) : lines (file.content text) = file.lines.map text ++ [""] := by
  obtain ⟨day, items⟩ := file
  induction items with
  | nil => rfl
  | cons line rest ih =>
      have hchars : (DataFile.content text ⟨day, line :: rest⟩).toList =
          (text line).toList ++ '\n' :: (DataFile.content text ⟨day, rest⟩).toList := by
        rw [DataFile.content, List.map_cons, String.join_cons]
        simp [DataFile.content]
      rw [lines, hchars, List.splitOn_append_cons_self_of_not_mem (htext line), List.map_cons,
        String.ofList_toList, ← lines, ih]
      rfl

/-- Whether the files of the day are opened. -/
def opens (window : ArchiveWindow) (day : Option ArchiveDay) : Bool :=
  day.all fun day => window.Covers day

section Scan

variable {files : FileSystem} {dir : String} {α : Type} {text : α → String}

/-- What is taken from one file. -/
def linesTaken (text : α → String) (passes : α → Bool) (file : DataFile α) : List String :=
  (file.lines.filter passes).map text

theorem scanFile_eq (directory : DataDirectory files dir text)
    (htext : ∀ line, '\n' ∉ (text line).toList) {takeLine : String → Option (List String)}
    {passes : α → Bool} (hempty : takeLine "" = some [])
    (hline : ∀ line, takeLine (text line) = some (if passes line then [text line] else []))
    {file : DataFile α} (hfile : file ∈ directory.dataFiles) :
    scanFile files (dir ++ "/" ++ file.name) takeLine = some (linesTaken text passes file) := by
  have hlines : collect takeLine (file.lines.map text) = some (linesTaken text passes file) := by
    rw [collect_map, collect_eq_some fun line _ => hline line, linesTaken]
    congr 1
    induction file.lines with
    | nil => rfl
    | cons line rest ih =>
        rw [List.flatMap_cons, ih]
        cases hpasses : passes line with
        | true => simp [hpasses]
        | false => simp [hpasses]
  rw [scanFile, directory.content file hfile]
  dsimp only
  rw [lines_content htext, collect_append, hlines, Option.bind_some, collect_cons_of_some hempty]
  simp [collect]

/-- A file is opened by its name and, unless it is today's, by its day. -/
theorem opens_name (window : ArchiveWindow) (file : DataFile α) :
    (if file.name = "data" then some true
      else evalDescriptor window.start.text window.stop.text file.name) =
        some (opens window file.day) := by
  cases hday : file.day with
  | none =>
      have hname : file.name = "data" := by
        rw [DataFile.name, hday]
      rw [if_pos hname]
      rfl
  | some day =>
      have hne : file.name ≠ "data" := by
        rw [DataFile.name, hday]
        intro h
        have hlength := congrArg String.length h
        rw [String.length_append] at hlength
        have hfive : 5 + day.text.length = 4 := hlength
        omega
      rw [if_neg hne, evalDescriptor_name window hday]
      rfl

/-- The loop over a directory takes the lines that pass in the files that it opens. -/
theorem scanDirectory_eq (directory : DataDirectory files dir text)
    (htext : ∀ line, '\n' ∉ (text line).toList) (window : ArchiveWindow)
    {isData : String → Bool} {named : DataFile α → Bool}
    (hother : ∀ name, '/' ∉ name.toList → isData name = true → isDataName name = true)
    (hnamed : ∀ file ∈ directory.dataFiles, isData file.name = named file)
    {takeLine : String → Option (List String)} {passes : α → Bool}
    (hempty : takeLine "" = some [])
    (hline : ∀ line, takeLine (text line) = some (if passes line then [text line] else [])) :
    scanDirectory files dir window.start.text window.stop.text isData takeLine =
      some ((directory.items.filter fun item =>
        named item.1 && opens window item.1.day && passes item.2).map fun item => text item.2) := by
  have hskip : ∀ name ∈ files.fileList dir, isDataName name = false →
      isData (FileManager.getTail name) = false := by
    intro name hname hnot
    have hslash := DataDirectory.noSlash_of_mem_fileList hname
    rw [FileManager.getTail_of_notMem hslash]
    by_contra hdata
    rw [hother name hslash (by simpa using hdata)] at hnot
    cases hnot
  have hitems : (directory.items.filter fun item =>
      named item.1 && opens window item.1.day && passes item.2).map (fun item => text item.2) =
        directory.dataFiles.flatMap fun file =>
          if named file && opens window file.day then linesTaken text passes file else [] := by
    rw [DataDirectory.items, List.filter_flatMap, List.map_flatMap]
    congr 1
    funext file
    rw [List.filter_map, List.map_map]
    cases hfile : named file && opens window file.day with
    | false => simp [Function.comp_def, hfile]
    | true => simp [Function.comp_def, hfile, linesTaken]
  rw [scanDirectory, ← collect_filter, directory.names, collect_map, hitems]
  · refine collect_eq_some fun file hfile => ?_
    have htail := FileManager.getTail_of_notMem (directory.noSlash_name hfile)
    simp only [htail, hnamed file hfile, opens_name, Option.bind_some,
      scanFile_eq directory htext hempty hline hfile]
    cases named file with
    | false => rfl
    | true =>
        cases opens window file.day with
        | false => rfl
        | true => rfl
  · intro name hname hnot
    simp only [hskip name hname hnot]
    rfl

end Scan

end ArchiveManager

end Hat
