import Hat.Minilibs.ArchiveQueries
import Hat.Minilibs.MMessage
import Hat.WSServer.ReadJson
import Mathlib.Logic.Function.Basic

/-!
# The lines of logged events

An event is appended to the file of its class and feature as one object of JSON, which is put
together from names and values as they are.  `getSubLog` reads every line of a file again, and
an exception at one of them leaves the whole query without an answer.
-/

namespace Hat

open Json ArchiveManager

def FileSystem.withContent (files : FileSystem) (path content : String) : FileSystem :=
  { files with content := Function.update files.content path (some content) }

namespace ArchiveThread

/-- The fields that are not written. -/
def unlogged : List String := ["class", "feature", "method", "language", "url"]

/-- The names and values of a line. -/
def logged (msg : MMessage) : List (String × String) :=
  (msg.fields.entries.filter fun entry => entry.1 ∉ unlogged).map fun entry =>
    (entry.1, msg.getString entry.1)

def fieldText (entry : String × String) : String :=
  "\"" ++ entry.1 ++ "\"" ++ ":" ++ "\"" ++ entry.2 ++ "\""

def logLine (entries : List (String × String)) : String :=
  "\x7b" ++ ",".intercalate (entries.map fieldText) ++ "\x7d"

/-- What is appended to the file, when it can be opened. -/
def writelog (msg : MMessage) : String := logLine (logged msg) ++ "\n"

def Scalar (msg : MMessage) : Prop :=
  ∀ entry ∈ msg.fields.entries, ∃ value, entry.2 = .mstring value

/-- The fields that a line is to have, with their values. -/
def keptFields (msg : MMessage) : List (String × String) :=
  msg.fields.entries.filterMap fun entry =>
    match entry.2 with
    | .mstring value => if entry.1 ∈ unlogged then none else some (entry.1, value)
    | .mstringList _ => none

/-- The text is one line, which is read back as the fields of the message. -/
def Restored (reader : JsonReader) (msg : MMessage) : Prop :=
  ∃ line, writelog msg = line ++ "\n" ∧ '\n' ∉ line.toList ∧
    reader.read line = some (flatTree (keptFields msg))

def WholeLines (text : String) : Prop := text = "" ∨ ∃ front, text = front ++ "\n"

/-- Wherever the text stands between the lines of a file, a query that has an answer without
it has one with it: the same lines in their order, with lines of the text only besides. -/
def Harmless (reader : JsonReader) (text : String) : Prop :=
  ∀ (files : FileSystem) (path before after : String),
    files.content path = some (before ++ after) → WholeLines before →
      ∀ rootPath start stop category answer,
        subLogLines files reader.read rootPath start stop category = some answer →
          ∃ answer', subLogLines (files.withContent path (before ++ text ++ after)) reader.read
              rootPath start stop category = some answer' ∧
            Grown (lines text) answer answer'

/-- Nothing in the line had to be escaped. -/
def Unescaped (reader : JsonReader) (msg : MMessage) : Prop :=
  PlainEntries reader.raw (keptFields msg) ∧
    ∀ entry ∈ keptFields msg, '\n' ∉ entry.1.toList ∧ '\n' ∉ entry.2.toList

/-- A query passes over the line, or finds the two fields that it asks every line for. -/
def Answerable (msg : MMessage) : Prop :=
  (logLine (keptFields msg)).utf8ByteSize < 10 ∨
    (∃ entry ∈ keptFields msg, entry.1 = "time") ∧ ∃ entry ∈ keptFields msg, entry.1 = "type"

theorem getString_of_mem {msg : MMessage} {name value : String}
    (hmem : (name, .mstring value) ∈ msg.fields.entries) : msg.getString name = value := by
  rw [MMessage.getString, (SortedMap.mem_entries_iff _ _ _).mp hmem]
  rfl

theorem logged_eq {msg : MMessage} (hscalar : Scalar msg) : logged msg = keptFields msg := by
  have hentries : ∀ entries : List (String × MstringList), entries ⊆ msg.fields.entries →
      (entries.filter fun entry => entry.1 ∉ unlogged).map (fun entry =>
        (entry.1, msg.getString entry.1)) = entries.filterMap fun entry =>
          match entry.2 with
          | .mstring value => if entry.1 ∈ unlogged then none else some (entry.1, value)
          | .mstringList _ => none := by
    intro entries hsubset
    induction entries with
    | nil => rfl
    | cons entry rest ih =>
        obtain ⟨name, list⟩ := entry
        obtain ⟨hentry, hrest⟩ := List.cons_subset.mp hsubset
        obtain ⟨value, rfl⟩ : ∃ value, list = .mstring value := hscalar _ hentry
        by_cases hname : name ∈ unlogged
        · rw [List.filter_cons_of_neg (by simpa using hname), ih hrest,
            List.filterMap_cons_none (by simp [hname])]
        · rw [List.filter_cons_of_pos (by simpa using hname), List.map_cons, ih hrest,
            List.filterMap_cons_some (by simp [hname]; rfl), getString_of_mem hentry]
  exact hentries _ (List.Subset.refl _)

theorem toList_fieldText (entry : String × String) (rest : List Char) :
    (fieldText entry).toList ++ rest = flatMember entry rest := by
  simp [fieldText, flatMember, quoted, quote]

theorem toList_logLine (entries : List (String × String)) :
    (logLine entries).toList = openBrace :: flatMembers entries := by
  have hmore : ∀ entries : List (String × String),
      (",".intercalate (entries.map fieldText)).toList ++ [closeBrace] = flatMembers entries := by
    intro entries
    induction entries with
    | nil => rfl
    | cons entry rest ih =>
        cases rest with
        | nil => exact toList_fieldText entry [closeBrace]
        | cons other rest =>
            rw [List.map_cons, List.map_cons, String.intercalate_cons_cons, ← List.map_cons,
              String.toList_append, String.toList_append, List.append_assoc, List.append_assoc, ih,
              toList_fieldText]
            rfl
  rw [logLine, String.toList_append, String.toList_append, List.append_assoc, ← hmore]
  rfl

theorem notMem_further (entries : List (String × String)) :
    '\n' ∉ further entries ↔
      ∀ entry ∈ entries, '\n' ∉ entry.1.toList ∧ '\n' ∉ entry.2.toList := by
  induction entries with
  | nil => simp [further, closeBrace]
  | cons entry rest ih =>
      rw [List.forall_mem_cons, ← ih]
      simp [further, flatMember, quoted, quote]
      tauto

theorem notMem_logLine (entries : List (String × String)) :
    '\n' ∉ (logLine entries).toList ↔
      ∀ entry ∈ entries, '\n' ∉ entry.1.toList ∧ '\n' ∉ entry.2.toList := by
  rw [toList_logLine, ← notMem_further]
  cases entries with
  | nil => simp [flatMembers, further, openBrace]
  | cons entry rest => simp [flatMembers, further, openBrace]

theorem logLine_eq (entries : List (String × String)) :
    logLine entries = String.ofList (openBrace :: flatMembers entries) := by
  rw [← toList_logLine, String.ofList_toList]

variable {reader : JsonReader} {msg : MMessage}

theorem restored_iff_unescaped (hscalar : Scalar msg) :
    Restored reader msg ↔ Unescaped reader msg := by
  rw [Restored, writelog, logged_eq hscalar, Unescaped, ← reader.read_flat_iff, ← logLine_eq,
    ← notMem_logLine]
  constructor
  · rintro ⟨line, hline, hbreak, hread⟩
    have hsame : logLine (keptFields msg) = line := by
      have hchars := congrArg String.toList hline
      rw [String.toList_append, String.toList_append] at hchars
      exact String.toList_inj.mp (List.append_cancel_right hchars)
    rw [hsame]
    exact ⟨hread, hbreak⟩
  · rintro ⟨hread, hbreak⟩
    exact ⟨_, rfl, hbreak, hread⟩

/-! ## Queries with the text and without it -/

/-- A line that the query has an answer for. -/
def Readable (reader : JsonReader) (line : String) : Prop :=
  line.utf8ByteSize < 10 ∨ ∃ tree, reader.read line = some tree ∧
    (tree.get "time").isSome ∧ (tree.get "type").isSome

theorem takeLogLine_isSome_iff (start stop : String) (category : NameList) (line : String) :
    (takeLogLine reader.read start stop category line).isSome ↔ Readable reader line := by
  rw [takeLogLine, Readable]
  by_cases hshort : line.utf8ByteSize < 10
  · simp [hshort]
  · simp only [hshort, if_false, false_or, Option.isSome_iff_exists, Option.bind_eq_some_iff,
      Option.map_eq_some_iff]
    constructor
    · rintro ⟨_, tree, hread, time, htime, cat, hcat, -⟩
      exact ⟨tree, hread, ⟨time, htime⟩, cat, hcat⟩
    · rintro ⟨tree, hread, ⟨time, htime⟩, cat, hcat⟩
      exact ⟨_, tree, hread, time, htime, cat, hcat, rfl⟩

theorem takeLogLine_subset {start stop : String} {category : NameList} {line : String}
    {part : List String} (h : takeLogLine reader.read start stop category line = some part) :
    part ⊆ [line] := by
  rw [takeLogLine] at h
  split at h
  · rw [← Option.some.inj h]
    exact List.nil_subset _
  · simp only [Option.bind_eq_some_iff, Option.map_eq_some_iff] at h
    obtain ⟨tree, -, time, -, cat, -, rfl⟩ := h
    split
    · exact List.Subset.refl _
    · exact List.nil_subset _

theorem takeLogLine_empty (start stop : String) (category : NameList) :
    takeLogLine reader.read start stop category "" = some [] :=
  if_pos (show "".utf8ByteSize < 10 by decide)

theorem lines_join (front rest : String) :
    lines (front ++ "\n" ++ rest) = lines front ++ lines rest := by
  have hchars : (front ++ "\n" ++ rest).toList = front.toList ++ '\n' :: rest.toList := by
    simp
  rw [lines, hchars, List.splitOn_append_cons_self, List.map_append]
  rfl

theorem collect_lines_append {takeLine : String → Option (List String)}
    (hempty : takeLine "" = some []) {before : String} (hwhole : WholeLines before)
    (rest : String) :
    collect takeLine (lines (before ++ rest)) =
      (collect takeLine (lines before)).bind fun first =>
        (collect takeLine (lines rest)).map fun more => first ++ more := by
  have hnone : collect takeLine (lines "") = some [] := by
    change collect takeLine [""] = some []
    rw [collect_cons_of_some hempty]
    rfl
  rcases hwhole with rfl | ⟨front, rfl⟩
  · rw [hnone, String.empty_append, Option.bind_some]
    simp
  · have hfront := lines_join front ""
    rw [String.append_empty] at hfront
    rw [lines_join, hfront, collect_append, collect_append, hnone]
    simp

/-- Lines that can be read do no harm to a file. -/
theorem scanFile_grown {text : String} (htext : WholeLines text)
    (hreadable : ∀ line ∈ lines text, Readable reader line) {files : FileSystem}
    {path before after : String} (hcontent : files.content path = some (before ++ after))
    (hbefore : WholeLines before) {start stop : String} {category : NameList} {file : String}
    {part : List String}
    (hpart : scanFile files file (takeLogLine reader.read start stop category) = some part) :
    ∃ part', scanFile (files.withContent path (before ++ text ++ after)) file
        (takeLogLine reader.read start stop category) = some part' ∧
      Grown (lines text) part part' := by
  have hempty : takeLogLine reader.read start stop category "" = some [] :=
    takeLogLine_empty start stop category
  by_cases hfile : file = path
  · subst hfile
    rw [scanFile, hcontent] at hpart
    dsimp only at hpart
    rw [collect_lines_append hempty hbefore] at hpart
    obtain ⟨first, hfirst, hrest⟩ := Option.bind_eq_some_iff.mp hpart
    obtain ⟨more, hmore, rfl⟩ := Option.map_eq_some_iff.mp hrest
    obtain ⟨own, hown⟩ := Option.isSome_iff_exists.mp
      ((collect_isSome_iff (lines text)).mpr fun line hline =>
        (takeLogLine_isSome_iff start stop category line).mpr (hreadable line hline))
    refine ⟨first ++ (own ++ more), ?_, Grown.insert ?_ first more⟩
    · have hupdate : (files.withContent file (before ++ text ++ after)).content file =
          some (before ++ (text ++ after)) := by
        simp only [FileSystem.withContent, Function.update_self, String.append_assoc]
      rw [scanFile, hupdate]
      dsimp only
      rw [collect_lines_append hempty hbefore, collect_lines_append hempty htext, hfirst, hown,
        hmore]
      rfl
    · exact collect_subset (fun line _ part hpart => takeLogLine_subset hpart) hown
  · refine ⟨part, ?_, Grown.refl _ _⟩
    rw [← hpart, scanFile, scanFile, FileSystem.withContent]
    simp only [Function.update_of_ne hfile]

theorem scanDirectory_grown {files next : FileSystem} (hentries : next.entries = files.entries)
    {takeLine : String → Option (List String)} {extra : List String}
    (hfiles : ∀ path part, scanFile files path takeLine = some part →
      ∃ part', scanFile next path takeLine = some part' ∧ Grown extra part part')
    {dir start stop : String} {isData : String → Bool} {answer : List String}
    (hanswer : scanDirectory files dir start stop isData takeLine = some answer) :
    ∃ answer', scanDirectory next dir start stop isData takeLine = some answer' ∧
      Grown extra answer answer' := by
  rw [scanDirectory, FileSystem.fileList, hentries]
  refine collect_grown (fun descriptor _ part hpart => ?_) hanswer
  by_cases hdata : isData (FileManager.getTail descriptor) = true
  · simp only [hdata, if_true] at hpart ⊢
    obtain ⟨inside, hinside, hscan⟩ := Option.bind_eq_some_iff.mp hpart
    rw [hinside, Option.bind_some]
    cases inside with
    | true => exact hfiles _ part hscan
    | false => exact ⟨part, hscan, Grown.refl _ _⟩
  · simp only [hdata] at hpart ⊢
    exact ⟨part, hpart, Grown.refl _ _⟩

/-- A directory with today's file only. -/
theorem subLogLines_data {files : FileSystem} {rootPath content : String}
    (hlist : files.fileList rootPath = ["data"])
    (hcontent : files.content (rootPath ++ "/" ++ "data") = some content) (start stop : String)
    (category : NameList) :
    subLogLines files reader.read rootPath start stop category =
      collect (takeLogLine reader.read start stop category) (lines content) := by
  have htail : FileManager.getTail "data" = "data" := by
    decide
  have hstem : FileManager.getStem "data" = "data" := by
    decide
  rw [subLogLines, scanDirectory, hlist, collect]
  simp only [htail, hstem, decide_true, if_true, Option.bind_some, scanFile, hcontent, collect]
  cases collect (takeLogLine reader.read start stop category) (lines content) with
  | none => rfl
  | some result => simp

def oneFile (content : String) : FileSystem where
  content _ := some content
  isFile _ := true
  entries _ := [⟨"data", false, noSlash_data⟩]

theorem fileList_oneFile (content dir : String) : (oneFile content).fileList dir = ["data"] := by
  simp [FileSystem.fileList, oneFile]

/-- A text of whole lines does no harm exactly when a query has an answer for each of them. -/
theorem harmless_iff {text : String} (htext : WholeLines text) :
    Harmless reader text ↔ ∀ line ∈ lines text, Readable reader line := by
  constructor
  · intro hharmless line hline
    have hempty : subLogLines (oneFile "") reader.read "" "" "" [] = some [] := by
      rw [subLogLines_data (fileList_oneFile "" "") rfl]
      change collect _ [""] = some []
      rw [collect_cons_of_some (takeLogLine_empty "" "" [])]
      rfl
    obtain ⟨answer, hanswer, -⟩ := hharmless (oneFile "") ("" ++ "/" ++ "data") "" "" rfl
      (Or.inl rfl) "" "" "" [] [] hempty
    have hcontent : ((oneFile "").withContent ("" ++ "/" ++ "data") ("" ++ text ++ "")).content
        ("" ++ "/" ++ "data") = some text := by
      simp only [FileSystem.withContent, Function.update_self, String.empty_append,
        String.append_empty]
    have hlist : ((oneFile "").withContent ("" ++ "/" ++ "data") ("" ++ text ++ "")).fileList "" =
        ["data"] := fileList_oneFile "" ""
    rw [subLogLines_data hlist hcontent] at hanswer
    have hall := (collect_isSome_iff (lines text)).mp (Option.isSome_iff_exists.mpr ⟨_, hanswer⟩)
    exact (takeLogLine_isSome_iff _ _ _ line).mp (hall line hline)
  · intro hreadable files path before after hcontent hbefore rootPath start stop category answer
      hanswer
    have hfiles : ∀ file part,
        scanFile files file (takeLogLine reader.read start stop category) = some part →
          ∃ part', scanFile (files.withContent path (before ++ text ++ after)) file
            (takeLogLine reader.read start stop category) = some part' ∧
            Grown (lines text) part part' :=
      fun file part hpart => scanFile_grown htext hreadable hcontent hbefore hpart
    have hentries : (files.withContent path (before ++ text ++ after)).entries =
        files.entries := rfl
    exact scanDirectory_grown hentries hfiles hanswer

theorem isSome_get_flatTree (entries : List (String × String)) (key : String) :
    ((flatTree entries).get key).isSome ↔ ∃ entry ∈ entries, entry.1 = key := by
  rw [PTree.get, PTree.getChild, Option.isSome_map, Option.isSome_map, List.find?_isSome]
  simp [flatTree, PTree.children]

theorem lines_line {line : String} (hbreak : '\n' ∉ line.toList) :
    lines (line ++ "\n") = [line, ""] := by
  have hjoin := lines_join line ""
  rw [String.append_empty] at hjoin
  rw [hjoin, lines, List.splitOn_eq_singleton hbreak, List.map_singleton, String.ofList_toList]
  rfl

/-- A line that is read back does no harm exactly when a query can pass over it or finds the
fields it asks for. -/
theorem harmless_of_unescaped_iff (hscalar : Scalar msg) (hunescaped : Unescaped reader msg) :
    Harmless reader (writelog msg) ↔ Answerable msg := by
  have hbreak := (notMem_logLine (keptFields msg)).mpr hunescaped.2
  have hread := (reader.read_flat_iff (keptFields msg)).mpr hunescaped.1
  rw [← logLine_eq] at hread
  have hempty : Readable reader "" := Or.inl (show "".utf8ByteSize < 10 by decide)
  rw [writelog, logged_eq hscalar, harmless_iff (Or.inr ⟨_, rfl⟩), lines_line hbreak,
    List.forall_mem_cons, List.forall_mem_singleton, and_iff_left hempty, Readable, Answerable,
    hread]
  simp only [Option.some.injEq, exists_eq_left', isSome_get_flatTree]

/-- When the line of an event is read back as its fields, and when every query is besides left
as it would be without it. -/
theorem restored_harmless_iff (reader : JsonReader) (msg : MMessage) (hscalar : Scalar msg) :
    (Restored reader msg ↔ Unescaped reader msg) ∧
      (Restored reader msg ∧ Harmless reader (writelog msg) ↔
        Unescaped reader msg ∧ Answerable msg) := by
  refine ⟨restored_iff_unescaped hscalar, ?_⟩
  rw [restored_iff_unescaped hscalar]
  exact and_congr_right fun hunescaped => harmless_of_unescaped_iff hscalar hunescaped

/-- The event of a device with that name. -/
def switched (name : String) : MMessage where
  mtype := "logcmd"
  msubtype := "archive"
  priority := 0
  fields := {
    entries := [("class", .mstring "event"), ("feature", .mstring "switch_event"),
      ("name", .mstring name), ("time", .mstring "20240115120000"), ("type", .mstring "event")]
    sorted := List.Pairwise.of_map Prod.fst (fun _ _ hlt => hlt)
      (show ["class", "feature", "name", "time", "type"].Pairwise (· < ·) by decide +kernel) }

theorem scalar_switched (name : String) : Scalar (switched name) := by
  simp [Scalar, switched]

/-- The event of a device without a special character in its name. -/
theorem restored_harmless_lamp :
    Restored flatReader (switched "lamp") ∧ Harmless flatReader (writelog (switched "lamp")) := by
  refine (restored_harmless_iff flatReader (switched "lamp") (scalar_switched "lamp")).2.mpr
    ⟨⟨?_, ?_⟩, Or.inr ⟨?_, ?_⟩⟩
  · decide +kernel
  · decide +kernel
  · exact ⟨("time", "20240115120000"), by decide +kernel, rfl⟩
  · exact ⟨("type", "event"), by decide +kernel, rfl⟩

/-- A quote in the name of a device: the line is not read back, and every query over the file
is left without an answer. -/
theorem not_restored_harmless_quote :
    ¬ Restored flatReader (switched "\"big\" lamp") ∧
      ¬ Harmless flatReader (writelog (switched "\"big\" lamp")) := by
  have hscalar := scalar_switched "\"big\" lamp"
  refine ⟨fun hrestored => ?_, fun hharmless => ?_⟩
  · have hplain := ((restored_iff_unescaped hscalar).mp hrestored).1
    exact absurd hplain (by decide +kernel)
  · rw [writelog, harmless_iff (Or.inr ⟨_, rfl⟩), lines_line (by decide +kernel)] at hharmless
    have hnone : (flatReader.read (logLine (logged (switched "\"big\" lamp")))).isSome = false := by
      decide +kernel
    rcases hharmless _ List.mem_cons_self with hshort | ⟨tree, hread, -⟩
    · exact absurd hshort (by decide +kernel)
    · rw [hread] at hnone
      cases hnone

end ArchiveThread

end Hat
