import Hat.Core.Pathname
import Mathlib.Data.List.Induction
import Mathlib.Logic.Function.Basic

/-!
# A disk reached by paths

A disk has a directory or a file at some places.  A path is followed from directory to
directory; a file is written by its path, and the text it has is kept under its place.  Making
directories and writing files leaves every other text alone.
-/

namespace Hat

inductive Node
  | dir
  | file (content : String)
  deriving DecidableEq

structure Disk where
  cwd : List String
  node : List String → Option Node

namespace Disk

open Pathname

/-- The top is always a directory. -/
def lookup (disk : Disk) (place : List String) : Option Node :=
  if place = [] then some .dir else disk.node place

/-- The text of the file at a place. -/
def textAt (disk : Disk) (place : List String) : Option String :=
  match disk.lookup place with
  | some (.file content) => some content
  | _ => none

/-- Each segment is followed from a directory. -/
def descend (disk : Disk) : List String → List String → Option (List String)
  | place, [] => some place
  | place, segment :: rest =>
      if disk.lookup place = some .dir then descend disk (step place segment) rest else none

def locate (disk : Disk) (path : String) : Option (List String) :=
  disk.descend (start disk.cwd path) (split path)

def isDir (disk : Disk) (path : String) : Bool :=
  (disk.locate path).bind disk.lookup = some .dir

def read (disk : Disk) (path : String) : Option String := (disk.locate path).bind disk.textAt

def isFile (disk : Disk) (path : String) : Bool := (disk.read path).isSome

def put (disk : Disk) (place : List String) (node : Option Node) : Disk :=
  { disk with node := Function.update disk.node place node }

/-- The place where a file can be opened for writing. -/
def writable (disk : Disk) (path : String) : Option (List String) :=
  (disk.locate path).filter fun place => disk.lookup place ≠ some .dir

/-- The file is written anew. -/
def create (path text : String) (disk : Disk) : Option Disk :=
  (disk.writable path).map fun place => disk.put place (some (.file text))

/-- The text goes to the end of the file, which need not be there. -/
def append (path text : String) (disk : Disk) : Option Disk :=
  (disk.writable path).map fun place =>
    disk.put place (some (.file ((disk.textAt place).getD "" ++ text)))

def makeDir (path : String) (disk : Disk) : Option Disk :=
  ((disk.locate path).filter fun place => disk.lookup place = none).map fun place =>
    disk.put place (some .dir)

def deleteFile (path : String) (disk : Disk) : Option Disk :=
  ((disk.locate path).filter fun place => (disk.textAt place).isSome).map fun place =>
    disk.put place none

variable {disk other : Disk} {place : List String} {path text : String}

theorem lookup_put_self (hplace : place ≠ []) (node : Option Node) :
    (disk.put place node).lookup place = node := by
  rw [lookup, if_neg hplace]
  exact Function.update_self place node disk.node

theorem lookup_put_of_ne {elsewhere : List String} (hne : elsewhere ≠ place)
    (node : Option Node) : (disk.put place node).lookup elsewhere = disk.lookup elsewhere := by
  have hnode : Function.update disk.node place node elsewhere = disk.node elsewhere :=
    Function.update_of_ne hne _ _
  rw [lookup, lookup]
  exact ite_congr rfl (fun _ => rfl) fun _ => hnode

theorem textAt_eq_some {content : String} :
    disk.textAt place = some content ↔ disk.lookup place = some (.file content) := by
  rw [textAt]
  split
  · rename_i found hlookup
    rw [hlookup, Option.some.injEq, Option.some.injEq, Node.file.injEq]
  · rename_i hnot
    exact iff_of_false (Option.some_ne_none _).symm (hnot content)

theorem textAt_put_of_ne {elsewhere : List String} (hne : elsewhere ≠ place)
    (node : Option Node) : (disk.put place node).textAt elsewhere = disk.textAt elsewhere := by
  rw [textAt, textAt, lookup_put_of_ne hne]

theorem ne_nil_of_lookup {node : Option Node} (hlookup : disk.lookup place = node)
    (hnot : node ≠ some .dir) : place ≠ [] := by
  rintro rfl
  exact hnot (hlookup.symm.trans (if_pos rfl))

theorem eq_walk_of_descend {segments : List String} {origin place : List String}
    (hdescend : disk.descend origin segments = some place) : place = walk origin segments := by
  induction segments generalizing origin with
  | nil => exact (Option.some.inj hdescend).symm
  | cons segment rest ih =>
      rw [descend] at hdescend
      split at hdescend
      · exact ih hdescend
      · exact absurd hdescend.symm (Option.some_ne_none _)

/-- A path that can be followed leads to the place that it denotes. -/
theorem eq_resolve_of_locate (hlocate : disk.locate path = some place) :
    place = resolve disk.cwd path := eq_walk_of_descend hlocate

/-- No directory of the disk is gone from the other one. -/
def DirsIn (disk other : Disk) : Prop :=
  other.cwd = disk.cwd ∧ ∀ place, disk.lookup place = some .dir → other.lookup place = some .dir

theorem DirsIn.refl (disk : Disk) : DirsIn disk disk := ⟨rfl, fun _ hdir => hdir⟩

theorem DirsIn.trans {third : Disk} (h : DirsIn disk other) (h' : DirsIn other third) :
    DirsIn disk third := ⟨h'.1.trans h.1, fun place hdir => h'.2 place (h.2 place hdir)⟩

theorem dirsIn_put (hnot : disk.lookup place ≠ some .dir) (node : Option Node) :
    DirsIn disk (disk.put place node) := by
  refine ⟨rfl, fun elsewhere hdir => ?_⟩
  rw [lookup_put_of_ne _ node]
  · exact hdir
  · rintro rfl
    exact hnot hdir

theorem DirsIn.descend {segments origin : List String} (h : DirsIn disk other)
    (hdescend : disk.descend origin segments = some place) :
    other.descend origin segments = some place := by
  induction segments generalizing origin with
  | nil => exact hdescend
  | cons segment rest ih =>
      rw [Disk.descend] at hdescend ⊢
      split at hdescend
      · rename_i hdir
        rw [if_pos (h.2 origin hdir)]
        exact ih hdescend
      · exact absurd hdescend.symm (Option.some_ne_none _)

/-- A path that can be followed can be followed as long as no directory goes. -/
theorem DirsIn.locate (h : DirsIn disk other) (hlocate : disk.locate path = some place) :
    other.locate path = some place := by
  rw [Disk.locate, h.1]
  exact h.descend hlocate

theorem descend_append (disk : Disk) (origin first second : List String) :
    disk.descend origin (first ++ second) =
      (disk.descend origin first).bind fun place => disk.descend place second := by
  induction first generalizing origin with
  | nil => rfl
  | cons segment rest ih =>
      rw [List.cons_append, descend, descend]
      split
      · exact ih (step origin segment)
      · rfl

/-- A name in a directory can be followed whether there is something or not. -/
theorem locate_child {directory name : String} (hdirectory : directory ≠ "")
    (hlocate : disk.locate directory = some place) (hdir : disk.lookup place = some .dir)
    (hname : IsName name) :
    disk.locate (directory ++ "/" ++ name) = some (place ++ [name]) := by
  rw [locate] at hlocate
  rw [locate, start_join, start_slash disk.cwd hdirectory, split_join, descend_append, hlocate,
    Option.bind_some, split_of_notMem hname.1, descend, if_pos hdir, descend,
    step_of_proper _ hname.2.1 hname.2.2]

/-- All texts but that of one place stay, and all directories. -/
structure Writes (disk other : Disk) (place : List String) (content : Option String) : Prop where
  dirsIn : DirsIn disk other
  self : other.textAt place = content
  others : ∀ elsewhere, elsewhere ≠ place → other.textAt elsewhere = disk.textAt elsewhere

theorem Writes.textAt (h : Writes disk other place content) :
    other.textAt = Function.update disk.textAt place content := by
  funext elsewhere
  by_cases hsame : elsewhere = place
  · rw [hsame, h.self, Function.update_self]
  · rw [h.others elsewhere hsame, Function.update_of_ne hsame]

theorem writes_put (content : Option String) (hnot : disk.lookup place ≠ some .dir) :
    Writes disk (disk.put place (content.map .file)) place content where
  dirsIn := dirsIn_put hnot _
  self := by
    rw [Disk.textAt, lookup_put_self (ne_nil_of_lookup rfl hnot)]
    cases content <;> rfl
  others _ hne := textAt_put_of_ne hne _

theorem writable_eq_some : disk.writable path = some place ↔
    disk.locate path = some place ∧ disk.lookup place ≠ some .dir := by
  rw [writable, Option.filter_eq_some_iff, decide_eq_true_eq]

theorem writes_create (hcreate : disk.create path text = some other) :
    Writes disk other (resolve disk.cwd path) (some text) := by
  obtain ⟨place, hplace, rfl⟩ := Option.map_eq_some_iff.mp hcreate
  obtain ⟨hlocate, hnot⟩ := writable_eq_some.mp hplace
  rw [← eq_resolve_of_locate hlocate]
  exact writes_put (some text) hnot

theorem writes_append (happend : disk.append path text = some other) :
    Writes disk other (resolve disk.cwd path)
      (some ((disk.textAt (resolve disk.cwd path)).getD "" ++ text)) := by
  obtain ⟨place, hplace, rfl⟩ := Option.map_eq_some_iff.mp happend
  obtain ⟨hlocate, hnot⟩ := writable_eq_some.mp hplace
  rw [← eq_resolve_of_locate hlocate]
  exact writes_put (some ((disk.textAt place).getD "" ++ text)) hnot

theorem writes_deleteFile (hdelete : disk.deleteFile path = some other) :
    Writes disk other (resolve disk.cwd path) none := by
  obtain ⟨place, hplace, rfl⟩ := Option.map_eq_some_iff.mp hdelete
  obtain ⟨hlocate, htext⟩ := Option.filter_eq_some_iff.mp hplace
  obtain ⟨content, hcontent⟩ := Option.isSome_iff_exists.mp htext
  rw [← eq_resolve_of_locate hlocate]
  apply writes_put none
  rw [textAt_eq_some.mp hcontent]
  exact fun hdir => Node.noConfusion (Option.some.inj hdir)

/-- A new directory changes no text. -/
theorem textAt_makeDir (hmake : disk.makeDir path = some other) :
    DirsIn disk other ∧ other.textAt = disk.textAt := by
  obtain ⟨place, hplace, rfl⟩ := Option.map_eq_some_iff.mp hmake
  obtain ⟨-, hnone⟩ := Option.filter_eq_some_iff.mp hplace
  rw [decide_eq_true_eq] at hnone
  have hnot : disk.lookup place ≠ some .dir := by
    rw [hnone]
    exact (Option.some_ne_none _).symm
  refine ⟨dirsIn_put hnot _, ?_⟩
  funext elsewhere
  by_cases hsame : elsewhere = place
  · rw [hsame, textAt, textAt, lookup_put_self (ne_nil_of_lookup rfl hnot), hnone]
  · exact textAt_put_of_ne hsame _

/-! ## Trees -/

/-- Whatever is on the disk is in a directory. -/
def Rooted (disk : Disk) : Prop :=
  ∀ place name, disk.lookup (place ++ [name]) ≠ none → disk.lookup place = some .dir

theorem Rooted.lookup_of_append (h : disk.Rooted) {rest : List String} (hrest : rest ≠ [])
    (hsome : disk.lookup (place ++ rest) ≠ none) : disk.lookup place = some .dir := by
  induction rest using List.reverseRec with
  | nil => exact absurd rfl hrest
  | append_singleton rest name ih =>
      rw [← List.append_assoc] at hsome
      have hdir := h _ _ hsome
      by_cases hnil : rest = []
      · rwa [hnil, List.append_nil] at hdir
      · exact ih hnil (hdir ▸ Option.some_ne_none _)

/-- What is not a directory is reached from its own. -/
theorem Rooted.parent_of_descend (h : disk.Rooted) {segments origin : List String}
    (hsegments : segments ≠ []) (hdescend : disk.descend origin segments = some place)
    (hnot : disk.lookup place ≠ some .dir) :
    ∃ parent name, place = parent ++ [name] ∧ disk.lookup parent = some .dir := by
  induction segments generalizing origin with
  | nil => exact absurd rfl hsegments
  | cons segment rest ih =>
      rw [descend] at hdescend
      split at hdescend
      · rename_i hdir
        by_cases hrest : rest = []
        · rw [hrest, descend, Option.some.injEq] at hdescend
          rw [step] at hdescend
          split_ifs at hdescend with hup hproper
          · -- The directory above a directory is one too.
            have hlast : origin.dropLast ++ [origin.getLastD ""] = origin ∨ origin = [] := by
              cases hfrom : origin.getLast? with
              | none => exact Or.inr (List.getLast?_eq_none_iff.mp hfrom)
              | some name =>
                  refine Or.inl ?_
                  rw [List.getLastD_eq_getLast?, hfrom, Option.getD_some,
                    List.dropLast_append_getLast? name hfrom]
            obtain hlast | hnil := hlast
            · have hparent := h origin.dropLast (origin.getLastD "")
                (by rw [hlast, hdir]; exact Option.some_ne_none _)
              exact absurd (hdescend ▸ hparent) hnot
            · rw [hnil, List.dropLast_nil] at hdescend
              exact absurd (hdescend ▸ if_pos rfl) hnot
          · exact ⟨origin, segment, hdescend.symm, hdir⟩
          · exact absurd (hdescend ▸ hdir) hnot
        · exact ih hrest hdescend
      · exact absurd hdescend.symm (Option.some_ne_none _)

/-- Where a file can be put, something else than a directory can. -/
theorem Rooted.put (h : disk.Rooted) (hlocate : disk.locate path = some place)
    (hnot : disk.lookup place ≠ some .dir) (node : Option Node) : (disk.put place node).Rooted := by
  intro inside name hsome
  have hinside : disk.lookup inside = some .dir := by
    by_cases hself : inside ++ [name] = place
    · obtain ⟨parent, last, hplace, hdir⟩ :=
        h.parent_of_descend (split_ne_nil path) hlocate hnot
      rw [hplace] at hself
      rw [(List.append_inj' hself rfl).1]
      exact hdir
    · rw [lookup_put_of_ne hself] at hsome
      exact h inside name hsome
  rw [lookup_put_of_ne]
  · exact hinside
  · rintro rfl
    exact hnot hinside

theorem Rooted.create (h : disk.Rooted) (hcreate : disk.create path text = some other) :
    other.Rooted := by
  obtain ⟨place, hplace, rfl⟩ := Option.map_eq_some_iff.mp hcreate
  obtain ⟨hlocate, hnot⟩ := writable_eq_some.mp hplace
  exact h.put hlocate hnot _

theorem Rooted.append (h : disk.Rooted) (happend : disk.append path text = some other) :
    other.Rooted := by
  obtain ⟨place, hplace, rfl⟩ := Option.map_eq_some_iff.mp happend
  obtain ⟨hlocate, hnot⟩ := writable_eq_some.mp hplace
  exact h.put hlocate hnot _

theorem Rooted.makeDir (h : disk.Rooted) (hmake : disk.makeDir path = some other) :
    other.Rooted := by
  obtain ⟨place, hplace, rfl⟩ := Option.map_eq_some_iff.mp hmake
  obtain ⟨hlocate, hnone⟩ := Option.filter_eq_some_iff.mp hplace
  rw [decide_eq_true_eq] at hnone
  exact h.put hlocate (hnone ▸ (Option.some_ne_none _).symm) _

theorem Rooted.deleteFile (h : disk.Rooted) (hdelete : disk.deleteFile path = some other) :
    other.Rooted := by
  obtain ⟨place, hplace, rfl⟩ := Option.map_eq_some_iff.mp hdelete
  obtain ⟨hlocate, htext⟩ := Option.filter_eq_some_iff.mp hplace
  obtain ⟨content, hcontent⟩ := Option.isSome_iff_exists.mp htext
  refine h.put hlocate ?_ _
  rw [textAt_eq_some.mp hcontent]
  exact fun hdir => Node.noConfusion (Option.some.inj hdir)

theorem Rooted.descend_of_lookup (h : disk.Rooted) {front origin : List String} {name : String}
    (hfront : ".." ∉ front) (hname : Proper name ∧ name ≠ "..")
    (hsome : disk.lookup (walk origin (front ++ [name])) ≠ none) :
    disk.descend origin (front ++ [name]) = some (walk origin (front ++ [name])) := by
  have hdir : ∀ origin, disk.lookup (walk origin (front ++ [name])) ≠ none →
      disk.lookup origin = some .dir := by
    intro origin hsome
    rw [walk_of_notMem (by simp [hfront, hname.2.symm]), List.filter_append] at hsome
    refine h.lookup_of_append ?_ hsome
    simp [hname.1]
  induction front generalizing origin with
  | nil => rw [List.nil_append, descend, if_pos (hdir origin hsome), descend, walk_cons, walk_nil]
  | cons segment rest ih =>
      have hrest := List.not_mem_of_not_mem_cons hfront
      rw [List.cons_append, descend, if_pos (hdir origin hsome)]
      refine ih hrest hsome fun origin hsome => ?_
      rw [walk_of_notMem (by simp [hrest, hname.2.symm]), List.filter_append] at hsome
      refine h.lookup_of_append ?_ hsome
      simp [hname.1]

/-- A path without a way up that ends in a name reads the text at its place. -/
theorem Rooted.read_eq (h : disk.Rooted) {directory name : String}
    (hdirectory : ".." ∉ split directory) (hslash : '/' ∉ name.toList)
    (hname : Proper name ∧ name ≠ "..") :
    disk.read (directory ++ "/" ++ name) =
      disk.textAt (resolve disk.cwd (directory ++ "/" ++ name)) := by
  have hsplit : split (directory ++ "/" ++ name) = split directory ++ [name] := by
    rw [split_join, split_of_notMem hslash]
  rw [read, locate, resolve, hsplit]
  cases htext : disk.textAt (walk (start disk.cwd (directory ++ "/" ++ name))
      (split directory ++ [name])) with
  | some content =>
      rw [h.descend_of_lookup hdirectory hname
        (by rw [textAt_eq_some.mp htext]; exact Option.some_ne_none _)]
      exact htext
  | none =>
      cases hdescend : disk.descend (start disk.cwd (directory ++ "/" ++ name))
          (split directory ++ [name]) with
      | none => rfl
      | some place =>
          rw [eq_walk_of_descend hdescend]
          exact htext

end Disk

end Hat
