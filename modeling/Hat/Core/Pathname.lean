import Mathlib.Data.List.Basic
import Mathlib.Data.String.Basic

/-!
# Path names

A place in a tree of directories is the list of the names that lead to it.  A path is
followed segment by segment: an empty segment and a dot stay, two dots go to the parent,
and every other segment goes down.
-/

namespace Hat.Pathname

def split (path : String) : List String := (path.toList.splitOn '/').map String.ofList

/-- A segment that goes neither up nor nowhere. -/
def Proper (segment : String) : Prop := segment ≠ "" ∧ segment ≠ "."

instance (segment : String) : Decidable (Proper segment) :=
  inferInstanceAs (Decidable (_ ∧ _))

def step (place : List String) (segment : String) : List String :=
  if segment = ".." then place.dropLast
  else if Proper segment then place ++ [segment]
  else place

def walk (place segments : List String) : List String := segments.foldl step place

/-- An absolute path starts at the top, any other one at the working directory. -/
def start (cwd : List String) (path : String) : List String :=
  if path.toList.head? = some '/' then [] else cwd

/-- The place that a path denotes. -/
def resolve (cwd : List String) (path : String) : List String :=
  walk (start cwd path) (split path)

@[simp]
theorem walk_nil (place : List String) : walk place [] = place := rfl

@[simp]
theorem walk_cons (place : List String) (segment : String) (rest : List String) :
    walk place (segment :: rest) = walk (step place segment) rest := rfl

theorem walk_append (place first second : List String) :
    walk place (first ++ second) = walk (walk place first) second :=
  List.foldl_append

@[simp]
theorem step_empty (place : List String) : step place "" = place := rfl

theorem step_of_proper (place : List String) {segment : String} (hproper : Proper segment)
    (hparent : segment ≠ "..") : step place segment = place ++ [segment] := by
  rw [step, if_neg hparent, if_pos hproper]

/-- Without a way up, the proper segments are appended. -/
theorem walk_of_notMem {segments : List String} (hparent : ".." ∉ segments)
    (place : List String) :
    walk place segments = place ++ segments.filter fun segment => Proper segment := by
  induction segments generalizing place with
  | nil => exact (List.append_nil place).symm
  | cons segment rest ih =>
      have hsegment : segment ≠ ".." := (List.ne_of_not_mem_cons hparent).symm
      rw [walk_cons, ih (List.not_mem_of_not_mem_cons hparent)]
      by_cases hproper : Proper segment
      · rw [step_of_proper place hproper hsegment,
          List.filter_cons_of_pos (by simpa using hproper), List.append_assoc,
          List.singleton_append]
      · rw [step, if_neg hsegment, if_neg hproper,
          List.filter_cons_of_neg (by simpa using hproper)]

/-- One segment more: how many steps the segments go up from where they start, and the names by
which they go down from there. -/
def turn (course : ℕ × List String) (segment : String) : ℕ × List String :=
  if segment = ".." then
    if course.2 = [] then (course.1 + 1, []) else (course.1, course.2.dropLast)
  else if Proper segment then (course.1, course.2 ++ [segment])
  else course

/-- How many steps the segments go up. -/
def climbs (segments : List String) : ℕ := (segments.foldl turn (0, [])).1

/-- The names by which they go down from there. -/
def kept (segments : List String) : List String := (segments.foldl turn (0, [])).2

theorem walk_course (segments place : List String) (up : ℕ) (down : List String) :
    walk (place.take (place.length - up) ++ down) segments =
      place.take (place.length - (segments.foldl turn (up, down)).1) ++
        (segments.foldl turn (up, down)).2 := by
  induction segments generalizing up down with
  | nil => rfl
  | cons segment rest ih =>
      rw [walk_cons, List.foldl_cons, step, turn]
      by_cases hparent : segment = ".."
      · rw [if_pos hparent, if_pos hparent]
        by_cases hdown : down = []
        · rw [if_pos hdown, hdown, List.append_nil, ← ih, List.append_nil, List.dropLast_eq_take,
            List.take_take, List.length_take]
          congr 2
          omega
        · rw [if_neg hdown, List.dropLast_append_of_ne_nil hdown, ih]
      · rw [if_neg hparent, if_neg hparent]
        by_cases hproper : Proper segment
        · rw [if_pos hproper, if_pos hproper, List.append_assoc, ih]
        · rw [if_neg hproper, if_neg hproper, ih]

/-- The place that segments lead to: up from the start, and then down. -/
theorem walk_eq (place segments : List String) :
    walk place segments = place.take (place.length - climbs segments) ++ kept segments := by
  have hcourse := walk_course segments place 0 []
  rwa [Nat.sub_zero, List.take_length, List.append_nil] at hcourse

theorem split_ne_nil (path : String) : split path ≠ [] := by
  rw [split, Ne, List.map_eq_nil_iff]
  exact List.splitOn_ne_nil '/' path.toList

theorem split_join (directory path : String) :
    split (directory ++ "/" ++ path) = split directory ++ split path := by
  have hchars : (directory ++ "/" ++ path).toList = directory.toList ++ '/' :: path.toList := by
    simp
  rw [split, hchars, List.splitOn_append_cons_self, List.map_append]
  rfl

theorem split_of_notMem {name : String} (hname : '/' ∉ name.toList) : split name = [name] := by
  rw [split, List.splitOn_eq_singleton hname, List.map_singleton, String.ofList_toList]

theorem start_join (cwd : List String) (directory path : String) :
    start cwd (directory ++ "/" ++ path) = start cwd (directory ++ "/") := by
  have hhead : (directory ++ "/" ++ path).toList.head? = (directory ++ "/").toList.head? := by
    cases hchars : directory.toList with
    | nil => simp [hchars]
    | cons c rest => simp [hchars]
  rw [start, start, hhead]

/-- The pieces between separators hold none. -/
theorem eq_false_of_mem_splitOnP {α : Type*} {separates : α → Bool} {list : List α} :
    ∀ piece ∈ list.splitOnP separates, ∀ c ∈ piece, separates c = false := by
  induction list with
  | nil => simp
  | cons a rest ih =>
      rw [List.splitOnP_cons_eq_if_modifyHead]
      by_cases ha : separates a = true
      · simpa [ha] using ih
      · cases hpieces : rest.splitOnP separates with
        | nil => exact absurd hpieces (List.splitOnP_ne_nil separates rest)
        | cons first others =>
            rw [hpieces] at ih
            have hfirst : ∀ c ∈ a :: first, separates c = false :=
              List.forall_mem_cons.mpr ⟨by simpa using ha, ih first List.mem_cons_self⟩
            intro piece hpiece
            simp only [ha, Bool.false_eq_true, if_false, List.modifyHead_cons,
              List.mem_cons] at hpiece
            cases hpiece with
            | inl heq => exact heq ▸ hfirst
            | inr hmem => exact ih piece (List.mem_cons_of_mem first hmem)

theorem notMem_of_mem_splitOn {α : Type*} [BEq α] [LawfulBEq α] {c : α} {list piece : List α}
    (hpiece : piece ∈ list.splitOn c) : c ∉ piece := by
  intro hmem
  have hc := eq_false_of_mem_splitOnP piece hpiece c hmem
  simp at hc

theorem split_segment {path segment : String} (hsegment : segment ∈ split path) :
    split segment = [segment] := by
  obtain ⟨piece, hpiece, rfl⟩ := List.mem_map.mp hsegment
  apply split_of_notMem
  rw [String.toList_ofList]
  exact notMem_of_mem_splitOn hpiece

theorem resolve_slash (cwd : List String) (directory : String) :
    resolve cwd (directory ++ "/") = walk (start cwd (directory ++ "/")) (split directory) := by
  have hempty : split (directory ++ "/") = split directory ++ [""] := by
    have h := split_join directory ""
    rwa [String.append_empty] at h
  rw [resolve, hempty, walk_append, walk_cons, step_empty, walk_nil]

/-- A path below a directory is followed from the directory. -/
theorem resolve_join (cwd : List String) (directory path : String) :
    resolve cwd (directory ++ "/" ++ path) =
      walk (resolve cwd (directory ++ "/")) (split path) := by
  rw [resolve, resolve_slash, start_join, split_join, walk_append]

theorem start_slash (cwd : List String) {directory : String} (hdirectory : directory ≠ "") :
    start cwd (directory ++ "/") = start cwd directory := by
  have hhead : (directory ++ "/").toList.head? = directory.toList.head? := by
    cases hchars : directory.toList with
    | nil => exact absurd (String.toList_eq_nil_iff.mp hchars) hdirectory
    | cons c rest => simp [hchars]
  rw [start, start, hhead]

/-- A name that leads down by one step. -/
def IsName (name : String) : Prop := '/' ∉ name.toList ∧ Proper name ∧ name ≠ ".."

instance (name : String) : Decidable (IsName name) := inferInstanceAs (Decidable (_ ∧ _ ∧ _))

theorem resolve_child (cwd : List String) {directory name : String} (hdirectory : directory ≠ "")
    (hname : IsName name) :
    resolve cwd (directory ++ "/" ++ name) = resolve cwd directory ++ [name] := by
  rw [resolve_join, resolve_slash, start_slash cwd hdirectory, split_of_notMem hname.1, walk_cons,
    walk_nil, step_of_proper _ hname.2.1 hname.2.2]
  rfl

/-- A path whose last segment is exchanged is followed the same way up to there. -/
theorem resolve_sibling (cwd : List String) {directory tail home path : String}
    (hpath : directory ++ "/" ++ tail = home ++ "/" ++ path) (htail : '/' ∉ tail.toList)
    {name : String} (hname : '/' ∉ name.toList) :
    resolve cwd (directory ++ "/" ++ name) =
      walk (resolve cwd (home ++ "/")) ((split path).dropLast ++ [name]) := by
  have hsplit : split directory = split home ++ (split path).dropLast := by
    have h := congrArg (List.dropLast ∘ split) hpath
    simp only [Function.comp_apply, split_join, split_of_notMem htail,
      List.dropLast_concat] at h
    rw [h, List.dropLast_append_of_ne_nil (split_ne_nil path)]
  have hstart : start cwd (directory ++ "/") = start cwd (home ++ "/") := by
    rw [← start_join cwd directory tail, hpath, start_join]
  rw [resolve, start_join, hstart, split_join, split_of_notMem hname, hsplit, resolve_slash,
    List.append_assoc, walk_append]

end Hat.Pathname
