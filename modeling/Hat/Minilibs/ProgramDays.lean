import Hat.Minilibs.Program
import Mathlib.Data.List.Find
import Mathlib.Data.List.Induction

/-!
# The day of a program for a date

An entry of a program gives a year, a month, a day and a weekday or leaves them open, which
makes sixteen shapes of entries.  The entry of a date is looked for under five keys: those of
five shapes, the ones with more fields first.
-/

namespace Hat

open Hat.Hsrv

/-- The fields of an entry or of a date. -/
structure DayFields where
  year : String
  month : String
  day : String
  week : String
  deriving DecidableEq

/-- The fields that an entry gives. -/
structure DayShape where
  year : Bool
  month : Bool
  day : Bool
  week : Bool
  deriving DecidableEq

namespace DayShape

/-- The number of fields that are given. -/
def size (shape : DayShape) : ℕ :=
  shape.year.toNat + shape.month.toNat + shape.day.toNat + shape.week.toNat

end DayShape

namespace DayFields

def key (fields : DayFields) : String :=
  fields.year ++ "_" ++ fields.month ++ "_" ++ fields.day ++ "_" ++ fields.week

def ofDate (tm : Tm) : DayFields :=
  ⟨toString tm.year, toString tm.mon, toString tm.mday, toString tm.wday⟩

/-- The fields of the element in a file of that year. -/
def ofElement (year : String) (element : DayElement) : DayFields :=
  ⟨year, attrOr element.month, attrOr element.day, attrOr element.weekday⟩

def shape (fields : DayFields) : DayShape :=
  ⟨fields.year ≠ "*", fields.month ≠ "*", fields.day ≠ "*", fields.week ≠ "*"⟩

/-- The fields of the shape, with the others left open. -/
def masked (fields : DayFields) (shape : DayShape) : DayFields where
  year := if shape.year then fields.year else "*"
  month := if shape.month then fields.month else "*"
  day := if shape.day then fields.day else "*"
  week := if shape.week then fields.week else "*"

/-- Each field is open or equal to that of the date. -/
def Matches (fields date : DayFields) : Prop :=
  (fields.year = "*" ∨ fields.year = date.year) ∧ (fields.month = "*" ∨ fields.month = date.month) ∧
    (fields.day = "*" ∨ fields.day = date.day) ∧ (fields.week = "*" ∨ fields.week = date.week)

instance (fields date : DayFields) : Decidable (fields.Matches date) :=
  inferInstanceAs (Decidable (_ ∧ _))

end DayFields

namespace Program

/-- The shapes whose keys are looked for. -/
def shapes : List DayShape :=
  [⟨true, true, true, true⟩, ⟨false, true, true, true⟩, ⟨false, false, false, true⟩,
    ⟨false, true, false, false⟩, ⟨false, false, false, false⟩]

/-- The year and the entries that `load` reads. -/
def entriesOf (home : HomeDir) (fname : String) : String × List DayElement :=
  match home.programs.lookup fname with
  | some (.programs year days) => (attrOr year, days)
  | _ => ("*", [])

/-- The key at which `getDay` stops. -/
def stopKey (keys : List String) (program : Program) : Option String :=
  program.doc.bind fun days => keys.find? days.contains

/-- Whenever an entry matches the date there is an entry found, which matches it and gives at
least as many fields as any other entry that does. -/
def FindsBest (home : HomeDir) (fname : String) (tm : Tm) : Prop :=
  let year := (entriesOf home fname).1
  let days := (entriesOf home fname).2
  ((∃ element ∈ days, (DayFields.ofElement year element).Matches (DayFields.ofDate tm)) →
      ((load home fname).getDay (mkaccesskey tm)).isSome) ∧
    ∀ key, (load home fname).stopKey (mkaccesskey tm) = some key →
      ∃ element ∈ days, dayKey year element = key ∧
        (load home fname).getDay (mkaccesskey tm) = some (DayProgram.new element) ∧
        (DayFields.ofElement year element).Matches (DayFields.ofDate tm) ∧
        ∀ other ∈ days, (DayFields.ofElement year other).Matches (DayFields.ofDate tm) →
          (DayFields.ofElement year other).shape.size ≤
            (DayFields.ofElement year element).shape.size

/-- Every entry that matches the date is outdone or equalled by one of the five shapes that
does. -/
def BestHasKey (home : HomeDir) (fname : String) (tm : Tm) : Prop :=
  let year := (entriesOf home fname).1
  let days := (entriesOf home fname).2
  ∀ other ∈ days, (DayFields.ofElement year other).Matches (DayFields.ofDate tm) →
    ∃ element ∈ days, (DayFields.ofElement year element).Matches (DayFields.ofDate tm) ∧
      (DayFields.ofElement year element).shape ∈ shapes ∧
        (DayFields.ofElement year other).shape.size ≤
          (DayFields.ofElement year element).shape.size

end Program

namespace DayFields

/-- No field has the separator. -/
def Separable (fields : DayFields) : Prop :=
  ∀ field ∈ [fields.year, fields.month, fields.day, fields.week], '_' ∉ field.toList

theorem splitOn_key (fields : DayFields) :
    fields.key.toList.splitOn '_' = fields.year.toList.splitOn '_' ++
      (fields.month.toList.splitOn '_' ++ (fields.day.toList.splitOn '_' ++
        fields.week.toList.splitOn '_')) := by
  have hchars : fields.key.toList = fields.year.toList ++ '_' :: (fields.month.toList ++
      '_' :: (fields.day.toList ++ '_' :: fields.week.toList)) := by
    simp [key]
  rw [hchars, List.splitOn_append_cons_self, List.splitOn_append_cons_self,
    List.splitOn_append_cons_self]

theorem eq_of_splitOn_eq_singleton {chars piece : List Char} {c : Char}
    (h : chars.splitOn c = [piece]) : chars = piece := by
  have hjoin : [c].intercalate (chars.splitOn c) = chars := List.intercalate_splitOn c
  rw [h] at hjoin
  simpa using hjoin.symm

/-- A key whose fields have no separator tells its fields. -/
theorem key_inj {fields other : DayFields} (hother : other.Separable)
    (h : fields.key = other.key) : fields = other := by
  have hpieces : fields.key.toList.splitOn '_' =
      [other.year.toList, other.month.toList, other.day.toList, other.week.toList] := by
    simp only [Separable, List.forall_mem_cons] at hother
    obtain ⟨hyear, hmonth, hday, hweek, -⟩ := hother
    rw [h, splitOn_key, List.splitOn_eq_singleton hyear, List.splitOn_eq_singleton hmonth,
      List.splitOn_eq_singleton hday, List.splitOn_eq_singleton hweek]
    rfl
  rw [splitOn_key] at hpieces
  -- Four pieces from four fields: each field is one piece.
  have hone : ∀ chars : List Char, 0 < (chars.splitOn '_').length := fun chars =>
    List.length_pos_iff.mpr (List.splitOn_ne_nil '_' chars)
  have hlength := congrArg List.length hpieces
  simp only [List.length_append, List.length_cons, List.length_nil] at hlength
  have hyear := hone fields.year.toList
  have hmonth := hone fields.month.toList
  have hday := hone fields.day.toList
  have hweek := hone fields.week.toList
  obtain ⟨year, hyear⟩ := List.length_eq_one_iff.mp
    (show (fields.year.toList.splitOn '_').length = 1 by omega)
  obtain ⟨month, hmonth⟩ := List.length_eq_one_iff.mp
    (show (fields.month.toList.splitOn '_').length = 1 by omega)
  obtain ⟨day, hday⟩ := List.length_eq_one_iff.mp
    (show (fields.day.toList.splitOn '_').length = 1 by omega)
  obtain ⟨week, hweek⟩ := List.length_eq_one_iff.mp
    (show (fields.week.toList.splitOn '_').length = 1 by omega)
  rw [hyear, hmonth, hday, hweek] at hpieces
  simp only [List.cons_append, List.nil_append, List.cons.injEq, and_true] at hpieces
  obtain ⟨rfl, rfl, rfl, rfl⟩ := hpieces
  obtain ⟨y, m, d, w⟩ := fields
  obtain ⟨y', m', d', w'⟩ := other
  simp only [mk.injEq]
  exact ⟨String.toList_inj.mp (eq_of_splitOn_eq_singleton hyear),
    String.toList_inj.mp (eq_of_splitOn_eq_singleton hmonth),
    String.toList_inj.mp (eq_of_splitOn_eq_singleton hday),
    String.toList_inj.mp (eq_of_splitOn_eq_singleton hweek)⟩

theorem digits_toString (n : ℕ) : ∀ c ∈ (toString n).toList, c.isDigit := by
  intro c hc
  rw [Nat.toString_eq_repr, Nat.repr, String.toList_ofList] at hc
  exact Nat.isDigit_of_mem_toDigits (by decide) (le_refl 10) hc

theorem toString_ne_star (n : ℕ) : toString n ≠ "*" := by
  intro h
  have hdigit := digits_toString n '*'
  rw [h] at hdigit
  exact absurd (hdigit (by decide)) (by decide)

theorem notMem_toString (n : ℕ) : '_' ∉ (toString n).toList := by
  intro h
  exact absurd (digits_toString n '_' h) (by decide)

theorem separable_masked (tm : Tm) (shape : DayShape) :
    ((ofDate tm).masked shape).Separable := by
  have hfield : ∀ (given : Bool) (n : ℕ),
      '_' ∉ (if given = true then toString n else "*").toList := by
    intro given n
    cases given with
    | false => exact show '_' ∉ "*".toList by decide
    | true => exact notMem_toString n
  simp only [Separable, masked, ofDate, List.forall_mem_cons]
  exact ⟨hfield _ _, hfield _ _, hfield _ _, hfield _ _, fun _ h => absurd h List.not_mem_nil⟩

theorem shape_masked (tm : Tm) (shape : DayShape) : ((ofDate tm).masked shape).shape = shape := by
  have hfield : ∀ (given : Bool) (n : ℕ),
      decide ((if given = true then toString n else "*") ≠ "*") = given := by
    intro given n
    cases given with
    | false => rfl
    | true => exact decide_eq_true (toString_ne_star n)
  obtain ⟨year, month, day, week⟩ := shape
  rw [DayFields.shape, DayShape.mk.injEq]
  exact ⟨hfield _ _, hfield _ _, hfield _ _, hfield _ _⟩

/-- The fields that match a date are those of the date in their shape. -/
theorem matches_iff (fields date : DayFields) :
    fields.Matches date ↔ fields = date.masked fields.shape := by
  obtain ⟨year, month, day, week⟩ := fields
  have hfield : ∀ field part : String,
      (field = "*" ∨ field = part) ↔ field = if decide (field ≠ "*") = true then part else "*" := by
    intro field part
    by_cases hstar : field = "*" <;> simp [hstar]
  rw [masked, mk.injEq]
  exact and_congr (hfield _ _) (and_congr (hfield _ _) (and_congr (hfield _ _) (hfield _ _)))

end DayFields

/-! ## The entry that is found -/

namespace Program

theorem mkaccesskey_eq (tm : Tm) :
    mkaccesskey tm = shapes.map fun shape => ((DayFields.ofDate tm).masked shape).key := by
  simp only [mkaccesskey, shapes, List.map_cons, List.map_nil, DayFields.key, DayFields.masked,
    DayFields.ofDate, if_true, Bool.false_eq_true, if_false, List.cons.injEq, and_true, true_and]
  refine ⟨?_, ?_, ?_, ?_⟩ <;> refine String.toList_inj.mp ?_ <;> simp

theorem contains_readDays (year : String) (days : List DayElement) (key : String) :
    (readDays year days).contains key = true ↔ ∃ element ∈ days, dayKey year element = key := by
  induction days using List.reverseRecOn with
  | nil => simp [readDays, SortedMap.contains, SortedMap.find?_empty]
  | append_singleton front last ih =>
      rw [readDays, List.foldl_append, ← readDays, List.foldl_cons, List.foldl_nil,
        SortedMap.contains_insert, ih]
      simp [or_and_right, exists_or, or_comm]

/-- What stands under a key is the day of an entry with that key. -/
theorem exists_of_find?_readDays {year key : String} {days : List DayElement} {day : DayProgram}
    (h : (readDays year days).find? key = some day) :
    ∃ element ∈ days, dayKey year element = key ∧ day = DayProgram.new element := by
  induction days using List.reverseRecOn with
  | nil => exact absurd h.symm (Option.some_ne_none day)
  | append_singleton front last ih =>
      rw [readDays, List.foldl_append, ← readDays, List.foldl_cons, List.foldl_nil,
        SortedMap.find?_insert] at h
      by_cases hkey : dayKey year last = key
      · rw [if_pos hkey] at h
        exact ⟨last, by simp, hkey, (Option.some.inj h).symm⟩
      · rw [if_neg hkey] at h
        obtain ⟨element, hmem, hboth⟩ := ih h
        exact ⟨element, List.mem_append_left _ hmem, hboth⟩

/-- `getDay` gives what stands under the key at which it stops. -/
theorem getDay_eq (keys : List String) (program : Program) :
    program.getDay keys = (program.stopKey keys).bind fun key =>
      program.doc.bind fun days => days.find? key := by
  rw [getDay, stopKey]
  cases program.doc with
  | none => rfl
  | some days =>
      simp only [Option.bind_some]
      induction keys with
      | nil => rfl
      | cons key rest ih =>
          rw [List.findSome?_cons, List.find?_cons]
          cases hfind : days.find? key with
          | none => simpa [SortedMap.contains, hfind] using ih
          | some day => simp [SortedMap.contains, hfind]

/-- `load` reads the entries of the file. -/
theorem doc_load (home : HomeDir) (fname : String) :
    (load home fname).doc = none ∧ (entriesOf home fname).2 = [] ∨
      (load home fname).doc =
        some (readDays (entriesOf home fname).1 (entriesOf home fname).2) := by
  rw [load, entriesOf]
  cases home.programs.lookup fname with
  | none => exact .inl ⟨rfl, rfl⟩
  | some file =>
      cases file with
      | other => exact .inl ⟨rfl, rfl⟩
      | unparsable => exact .inr rfl
      | programs year days => exact .inr rfl

theorem contains_of_stopKey {home : HomeDir} {fname key : String} {keys : List String}
    (h : (load home fname).stopKey keys = some key) :
    ∃ element ∈ (entriesOf home fname).2, dayKey (entriesOf home fname).1 element = key ∧
      (load home fname).getDay keys = some (DayProgram.new element) := by
  rw [getDay_eq, h, Option.bind_some]
  rw [stopKey] at h
  rcases doc_load home fname with ⟨hnone, -⟩ | hsome
  · rw [hnone] at h
    exact absurd h.symm (Option.some_ne_none key)
  · rw [hsome, Option.bind_some] at h ⊢
    have hcontains := List.find?_some h
    obtain ⟨day, hday⟩ := Option.isSome_iff_exists.mp hcontains
    obtain ⟨element, hmem, hkey, rfl⟩ := exists_of_find?_readDays hday
    exact ⟨element, hmem, hkey, hday⟩

theorem stopKey_eq_find? {home : HomeDir} {fname : String} (keys : List String)
    (hentries : (entriesOf home fname).2 ≠ []) :
    (load home fname).stopKey keys = keys.find?
      (readDays (entriesOf home fname).1 (entriesOf home fname).2).contains := by
  rcases doc_load home fname with ⟨-, hnil⟩ | hsome
  · exact absurd hnil hentries
  · rw [stopKey, hsome, Option.bind_some]

/-- The shapes stand in the order of their sizes. -/
theorem shapes_sorted : shapes.Pairwise fun first second => second.size ≤ first.size := by
  decide

/-- The first of the shapes with a property is one of the largest. -/
theorem size_le_of_find? {p : DayShape → Bool} {shape other : DayShape}
    (hfind : shapes.find? p = some shape) (hother : other ∈ shapes) (hp : p other = true) :
    other.size ≤ shape.size := by
  obtain ⟨-, before, after, hsplit, hbefore⟩ := List.find?_eq_some_iff_append.mp hfind
  have hsorted := shapes_sorted
  rw [hsplit] at hother hsorted
  rcases List.mem_append.mp hother with hfirst | hlater
  · exact absurd hp (by simpa using hbefore other hfirst)
  · rcases List.mem_cons.mp hlater with rfl | hafter
    · exact le_refl _
    · exact (List.pairwise_cons.mp (List.pairwise_append.mp hsorted).2.1).1 other hafter

section Entries

variable {home : HomeDir} {fname : String} {tm : Tm}

/-- The key of an entry that matches the date is that of its shape. -/
theorem dayKey_of_matches {year : String} {element : DayElement}
    (h : (DayFields.ofElement year element).Matches (DayFields.ofDate tm)) :
    dayKey year element =
      ((DayFields.ofDate tm).masked (DayFields.ofElement year element).shape).key := by
  rw [← (DayFields.matches_iff _ _).mp h]
  rfl

/-- An entry with one of the five keys matches the date, and has the shape of that key. -/
theorem matches_of_dayKey {year : String} {element : DayElement} {shape : DayShape}
    (h : dayKey year element = ((DayFields.ofDate tm).masked shape).key) :
    (DayFields.ofElement year element).Matches (DayFields.ofDate tm) ∧
      (DayFields.ofElement year element).shape = shape := by
  have hfields : DayFields.ofElement year element = (DayFields.ofDate tm).masked shape :=
    DayFields.key_inj (DayFields.separable_masked tm shape) h
  rw [DayFields.matches_iff, hfields, DayFields.shape_masked]
  exact ⟨rfl, rfl⟩

theorem bestHasKey_of_findsBest (h : FindsBest home fname tm) : BestHasKey home fname tm := by
  intro other hmem hother
  obtain ⟨hfinds, hbest⟩ := h
  obtain ⟨day, hday⟩ := Option.isSome_iff_exists.mp (hfinds ⟨other, hmem, hother⟩)
  rw [getDay_eq] at hday
  obtain ⟨key, hkey, -⟩ := Option.bind_eq_some_iff.mp hday
  obtain ⟨element, helement, hdayKey, -, hmatches, hmost⟩ := hbest key hkey
  refine ⟨element, helement, hmatches, ?_, hmost other hmem hother⟩
  obtain ⟨_, -, hfind⟩ := Option.bind_eq_some_iff.mp hkey
  have hkeys := List.mem_of_find?_eq_some hfind
  rw [mkaccesskey_eq] at hkeys
  obtain ⟨shape, hshape, hkey'⟩ := List.mem_map.mp hkeys
  rw [(matches_of_dayKey (hdayKey.trans hkey'.symm)).2]
  exact hshape

theorem findsBest_of_bestHasKey (h : BestHasKey home fname tm) : FindsBest home fname tm := by
  have hcontains : ∀ element ∈ (entriesOf home fname).2,
      (DayFields.ofElement (entriesOf home fname).1 element).Matches (DayFields.ofDate tm) →
        (readDays (entriesOf home fname).1 (entriesOf home fname).2).contains
          ((DayFields.ofDate tm).masked
            (DayFields.ofElement (entriesOf home fname).1 element).shape).key = true := by
    intro element hmem hmatches
    exact (contains_readDays _ _ _).mpr ⟨element, hmem, dayKey_of_matches hmatches⟩
  refine ⟨?_, ?_⟩
  · rintro ⟨other, hmem, hother⟩
    obtain ⟨element, helement, hmatches, hshape, -⟩ := h other hmem hother
    have hsome : ((load home fname).stopKey (mkaccesskey tm)).isSome := by
      rw [stopKey_eq_find? _ (List.ne_nil_of_mem hmem), mkaccesskey_eq, List.find?_isSome]
      exact ⟨_, List.mem_map_of_mem hshape, hcontains element helement hmatches⟩
    obtain ⟨key, hkey⟩ := Option.isSome_iff_exists.mp hsome
    obtain ⟨_, -, -, hday⟩ := contains_of_stopKey hkey
    rw [hday]
    rfl
  · intro key hkey
    obtain ⟨element, hmem, hdayKey, hday⟩ := contains_of_stopKey hkey
    have hfind := hkey
    rw [stopKey_eq_find? _ (List.ne_nil_of_mem hmem), mkaccesskey_eq, List.find?_map] at hfind
    obtain ⟨shape, hshape, hkey'⟩ := Option.map_eq_some_iff.mp hfind
    obtain ⟨hmatches, helement⟩ := matches_of_dayKey (hdayKey.trans hkey'.symm)
    refine ⟨element, hmem, hdayKey, hday, hmatches, fun other hother hothermatches => ?_⟩
    obtain ⟨best, hbest, hbestmatches, hbestshape, hsize⟩ := h other hother hothermatches
    refine hsize.trans ?_
    rw [helement]
    exact size_le_of_find? hshape hbestshape (hcontains best hbest hbestmatches)

end Entries

/-- The lookup finds the best entry for a date exactly when one of the best has a key. -/
theorem findsBest_iff_bestHasKey (home : HomeDir) (fname : String) (tm : Tm) :
    FindsBest home fname tm ↔ BestHasKey home fname tm :=
  ⟨bestHasKey_of_findsBest, findsBest_of_bestHasKey⟩

/-- An entry for one date of every year, whatever its weekday. -/
def holiday : DayElement where
  month := some "12"
  day := some "25"
  weekday := none
  periods := [⟨some "08:00:00", some "20:00:00", [some "ALL"]⟩]

def holidayHome : HomeDir := ⟨[("HOLIDAY", .programs none [holiday])], none, none, none⟩

def christmas : Tm :=
  ⟨22, 49, 21, 25, 12, 2025, 4, by decide, by decide, by decide⟩

/-- A month and a day without a weekday are not found. -/
theorem not_findsBest_holiday : ¬ FindsBest holidayHome "HOLIDAY" christmas := by
  intro h
  have hmatches : (DayFields.ofElement "*" holiday).Matches (DayFields.ofDate christmas) := by
    decide +kernel
  obtain ⟨element, hmem, -, hshape, -⟩ :=
    bestHasKey_of_findsBest h holiday List.mem_cons_self hmatches
  rw [List.mem_singleton.mp hmem] at hshape
  exact absurd hshape (by decide +kernel)

end Program

end Hat
