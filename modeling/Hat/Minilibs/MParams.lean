import Hat.Minilibs.Hsrv
import Mathlib.Data.List.Basic

/-!
# Name lists and attribute sets

`NameList` splits a text at a delimiter.  `MParams` is a set of named attributes
with a file in the configuration directory and one in the home directory; the
files are modelled by the attributes that the XML reader delivers from them.
-/

namespace Hat

open Hat.Hsrv

abbrev NameList := List String

/-- The pieces of `names` between delimiters, without an empty last one.  The
list keeps its previous content when `names` is empty. -/
def NameList.init (previous : NameList) (names : String) (delim : Char) : NameList :=
  if names = "" then previous
  else
    let pieces := names.toList.splitOn delim
    (if pieces.getLast? = some [] then pieces.dropLast else pieces).map String.ofList

/-- A text that is not empty has a first piece: what stands before the first delimiter. -/
theorem NameList.head?_init {names : String} (hnames : names ≠ "") (delim : Char) :
    (NameList.init [] names delim).head? =
      some (String.ofList (names.toList.takeWhile fun c => c ≠ delim)) := by
  have hsplit : ∀ chars : List Char,
      (chars.splitOn delim).head? = some (chars.takeWhile fun c => c ≠ delim) := by
    intro chars
    induction chars with
    | nil => rfl
    | cons c rest ih =>
        rw [List.splitOn_cons_eq_if_modifyHead]
        by_cases hc : c = delim
        · simp [hc]
        · simp [hc, List.head?_modifyHead, ih]
  have hchars : names.toList ≠ [] := fun h => hnames (String.toList_eq_nil_iff.mp h)
  have hhead := hsplit names.toList
  -- The one piece of a text without delimiters is not empty, so it is not dropped.
  cases hpieces : names.toList.splitOn delim with
  | nil => exact absurd hpieces (List.splitOn_ne_nil delim names.toList)
  | cons first rest =>
      rw [hpieces, List.head?_cons, Option.some.injEq] at hhead
      simp only [init, if_neg hnames, hpieces]
      cases rest with
      | nil =>
          have hjoin : [delim].intercalate (names.toList.splitOn delim) = names.toList :=
            List.intercalate_splitOn delim
          rw [hpieces] at hjoin
          have hfirst : first ≠ [] := by
            rintro rfl
            exact hchars (by simpa using hjoin.symm)
          rw [← hhead]
          simp [hfirst]
      | cons second tail =>
          rw [← hhead]
          split <;> simp

/-- The names with the delimiter between them. -/
def NameList.joined (names : NameList) (delim : Char) : String :=
  String.ofList ([delim].intercalate (names.map String.toList))

theorem NameList.joined_singleton (name : String) (delim : Char) :
    NameList.joined [name] delim = name := by
  rw [NameList.joined, List.map_singleton, List.intercalate_singleton, String.ofList_toList]

theorem NameList.joined_cons (name : String) {names : NameList} (hnames : names ≠ [])
    (delim : Char) :
    NameList.joined (name :: names) delim =
      name ++ String.singleton delim ++ NameList.joined names delim := by
  have hmap : names.map String.toList ≠ [] := mt List.map_eq_nil_iff.mp hnames
  rw [NameList.joined, List.map_cons, List.intercalate_cons_of_ne_nil hmap, String.ofList_append,
    String.ofList_append, String.ofList_toList, NameList.joined]
  rfl

/-- Names that are not empty and lack the delimiter are read back. -/
theorem NameList.init_joined {names : NameList} {delim : Char} (hnames : names ≠ [])
    (hfull : ∀ name ∈ names, name ≠ "" ∧ delim ∉ name.toList) (previous : NameList) :
    NameList.init previous (NameList.joined names delim) delim = names := by
  have hmap : names.map String.toList ≠ [] := mt List.map_eq_nil_iff.mp hnames
  have hlack : ∀ piece ∈ names.map String.toList, delim ∉ piece := by
    intro piece hpiece
    obtain ⟨name, hname, rfl⟩ := List.mem_map.mp hpiece
    exact (hfull name hname).2
  have hsplit : (NameList.joined names delim).toList.splitOn delim =
      names.map String.toList := by
    rw [NameList.joined, String.toList_ofList]
    exact List.splitOn_intercalate delim hlack hmap
  have hempty : NameList.joined names delim ≠ "" := by
    intro hempty
    rw [hempty, String.toList_empty, List.splitOn_nil] at hsplit
    obtain ⟨name, hname, hnil⟩ := List.mem_map.mp (hsplit ▸ List.mem_singleton_self [])
    exact (hfull name hname).1 (String.toList_eq_nil_iff.mp hnil)
  have hlast : (names.map String.toList).getLast? ≠ some [] := by
    intro hlast
    obtain ⟨name, hname, hnil⟩ := List.mem_map.mp (List.mem_of_getLast? hlast)
    exact (hfull name hname).1 (String.toList_eq_nil_iff.mp hnil)
  rw [NameList.init, if_neg hempty]
  simp only [hsplit, if_neg hlast, List.map_map]
  exact (List.map_congr_left fun name _ => String.ofList_toList).trans (List.map_id names)

/-- The front of an empty list is not defined. -/
def NameList.dropEmptyFront : NameList → Option NameList
  | [] => none
  | first :: rest => some (if first = "" then rest else first :: rest)

/-- The segments of a path. -/
def NameList.segments (path : String) : NameList :=
  (dropEmptyFront (init [] path '/')).getD []

/-- A text that is not empty has segments. -/
theorem NameList.dropEmptyFront_init {path : String} (hpath : path ≠ "") :
    dropEmptyFront (init [] path '/') = some (segments path) := by
  have hhead := NameList.head?_init hpath '/'
  rw [segments]
  cases hlist : init [] path '/' with
  | nil =>
      rw [hlist] at hhead
      exact absurd hhead.symm (Option.some_ne_none _)
  | cons first rest => rfl

def NameList.member (list : NameList) (name : String) : Bool := list.any (· = name)

/-! ## MParams -/

structure MAttribute where
  name : String
  category : String
  value : String
  deriving DecidableEq

structure MParams where
  ty : String
  attributes : List MAttribute
  /-- The file in the configuration directory, when there is one. -/
  path : Option (String × List MAttribute)
  /-- The file in the home directory, when there is one. -/
  pathh : Option (String × List MAttribute)
  deriving DecidableEq

namespace MParams

/-- The attribute that `get`, `set` and `add` with a bare name refer to. -/
def isGeneric (name : String) (attr : MAttribute) : Bool :=
  attr.name = name && attr.category = "generic"

def load (params : MParams) : MParams :=
  match params.pathh, params.path with
  | some file, _ => { params with ty := file.1, attributes := file.2 }
  | none, some file => { params with ty := file.1, attributes := file.2 }
  | none, none => params

def save (params : MParams) : MParams :=
  { params with pathh := some (params.ty, params.attributes) }

/-- The loop of `get`: it goes on past attributes whose value is empty. -/
def getFrom (name : String) : List MAttribute → String
  | [] => ""
  | attr :: rest =>
      if isGeneric name attr && attr.value ≠ "" then attr.value
      else getFrom name rest

def get (params : MParams) (name : String) : String := getFrom name params.attributes

/-- The loop of `get` with a category. -/
def getFromCategory (name category : String) : List MAttribute → String
  | [] => ""
  | attr :: rest =>
      if (attr.name = name ∧ attr.category = category) ∧ attr.value ≠ "" then attr.value
      else getFromCategory name category rest

def getCategory (params : MParams) (name category : String) : String :=
  getFromCategory name category params.attributes

/-- The loop of `set` and `add`: the first attribute of that name is overwritten. -/
def setFirst (name value : String) : List MAttribute → Option (List MAttribute)
  | [] => none
  | attr :: rest =>
      if isGeneric name attr then some ({ attr with value := value } :: rest)
      else (setFirst name value rest).map (attr :: ·)

def set (params : MParams) (name value : String) : MParams :=
  match setFirst name value params.attributes with
  | some attributes => { params with attributes := attributes }
  | none => params

def add (params : MParams) (name value : String) : MParams :=
  match setFirst name value params.attributes with
  | some attributes => { params with attributes := attributes }
  | none => { params with attributes := params.attributes ++ [⟨name, "generic", value⟩] }

/-- The loop of `add` with a category; a new attribute goes to the end. -/
def addFirstCategory (name category value : String) : List MAttribute → List MAttribute
  | [] => [⟨name, category, value⟩]
  | attr :: rest =>
      if attr.name = name ∧ attr.category = category then { attr with value := value } :: rest
      else attr :: addFirstCategory name category value rest

def addCategory (params : MParams) (name category value : String) : MParams :=
  { params with attributes := addFirstCategory name category value params.attributes }

@[simp]
theorem get_save (params : MParams) (name : String) : params.save.get name = params.get name := rfl

theorem getFrom_append_singleton (name : String) (attributes : List MAttribute)
    (attr : MAttribute) (h : setFirst name attr.value attributes = none) :
    getFrom name (attributes ++ [attr]) = getFrom name [attr] := by
  induction attributes with
  | nil => rfl
  | cons head rest ih =>
      simp only [setFirst] at h
      split at h
      · exact absurd h (Option.some_ne_none _)
      · rename_i hhead
        simp only [List.cons_append, getFrom, hhead, Bool.false_and]
        exact ih (Option.map_eq_none_iff.mp h)

theorem getFrom_setFirst {name value : String} (hvalue : value ≠ "")
    {attributes changed : List MAttribute} (h : setFirst name value attributes = some changed) :
    getFrom name changed = value := by
  induction attributes generalizing changed with
  | nil => exact absurd h.symm (Option.some_ne_none _)
  | cons head rest ih =>
      simp only [setFirst] at h
      split at h
      · rename_i hhead
        have hname : isGeneric name { head with value := value } = true := hhead
        rw [Option.some.injEq] at h
        simp [← h, getFrom, hname, hvalue]
      · rename_i hhead
        obtain ⟨tail, htail, rfl⟩ := Option.map_eq_some_iff.mp h
        simpa [getFrom, hhead] using ih htail

theorem getFrom_setFirst_of_ne {name other value : String} (hne : name ≠ other)
    {attributes changed : List MAttribute} (h : setFirst name value attributes = some changed) :
    getFrom other changed = getFrom other attributes := by
  induction attributes generalizing changed with
  | nil => exact absurd h.symm (Option.some_ne_none _)
  | cons head rest ih =>
      simp only [setFirst] at h
      split at h
      · rename_i hhead
        have hname : head.name = name := by
          simp only [isGeneric, Bool.and_eq_true, decide_eq_true_eq] at hhead
          exact hhead.1
        rw [Option.some.injEq] at h
        have hother : head.name ≠ other := fun h => hne (hname.symm.trans h)
        simp [← h, getFrom, isGeneric, hother]
      · obtain ⟨tail, htail, rfl⟩ := Option.map_eq_some_iff.mp h
        simp only [getFrom, ih htail]

theorem setFirst_isSome_of_getFrom {name : String} (value : String)
    {attributes : List MAttribute} (h : getFrom name attributes ≠ "") :
    ∃ changed, setFirst name value attributes = some changed := by
  induction attributes with
  | nil => exact absurd rfl h
  | cons head rest ih =>
      simp only [setFirst]
      split
      · exact ⟨_, rfl⟩
      · rename_i hhead
        have hrest : getFrom name rest ≠ "" := by simpa [getFrom, hhead] using h
        obtain ⟨changed, hchanged⟩ := ih hrest
        exact ⟨head :: changed, by rw [hchanged]; rfl⟩

/-- An added attribute is read back. -/
theorem get_add_self (params : MParams) (name : String) {value : String} (hvalue : value ≠ "") :
    (params.add name value).get name = value := by
  simp only [add]
  split
  · rename_i changed hchanged
    exact getFrom_setFirst hvalue hchanged
  · rename_i hnone
    have happ := getFrom_append_singleton name params.attributes ⟨name, "generic", value⟩ hnone
    simpa [get, getFrom, isGeneric, hvalue] using happ

theorem get_add_of_ne (params : MParams) {name other : String} (value : String)
    (hne : name ≠ other) : (params.add name value).get other = params.get other := by
  simp only [add]
  split
  · rename_i changed hchanged
    exact getFrom_setFirst_of_ne hne hchanged
  · simp only [get]
    induction params.attributes with
    | nil => simp [getFrom, isGeneric, hne]
    | cons head rest ih => simp only [List.cons_append, getFrom, ih]

theorem path_load (params : MParams) : params.load.path = params.path := by
  rw [load]
  split <;> rfl

theorem pathh_load (params : MParams) : params.load.pathh = params.pathh := by
  rw [load]
  split <;> rfl

theorem load_load (params : MParams) : params.load.load = params.load := by
  cases hpathh : params.pathh <;> cases hpath : params.path <;> simp only [load, hpathh, hpath]

theorem path_set (params : MParams) (name value : String) :
    (params.set name value).path = params.path := by
  rw [set]
  split <;> rfl

/-- An attribute that is present and not empty can be set. -/
theorem get_set_self (params : MParams) {name value : String} (hvalue : value ≠ "")
    (hpresent : params.get name ≠ "") : (params.set name value).get name = value := by
  obtain ⟨changed, hchanged⟩ := setFirst_isSome_of_getFrom value hpresent
  simp only [set, hchanged]
  exact getFrom_setFirst hvalue hchanged

theorem get_set_of_ne (params : MParams) {name other : String} (value : String)
    (hne : name ≠ other) : (params.set name value).get other = params.get other := by
  simp only [set]
  split
  · rename_i changed hchanged
    exact getFrom_setFirst_of_ne hne hchanged
  · rfl

/-- Setting an attribute that is missing or empty either gives it the value or
leaves the set as it was. -/
theorem get_set_cases (params : MParams) (name : String) {value : String} (hvalue : value ≠ "") :
    (params.set name value).get name = value ∨ params.set name value = params := by
  simp only [set]
  split
  · rename_i changed hchanged
    exact Or.inl (getFrom_setFirst hvalue hchanged)
  · exact Or.inr rfl

theorem getFromCategory_append (name category : String) (before after : List MAttribute) :
    getFromCategory name category (before ++ after) =
      if getFromCategory name category before = "" then getFromCategory name category after
      else getFromCategory name category before := by
  induction before with
  | nil => simp [getFromCategory]
  | cons head rest ih =>
      simp only [List.cons_append, getFromCategory]
      split_ifs with hhead hempty
      · exact absurd hempty hhead.2
      · rfl
      · rw [ih, if_pos ‹_›]
      · rw [ih, if_neg ‹_›]

theorem getFromCategory_of_category_ne (name : String) {category : String}
    {attributes : List MAttribute} (h : ∀ attr ∈ attributes, attr.category ≠ category) :
    getFromCategory name category attributes = "" := by
  induction attributes with
  | nil => rfl
  | cons head rest ih =>
      obtain ⟨hhead, hrest⟩ := List.forall_mem_cons.mp h
      rw [getFromCategory, if_neg fun hmatch => hhead hmatch.1.2, ih hrest]

/-- An attribute that is not empty is read if no other of its name and category has another
value. -/
theorem getFromCategory_of_mem {attr : MAttribute} {attributes : List MAttribute}
    (hmem : attr ∈ attributes) (hvalue : attr.value ≠ "")
    (hunique : ∀ other ∈ attributes, other.name = attr.name → other.category = attr.category →
      other.value = attr.value) :
    getFromCategory attr.name attr.category attributes = attr.value := by
  induction attributes with
  | nil => exact absurd hmem List.not_mem_nil
  | cons head rest ih =>
      obtain ⟨hhead, hrest⟩ := List.forall_mem_cons.mp hunique
      rw [getFromCategory]
      split
      · rename_i hmatch
        exact hhead hmatch.1.1 hmatch.1.2
      · rename_i hnot
        obtain rfl | hmem' := List.mem_cons.mp hmem
        · exact absurd ⟨⟨rfl, rfl⟩, hvalue⟩ hnot
        · exact ih hmem' hrest

theorem getFromCategory_setFirst {name value category : String} (hcategory : category ≠ "generic")
    (other : String) {attributes changed : List MAttribute}
    (h : setFirst name value attributes = some changed) :
    getFromCategory other category changed = getFromCategory other category attributes := by
  induction attributes generalizing changed with
  | nil => exact absurd h.symm (Option.some_ne_none _)
  | cons head rest ih =>
      simp only [setFirst] at h
      split at h
      · rename_i hhead
        simp only [isGeneric, Bool.and_eq_true, decide_eq_true_eq] at hhead
        rw [Option.some.injEq] at h
        have hother : head.category ≠ category := fun h => hcategory (h.symm.trans hhead.2)
        simp [← h, getFromCategory, hother]
      · obtain ⟨tail, htail, rfl⟩ := Option.map_eq_some_iff.mp h
        simp only [getFromCategory, ih htail]

/-- A bare name refers to the generic category, so `add` leaves the others alone. -/
theorem getCategory_add (params : MParams) (name value other : String) {category : String}
    (hcategory : category ≠ "generic") :
    (params.add name value).getCategory other category = params.getCategory other category := by
  simp only [getCategory, add]
  split
  · rename_i changed hchanged
    exact getFromCategory_setFirst hcategory other hchanged
  · rw [getFromCategory_append]
    have hnew : getFromCategory other category [⟨name, "generic", value⟩] = "" := by
      simp [getFromCategory, Ne.symm hcategory]
    split_ifs with hempty
    · rw [hnew, hempty]
    · rfl

/-- An attribute that reads as empty still does when the empty text is added. -/
theorem get_add_empty {params : MParams} {name : String} (hempty : params.get name = "") :
    (params.add name "").get name = "" := by
  have hset : ∀ {attributes changed : List MAttribute}, getFrom name attributes = "" →
      setFirst name "" attributes = some changed → getFrom name changed = "" := by
    intro attributes
    induction attributes with
    | nil => exact fun _ h => absurd h.symm (Option.some_ne_none _)
    | cons head rest ih =>
        intro changed hfrom h
        simp only [setFirst] at h
        split at h
        · rename_i hhead
          have hvalue : head.value = "" := by
            by_contra hne
            simp only [getFrom, hhead, hne, ne_eq, not_false_eq_true, decide_true,
              Bool.and_self, if_true] at hfrom
          rw [Option.some.injEq] at h
          simp only [getFrom, hhead, hvalue, ne_eq, not_true_eq_false, decide_false,
            Bool.and_false, Bool.false_eq_true, if_false] at hfrom
          simp [← h, getFrom, hfrom]
        · rename_i hhead
          obtain ⟨tail, htail, rfl⟩ := Option.map_eq_some_iff.mp h
          simp only [getFrom, hhead, Bool.false_and, Bool.false_eq_true, if_false] at hfrom ⊢
          exact ih hfrom htail
  simp only [add]
  split
  · rename_i changed hchanged
    exact hset hempty hchanged
  · rename_i hnone
    have happ := getFrom_append_singleton name params.attributes ⟨name, "generic", ""⟩ hnone
    simpa [get, getFrom] using happ

/-- After `set` the attribute reads as the value: it is there, and where the value is
empty no later attribute of the name shows through. -/
def Takes (name value : String) : List MAttribute → Prop
  | [] => value = ""
  | attr :: rest =>
      if isGeneric name attr then value ≠ "" ∨ getFrom name rest = "" else Takes name value rest

theorem attributes_set (params : MParams) (name value : String) :
    (params.set name value).attributes =
      (setFirst name value params.attributes).getD params.attributes := by
  simp only [set]
  split
  · rename_i changed hchanged
    rw [hchanged, Option.getD_some]
  · rename_i hnone
    rw [hnone, Option.getD_none]

theorem getD_setFirst_cons (name value : String) (attr : MAttribute) (rest : List MAttribute) :
    (setFirst name value (attr :: rest)).getD (attr :: rest) =
      if isGeneric name attr then { attr with value := value } :: rest
      else attr :: (setFirst name value rest).getD rest := by
  simp only [setFirst]
  split
  · rfl
  · cases setFirst name value rest <;> rfl

theorem getFrom_setFirst_iff (name value : String) (attributes : List MAttribute) :
    getFrom name ((setFirst name value attributes).getD attributes) = value ↔
      Takes name value attributes := by
  induction attributes with
  | nil => exact eq_comm
  | cons attr rest ih =>
      rw [getD_setFirst_cons, Takes]
      by_cases hattr : isGeneric name attr = true
      · have hchanged : isGeneric name { attr with value := value } = true := hattr
        rw [if_pos hattr, if_pos hattr]
        by_cases hvalue : value = ""
        · simp [getFrom, hvalue]
        · simp [getFrom, hchanged, hvalue]
      · rw [if_neg hattr, if_neg hattr, ← ih]
        simp [getFrom, hattr]

theorem takes_setFirst (name value other : String) (attributes : List MAttribute) :
    Takes name value ((setFirst name other attributes).getD attributes) ↔
      Takes name value attributes := by
  induction attributes with
  | nil => exact Iff.rfl
  | cons attr rest ih =>
      rw [getD_setFirst_cons]
      by_cases hattr : isGeneric name attr = true
      · have hchanged : isGeneric name { attr with value := other } = true := hattr
        rw [if_pos hattr, Takes, Takes, if_pos hattr, if_pos hchanged]
      · rw [if_neg hattr, Takes, Takes, if_neg hattr, if_neg hattr, ih]

theorem get_set_iff (params : MParams) (name value : String) :
    (params.set name value).get name = value ↔ Takes name value params.attributes := by
  rw [get, attributes_set]
  exact getFrom_setFirst_iff name value params.attributes

theorem takes_set (params : MParams) (name value other : String) :
    Takes name value (params.set name other).attributes ↔ Takes name value params.attributes := by
  rw [attributes_set]
  exact takes_setFirst name value other params.attributes

/-- There is an attribute for `set` to write. -/
def Has (params : MParams) (name : String) : Prop :=
  params.attributes.any (isGeneric name) = true

instance (params : MParams) (name : String) : Decidable (params.Has name) :=
  inferInstanceAs (Decidable (_ = true))

theorem has_set (params : MParams) (name value other : String) :
    (params.set name value).Has other ↔ params.Has other := by
  rw [Has, Has, attributes_set]
  induction params.attributes with
  | nil => rfl
  | cons attr rest ih =>
      rw [getD_setFirst_cons]
      split
      · rfl
      · rw [List.any_cons, List.any_cons, Bool.or_eq_true, Bool.or_eq_true, ih]

theorem takes_iff {name value : String} (hvalue : value ≠ "") (attributes : List MAttribute) :
    Takes name value attributes ↔ attributes.any (isGeneric name) = true := by
  induction attributes with
  | nil => simp [Takes, hvalue]
  | cons attr rest ih =>
      rw [Takes, List.any_cons, Bool.or_eq_true]
      split
      · rename_i hattr
        exact iff_of_true (Or.inl hvalue) (Or.inl hattr)
      · rename_i hattr
        rw [ih, or_iff_right hattr]

theorem getFrom_eq_empty {name : String} {attributes : List MAttribute}
    (h : ¬ attributes.any (isGeneric name) = true) : getFrom name attributes = "" := by
  induction attributes with
  | nil => rfl
  | cons attr rest ih =>
      rw [List.any_cons, Bool.or_eq_true, not_or] at h
      rw [getFrom, if_neg, ih h.2]
      rw [Bool.and_eq_true]
      exact fun hboth => h.1 hboth.1

/-- A text that is not empty is read back where there is an attribute for it. -/
theorem get_set_eq_ite (params : MParams) (name : String) {value : String} (hvalue : value ≠ "") :
    (params.set name value).get name = if params.Has name then value else "" := by
  split
  · rename_i hhas
    exact (get_set_iff params name value).mpr ((takes_iff hvalue _).mpr hhas)
  · rename_i hnot
    exact getFrom_eq_empty ((has_set params name value name).not.mpr hnot)

end MParams

end Hat
