import Hat.Minilibs.MParams
import Mathlib.Logic.Basic

/-!
# The values of an attribute

A set may hold several attributes of one name and category.  What `get` reads and what
`set` and `add` change is determined by the list of their values: the first that is not
empty is read, and the first is changed.
-/

namespace Hat.MParams

/-- The values under a name and a category, in order. -/
def values (name category : String) (params : MParams) : List String :=
  (params.attributes.filter fun attr => attr.name = name ∧ attr.category = category).map
    MAttribute.value

/-- The value that is read. -/
def firstFull (values : List String) : String := (values.find? (· ≠ "")).getD ""

/-- The change of the first value, if there is one. -/
def overwrite (value : String) : List String → List String
  | [] => []
  | _ :: rest => value :: rest

theorem getCategory_eq (params : MParams) (name category : String) :
    params.getCategory name category = firstFull (params.values name category) := by
  rw [getCategory, values, firstFull]
  induction params.attributes with
  | nil => rfl
  | cons attr rest ih =>
      rw [getFromCategory, List.filter_cons]
      by_cases hattr : attr.name = name ∧ attr.category = category
      · by_cases hvalue : attr.value = ""
        · rw [if_neg fun h => h.2 hvalue, ih, if_pos (decide_eq_true hattr)]
          simp [hvalue]
        · rw [if_pos ⟨hattr, hvalue⟩, if_pos (decide_eq_true hattr)]
          simp [hvalue]
      · rw [if_neg fun h => hattr h.1, ih, if_neg fun h => hattr (of_decide_eq_true h)]

theorem get_eq (params : MParams) (name : String) :
    params.get name = firstFull (params.values name "generic") := by
  rw [← getCategory_eq, get, getCategory]
  induction params.attributes with
  | nil => rfl
  | cons attr rest ih =>
      rw [getFrom, getFromCategory, ih]
      simp only [isGeneric, Bool.and_eq_true, decide_eq_true_eq]

/-- One attribute is overwritten: the values under its name and category are those with
the first one changed, and all others are as before. -/
theorem values_setFirst (name value other category : String) (attributes : List MAttribute)
    (params : MParams) :
    ({ params with attributes := (setFirst name value attributes).getD attributes }).values other
        category =
      if other = name ∧ category = "generic" then
        overwrite value ({ params with attributes := attributes }.values other category)
      else { params with attributes := attributes }.values other category := by
  simp only [values]
  induction attributes with
  | nil => simp [setFirst, overwrite]
  | cons attr rest ih =>
      rw [getD_setFirst_cons]
      by_cases hattr : isGeneric name attr = true
      · have hnamed : attr.name = name ∧ attr.category = "generic" := by
          simpa [isGeneric] using hattr
        rw [if_pos hattr, List.filter_cons, List.filter_cons]
        by_cases hsame : other = name ∧ category = "generic"
        · rw [if_pos hsame, hsame.1, hsame.2]
          simp [hnamed, overwrite]
        · have hother : ¬(attr.name = other ∧ attr.category = category) := by
            rintro ⟨hname, hcategory⟩
            exact hsame ⟨hname.symm.trans hnamed.1, hcategory.symm.trans hnamed.2⟩
          rw [if_neg hsame]
          simp [hother]
      · rw [if_neg hattr, List.filter_cons, List.filter_cons]
        by_cases hother : attr.name = other ∧ attr.category = category
        · have hne : ¬(other = name ∧ category = "generic") := by
            rintro ⟨rfl, rfl⟩
            exact hattr (by simpa [isGeneric] using hother)
          rw [if_neg hne] at ih ⊢
          simp only [hother, and_self, decide_true, if_true, List.map_cons, ih]
        · simp only [hother, decide_false, Bool.false_eq_true, if_false, ih]

theorem values_set (params : MParams) (name value other category : String) :
    (params.set name value).values other category =
      if other = name ∧ category = "generic" then overwrite value (params.values other category)
      else params.values other category := by
  have hset : params.set name value =
      { params with
        attributes := (setFirst name value params.attributes).getD params.attributes } := by
    rw [set]
    cases setFirst name value params.attributes <;> rfl
  rw [hset]
  exact values_setFirst name value other category params.attributes params

theorem values_append (params : MParams) (attr : MAttribute) (name category : String) :
    ({ params with attributes := params.attributes ++ [attr] }).values name category =
      params.values name category ++
        if attr.name = name ∧ attr.category = category then [attr.value] else [] := by
  rw [values, List.filter_append, List.map_append, ← values]
  split
  · rename_i hattr
    simp [hattr]
  · rename_i hattr
    simp [hattr]

theorem setFirst_eq_none_iff (name value : String) (params : MParams) :
    setFirst name value params.attributes = none ↔ params.values name "generic" = [] := by
  rw [values, List.map_eq_nil_iff, List.filter_eq_nil_iff]
  induction params.attributes with
  | nil => simp [setFirst]
  | cons attr rest ih =>
      rw [setFirst, List.forall_mem_cons, ← ih]
      by_cases hattr : isGeneric name attr = true
      · have hnamed : attr.name = name ∧ attr.category = "generic" := by
          simpa [isGeneric] using hattr
        simp [hattr, hnamed]
      · rw [if_neg hattr, Option.map_eq_none_iff]
        have hnot : ¬decide (attr.name = name ∧ attr.category = "generic") = true := by
          simpa [isGeneric] using hattr
        simp [hnot]

/-- An addition changes the first value or puts one there. -/
theorem values_add (params : MParams) (name value other category : String) :
    (params.add name value).values other category =
      if other = name ∧ category = "generic" then value :: (params.values other category).tail
      else params.values other category := by
  have hset := values_set params name value other category
  rw [set] at hset
  rw [add]
  cases hfirst : setFirst name value params.attributes with
  | some attributes =>
      rw [hfirst] at hset
      rw [hset]
      split
      · rename_i hsame
        have hsome : params.values other category ≠ [] := by
          rw [hsame.1, hsame.2]
          intro hnil
          rw [(setFirst_eq_none_iff name value params).mpr hnil] at hfirst
          cases hfirst
        obtain ⟨first, rest, hvalues⟩ := List.exists_cons_of_ne_nil hsome
        rw [hvalues]
        rfl
      · rfl
  | none =>
      have hnil := (setFirst_eq_none_iff name value params).mp hfirst
      rw [values_append]
      by_cases hsame : other = name ∧ category = "generic"
      · rw [if_pos hsame, hsame.1, hsame.2, hnil]
        simp
      · have hne : ¬(name = other ∧ "generic" = category) := by
          rintro ⟨rfl, rfl⟩
          exact hsame ⟨rfl, rfl⟩
        rw [if_neg hsame, if_neg hne, List.append_nil]

theorem values_addCategory (params : MParams) (name category value other kind : String) :
    (params.addCategory name category value).values other kind =
      if other = name ∧ kind = category then value :: (params.values other kind).tail
      else params.values other kind := by
  simp only [addCategory, values]
  induction params.attributes with
  | nil =>
      simp only [addFirstCategory, List.filter_cons, List.filter_nil]
      by_cases hsame : other = name ∧ kind = category
      · simp [hsame]
      · have hne : ¬(name = other ∧ category = kind) := by
          rintro ⟨rfl, rfl⟩
          exact hsame ⟨rfl, rfl⟩
        simp [hsame, hne]
  | cons attr rest ih =>
      rw [addFirstCategory]
      by_cases hattr : attr.name = name ∧ attr.category = category
      · rw [if_pos hattr, List.filter_cons, List.filter_cons]
        by_cases hsame : other = name ∧ kind = category
        · rw [if_pos hsame, hsame.1, hsame.2]
          simp [hattr]
        · have hne : ¬(attr.name = other ∧ attr.category = kind) := by
            rintro ⟨rfl, rfl⟩
            exact hsame hattr
          rw [if_neg hsame]
          simp [hne]
      · rw [if_neg hattr, List.filter_cons, List.filter_cons]
        by_cases hother : attr.name = other ∧ attr.category = kind
        · have hne : ¬(other = name ∧ kind = category) := by
            rintro ⟨rfl, rfl⟩
            exact hattr hother
          rw [if_neg hne] at ih ⊢
          simp only [hother, and_self, decide_true, if_true, List.map_cons, ih]
        · simp only [hother, decide_false, Bool.false_eq_true, if_false, ih]

@[simp]
theorem firstFull_nil : firstFull [] = "" := rfl

theorem firstFull_cons {value : String} (hvalue : value ≠ "") (rest : List String) :
    firstFull (value :: rest) = value := by
  simp [firstFull, hvalue]

/-- A value at the front is read, unless it is empty and another one shows through. -/
theorem firstFull_cons_iff (value : String) (rest : List String) :
    firstFull (value :: rest) = value ↔ (value = "" → ∀ other ∈ rest, other = "") := by
  by_cases hvalue : value = ""
  · subst hvalue
    have hskip : firstFull ("" :: rest) = firstFull rest := by
      simp [firstFull]
    rw [hskip, forall_prop_of_true rfl, firstFull]
    cases hfind : rest.find? (· ≠ "") with
    | none =>
        have hall : ∀ other ∈ rest, other = "" := by
          intro other hother
          simpa using List.find?_eq_none.mp hfind other hother
        exact iff_of_true rfl hall
    | some found =>
        have hfull : found ≠ "" := by
          simpa using List.find?_some hfind
        exact iff_of_false hfull fun hall => hfull (hall found (List.mem_of_find?_eq_some hfind))
  · exact iff_of_true (firstFull_cons hvalue rest) fun h => absurd h hvalue

end Hat.MParams
